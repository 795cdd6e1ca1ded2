import ContentType.Byte
import ContentType.Proofs.FileSystem.Reading
import Mathlib.Algebra.GroupWithZero.Nat
import Mathlib.Data.List.Forall2

namespace ContentType

namespace LimitedReader

/-- What each of some calls hands out, by the sizes of the buffers. -/
def pieces (r : LimitedReader) : List Nat → List (List UInt8)
  | [] => []
  | size :: sizes => (r.read size).1 :: (r.read size).2.pieces sizes

/-- The reader behind some calls. -/
def after (r : LimitedReader) (sizes : List Nat) : LimitedReader :=
  sizes.foldl (fun r size => (r.read size).2) r

/-- Where a reader of a source stands, when the buffers so far had room for so many bytes. -/
structure Stands (source : List UInt8) (limit room : Nat) (r : LimitedReader) : Prop where
  taken : r.taken = min (min room limit) source.length
  rest : r.source = source.drop r.taken
  limit : r.limit = limit

section Calls

variable {source : List UInt8} {limit room : Nat} {r : LimitedReader}

theorem stands_start (source : List UInt8) (limit : Nat) :
    Stands source limit 0 (start source limit) :=
  ⟨by simp [start], rfl, rfl⟩

/-- One more call goes on where the calls before it stopped. -/
theorem Stands.read (h : Stands source limit room r) (size : Nat) :
    Stands source limit (room + size) (r.read size).2 := by
  have hlength : (r.read size).1.length =
      min (min size (limit - r.taken)) (source.length - r.taken) := by
    rw [bytes_read, h.rest, h.limit, List.length_take, List.length_drop]
  have htaken := h.taken
  refine ⟨?_, ?_, ?_⟩
  · rw [taken_read, hlength]
    omega
  · rw [source_read, taken_read, hlength, h.rest, h.limit, List.drop_drop]
    rcases Nat.le_total (min size (limit - r.taken)) (source.length - r.taken) with hin | hout
    · rw [Nat.min_eq_left hin]
    · rw [Nat.min_eq_right hout, List.drop_of_length_le (by omega),
        List.drop_of_length_le (by omega)]
  · rw [limit_read, h.limit]

theorem Stands.take_read (h : Stands source limit room r) (size : Nat) :
    source.take (r.read size).2.taken = source.take r.taken ++ (r.read size).1 := by
  rw [taken_read, List.take_add, bytes_read, h.rest, List.length_take, ← List.take_eq_take_min]

theorem Stands.after (h : Stands source limit room r) (sizes : List Nat) :
    Stands source limit (room + sizes.sum) (r.after sizes) ∧
      source.take (r.after sizes).taken = source.take r.taken ++ (r.pieces sizes).flatten := by
  induction sizes generalizing r room with
  | nil => exact ⟨h, (List.append_nil _).symm⟩
  | cons size sizes ih =>
    obtain ⟨hstands, htake⟩ := ih (h.read size)
    refine ⟨?_, ?_⟩
    · rw [List.sum_cons, ← Nat.add_assoc]
      exact hstands
    · rw [pieces, List.flatten_cons, ← List.append_assoc, ← h.take_read]
      exact htake

theorem take_pieces (r : LimitedReader) (sizes : List Nat) (k : Nat) :
    (r.pieces sizes).take k = r.pieces (sizes.take k) := by
  induction sizes generalizing r k with
  | nil => simp [pieces]
  | cons size sizes ih =>
    cases k with
    | zero => rfl
    | succ k => simp [pieces, ih]

theorem length_piece_le (r : LimitedReader) (size : Nat) : (r.read size).1.length ≤ size := by
  rw [bytes_read, List.length_take]
  omega

theorem pieces_fit (r : LimitedReader) (sizes : List Nat) :
    List.Forall₂ (fun piece size => piece.length ≤ size) (r.pieces sizes) sizes := by
  induction sizes generalizing r with
  | nil => exact .nil
  | cons size sizes ih => exact .cons (length_piece_le r size) (ih _)

end Calls

/-- What calls with buffers of these sizes come to, which handed out these pieces and left this
reader. -/
structure Accounted (source : List UInt8) (limit : Nat) (sizes : List Nat)
    (pieces : List (List UInt8)) (r : LimitedReader) : Prop where
  taken : r.taken = min (min sizes.sum limit) source.length
  prefixed : pieces.flatten = source.take r.taken
  fitting : List.Forall₂ (fun piece size => piece.length ≤ size) pieces sizes
  limit : r.limit = limit
  /-- So the next call subtracts no more than there is. -/
  within : r.taken ≤ r.limit

theorem accounted (source : List UInt8) (limit : Nat) (sizes : List Nat) :
    Accounted source limit sizes ((start source limit).pieces sizes)
      ((start source limit).after sizes) := by
  obtain ⟨hstands, htake⟩ := (stands_start source limit).after sizes
  have htaken := hstands.taken
  rw [Nat.zero_add] at htaken
  refine ⟨htaken, htake.symm, pieces_fit _ sizes, hstands.limit, ?_⟩
  rw [hstands.limit]
  omega

/-- When nothing comes into a buffer with some room, all has come that reading to the end gives. -/
theorem flatten_pieces_of_end {source : List UInt8} {limit size : Nat} {sizes : List Nat}
    (hsize : 0 < size) (hend : (((start source limit).after sizes).read size).1 = []) :
    ((start source limit).pieces sizes).flatten = (start source limit).readToEnd := by
  obtain ⟨hstands, -⟩ := (stands_start source limit).after sizes
  have ha := accounted source limit sizes
  have htaken := ha.taken
  rw [ha.prefixed, readToEnd_start]
  rw [bytes_read, hstands.rest, ha.limit, List.take_eq_nil_iff, List.drop_eq_nil_iff] at hend
  rcases hend with hlimit | hsource
  · rw [show ((start source limit).after sizes).taken = limit by omega]
  · rw [List.take_of_length_le hsource, List.take_of_length_le (by omega)]

end LimitedReader

namespace OpenFile

variable {f : OpenFile} {offset length : Nat}

/-- What stands between an offset and the end of a window, or the end of the bytes. -/
def slice (s : List UInt8) (offset length : Nat) : List UInt8 :=
  (s.take (min (offset + length) s.length)).drop offset

theorem slice_eq (s : List UInt8) (offset length : Nat) :
    slice s offset length = (s.drop offset).take length := by
  rw [slice, ← List.take_eq_take_min, List.drop_take, Nat.add_sub_cancel_left]

theorem slice_past_end {s : List UInt8} (h : s.length ≤ offset) : slice s offset length = [] := by
  rw [slice_eq, List.drop_of_length_le h, List.take_nil]

theorem readWindow_invalid (hs : f.seekable = true) (h : 2 ^ 63 ≤ offset) :
    f.readWindow offset length = .error .invalidOffset := by
  have hmax : Int64.maxValue.toInt = 2 ^ 63 - 1 := rfl
  rw [readWindow, if_neg (by simp [hs]), if_pos (by omega)]

theorem readWindow_valid (hs : f.seekable = true) (hf : f.failure = none) (h : offset < 2 ^ 63) :
    f.readWindow offset length = .ok (slice f.bytes offset length) := by
  have hmax : Int64.maxValue.toInt = 2 ^ 63 - 1 := rfl
  rw [readWindow_of_clear hs hf (by omega), slice_eq]

/-- A window that is read is the one of the bytes, wherever reading fails. -/
theorem window_of_readWindow {window : List UInt8} (h : f.readWindow offset length = .ok window) :
    window = slice f.bytes offset length := by
  rw [slice_eq]
  simp only [readWindow, LimitedReader.readToEnd_start] at h
  repeat' split at h
  all_goals cases h
  all_goals rfl

/-- After any calls a reader has handed out a first part of its source, as long as the buffers and
the limit let it, and it has not gone beyond its limit. When nothing more comes, it is the part that
is read whatever the buffers are. So a window that is read of an opened file is what stands between
two places in it, and past the end it is empty. Where the file can be sought and read, only an
offset that is no file position is refused. The bytes of an ordinary file are as many as it
reports. -/
theorem pieces_make_window :
    (∀ (source : List UInt8) (limit : Nat) (sizes : List Nat) (k : Nat),
      LimitedReader.Accounted source limit (sizes.take k)
        (((LimitedReader.start source limit).pieces sizes).take k)
        ((LimitedReader.start source limit).after (sizes.take k))) ∧
    (∀ (source : List UInt8) (limit : Nat) (sizes : List Nat) (size : Nat), 0 < size →
      (((LimitedReader.start source limit).after sizes).read size).1 = [] →
        ((LimitedReader.start source limit).pieces sizes).flatten =
          (LimitedReader.start source limit).readToEnd) ∧
    (∀ (f : OpenFile) (offset length : Nat),
      (∀ window, f.readWindow offset length = .ok window →
        window = slice f.bytes offset length ∧ (f.bytes.length ≤ offset → window = [])) ∧
      (f.seekable = true → f.failure = none →
        f.readWindow offset length =
          if offset < 2 ^ 63 then .ok (slice f.bytes offset length)
          else .error .invalidOffset)) ∧
    ∀ (fs : FileSystem) (path : Path) (place : Location) (content : List UInt8) (times : Times),
      fs.resolve true path = .ok (place, .file content times) →
        fs.openFile path = .ok ⟨⟨content, none, true⟩, content.length⟩ := by
  refine ⟨fun source limit sizes k => ?_, fun source limit sizes size hsize hend => ?_,
    fun f offset length => ⟨fun window hwindow => ?_, fun hs hf => ?_⟩,
    fun fs path place content times h => ?_⟩
  · rw [LimitedReader.take_pieces]
    exact LimitedReader.accounted source limit (sizes.take k)
  · exact LimitedReader.flatten_pieces_of_end hsize hend
  · have heq := window_of_readWindow hwindow
    exact ⟨heq, fun hpast => heq.trans (slice_past_end hpast)⟩
  · split
    · rename_i hoffset
      exact readWindow_valid hs hf hoffset
    · rename_i hoffset
      exact readWindow_invalid hs (Nat.le_of_not_lt hoffset)
  · rw [FileSystem.openFile, h]
    rfl

/-- Eleven bytes in a file. -/
def greeting : FileSystem where
  root := .directory 4096 ⟨0, 0⟩
  entries := [([Byte.ascii "hi"], .file (Byte.ascii "hello world") ⟨0, 0⟩)]
  working := []

/-- The second buffer has no room, and the limit cuts the third piece. -/
theorem pieces_make_window_greeting :
    (LimitedReader.start (Byte.ascii "hello world") 8).pieces [3, 0, 9, 5] =
        [Byte.ascii "hel", [], Byte.ascii "lo wo", []] ∧
      ((LimitedReader.start (Byte.ascii "hello world") 8).after [3, 0, 9]).taken = 8 ∧
      ((LimitedReader.start (Byte.ascii "hello world") 8).pieces [3, 0, 9]).flatten =
        (LimitedReader.start (Byte.ascii "hello world") 8).readToEnd ∧
      ∃ f, greeting.openFile "hi" = .ok f ∧ f.seekable = true ∧
        f.failure = none ∧ f.bytes = Byte.ascii "hello world" ∧ f.size = 11 ∧
        f.readWindow 6 100 = .ok (Byte.ascii "world") ∧ f.readWindow 11 10 = .ok [] := by
  have hfound : greeting.resolve true "hi" =
      .ok ([Byte.ascii "hi"], .file (Byte.ascii "hello world") ⟨0, 0⟩) := rfl
  obtain ⟨haccounted, hwhole, hwindow, hopens⟩ := pieces_make_window
  have hopen := hopens greeting "hi" _ _ _ hfound
  have hthird := haccounted (Byte.ascii "hello world") 8 [3, 0, 9, 5] 3
  have hend := hwhole (Byte.ascii "hello world") 8 [3, 0, 9] 5 (by decide) (by decide)
  have hworld := (hwindow ⟨⟨Byte.ascii "hello world", none, true⟩, 11⟩ 6 100).2 rfl rfl
  have hpast := (hwindow ⟨⟨Byte.ascii "hello world", none, true⟩, 11⟩ 11 10).2 rfl rfl
  rw [if_pos (by decide)] at hworld hpast
  have hslice : slice (Byte.ascii "hello world") 6 100 = Byte.ascii "world" := by decide
  exact ⟨by decide, hthird.taken, hend, _, hopen, rfl, rfl, rfl, rfl,
    hworld.trans (congrArg Except.ok hslice), hpast⟩

end OpenFile

end ContentType
