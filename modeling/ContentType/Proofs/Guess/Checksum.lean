import ContentType.Guess.Tar
import ContentType.Proofs.Rule.Printer
import Mathlib.Algebra.Order.Ring.Nat

namespace ContentType.Tar
open Byte

section Sums

variable {s : List UInt8}

theorem sum_eq (s : List UInt8) : sum s = (s.map UInt8.toNat).sum := by
  have hfold : ∀ n, s.foldl (fun n b => n + b.toNat) n = n + (s.map UInt8.toNat).sum := by
    induction s with
    | nil => simp
    | cons b s ih =>
      intro n
      rw [List.foldl_cons, ih, List.map_cons, List.sum_cons, Nat.add_assoc]
  rw [sum, hfold, Nat.zero_add]

theorem sum_append (s t : List UInt8) : sum (s ++ t) = sum s + sum t := by
  rw [sum_eq, sum_eq, sum_eq, List.map_append, List.sum_append]

theorem sum_le (s : List UInt8) : sum s ≤ 255 * s.length := by
  rw [sum_eq]
  induction s with
  | nil => exact Nat.le_refl 0
  | cons b s ih =>
    have hb := b.toNat_lt
    rw [List.map_cons, List.sum_cons, List.length_cons]
    omega

/-- One byte put in the place of another. -/
theorem sum_set {i : Nat} (hi : i < s.length) (b : UInt8) :
    sum (s.set i b) + s[i].toNat = sum s + b.toNat := by
  have hsplit : s = s.take i ++ s[i] :: s.drop (i + 1) := by
    rw [List.getElem_cons_drop, List.take_append_drop]
  have hset : s.set i b = s.take i ++ b :: s.drop (i + 1) :=
    List.set_eq_take_append_cons_drop.trans (if_pos hi)
  have hsum : sum s = sum (s.take i ++ s[i] :: s.drop (i + 1)) := by rw [← hsplit]
  rw [hset, hsum]
  simp only [sum_eq, List.map_append, List.map_cons, List.sum_append, List.sum_cons]
  omega

end Sums

/-- A buffer with a text in the place of its checksum. -/
def withField (buffer text : List UInt8) : List UInt8 :=
  buffer.take checksumAt ++ (text ++ buffer.drop (checksumAt + checksumSize))

section Field

variable {header text : List UInt8}

section WithField

variable (h : checksumAt + checksumSize ≤ header.length) (ht : text.length = checksumSize)
include h ht

theorem length_withField : (withField header text).length = header.length := by
  simp only [withField, List.length_append, List.length_take, List.length_drop, ht]
  omega

theorem length_before :
    (header.take checksumAt ++ text).length = checksumAt + checksumSize := by
  rw [List.length_append, List.length_take_of_le (by omega), ht]

theorem checksumField_withField : checksumField (withField header text) = text := by
  have hbefore : (header.take checksumAt).length = checksumAt :=
    List.length_take_of_le (Nat.le_of_add_right_le h)
  rw [checksumField, withField, List.drop_left' hbefore, List.take_left' ht]

theorem drop_withField {n : Nat} (hn : checksumAt + checksumSize ≤ n) :
    (withField header text).drop n = header.drop n := by
  obtain ⟨k, rfl⟩ := Nat.exists_eq_add_of_le hn
  rw [withField, ← List.append_assoc, ← List.drop_drop, List.drop_left' (length_before h ht),
    List.drop_drop]

theorem take_withField {n : Nat} (hn : checksumAt + checksumSize ≤ n) :
    (withField header text).take n = withField (header.take n) text := by
  have hbefore := length_before h ht
  obtain ⟨k, rfl⟩ := Nat.exists_eq_add_of_le hn
  rw [withField, withField, ← List.append_assoc, ← List.append_assoc, ← hbefore,
    List.take_length_add_append, hbefore, List.take_take, Nat.min_eq_left (by omega),
    List.drop_take, Nat.add_sub_cancel_left]

/-- What stands in the place of a checksum does not count for it: the checksum is what the sum would
be with blanks there. -/
theorem checksum_withField : checksum (withField header text) =
    sum (withField header (List.replicate checksumSize 0x20)) := by
  have hblanks : sum (List.replicate checksumSize 0x20) = checksumSize * 0x20 := by decide
  rw [checksum, checksumField_withField h ht, withField, withField, sum_append, sum_append,
    sum_append, sum_append, hblanks]
  omega

end WithField

theorem sum_checksumField_le (header : List UInt8) : sum (checksumField header) ≤ sum header := by
  have hbehind := sum_append ((header.drop checksumAt).take checksumSize)
    ((header.drop checksumAt).drop checksumSize)
  have hwhole := sum_append (header.take checksumAt) (header.drop checksumAt)
  rw [List.take_append_drop] at hbehind hwhole
  rw [checksumField]
  omega

variable {i : Nat} {b : UInt8}

theorem checksumField_set (hout : i < checksumAt ∨ checksumAt + checksumSize ≤ i) :
    checksumField (header.set i b) = checksumField header := by
  rw [checksumField, checksumField]
  rcases hout with hlt | hle
  · rw [List.drop_set_of_lt hlt]
  · rw [List.drop_set, if_neg (by omega), List.take_set_of_le (by omega)]

/-- A byte outside of the field counts for the checksum. -/
theorem checksum_set (hi : i < header.length)
    (hout : i < checksumAt ∨ checksumAt + checksumSize ≤ i) (hb : header[i] ≠ b) :
    checksum (header.set i b) ≠ checksum header := by
  have hsum := sum_set hi b
  have hfield := sum_checksumField_le header
  have hfield' := sum_checksumField_le (header.set i b)
  have hne : header[i].toNat ≠ b.toNat := fun he => hb (UInt8.toNat_inj.mp he)
  rw [checksumField_set hout] at hfield'
  rw [checksum, checksum, checksumField_set hout]
  omega

end Field

section Octal

/-- A number in octal digits, no fewer than six, and the marks that close it. -/
def checksumText (n : Nat) : List UInt8 :=
  (List.leftpad 6 '0' (Nat.toDigits 8 n)).map Char.toUInt8 ++ [0, 0x20]

theorem length_checksumText {n : Nat} (hn : n < 8 ^ 6) :
    (checksumText n).length = checksumSize := by
  have hdigits := (Nat.length_toDigits_le_iff (by decide : 1 < 8) (by decide : 0 < 6)).mpr hn
  rw [checksumText, List.length_append, List.length_map, List.length_leftpad,
    Nat.max_eq_left hdigits]
  rfl

/-- Zeros in front of digits. -/
theorem ofDigits_zeros (k : Nat) (digits : List UInt8) :
    ofDigits 8 (List.replicate k '0'.toUInt8 ++ digits) = ofDigits 8 digits := by
  induction k with
  | zero => rfl
  | succ k ih => exact ih

/-- Digits in front of a zero byte are read to their end. -/
theorem octal_append {digits : List UInt8} (hne : digits ≠ []) (hd : Numeral.IsDigits 8 digits)
    (rest : List UInt8) : octal? (digits ++ 0 :: rest) = some (ofDigits 8 digits) := by
  have hstop : Stops (fun c => (digit? 8 c).isSome) (0 :: rest) := stops_cons.mpr (by decide)
  have hrun := takeWhile_run hd hstop
  have hrest := dropWhile_run hd hstop
  obtain ⟨b, s, rfl⟩ := List.exists_cons_of_ne_nil hne
  have hfirst : isSpace b = false := by
    rcases isDigit_or_isLetter (hd b List.mem_cons_self) with h | h
    · exact not_isSpace_of_isDigit h
    · exact not_isSpace_of_isLetter h
  rw [List.cons_append] at hrun hrest ⊢
  have hskip : skipSpace (b :: (s ++ 0 :: rest)) = b :: (s ++ 0 :: rest) :=
    dropWhile_of_stops (stops_cons.mpr hfirst)
  simp only [octal?, hskip, hrun, hrest]
  rfl

theorem octal_checksumText (n : Nat) : octal? (checksumText n) = some n := by
  have hall := isDigits_toDigits (by decide) (by decide : 8 ≤ 16) n
  have hvalue := ofDigits_toDigits (by decide) (by decide : 8 ≤ 16) n
  have htext : checksumText n = (List.replicate (6 - (Nat.toDigits 8 n).length) '0'.toUInt8 ++
      (Nat.toDigits 8 n).map Char.toUInt8) ++ 0 :: [0x20] := by
    rw [checksumText, List.leftpad, List.map_append, List.map_replicate]
  have hzeros : Numeral.IsDigits 8 (List.replicate (6 - (Nat.toDigits 8 n).length) '0'.toUInt8) :=
    fun b hb => List.eq_of_mem_replicate hb ▸ by decide
  rw [htext, octal_append _ _ _, ofDigits_zeros, hvalue]
  · simp [Nat.toDigits_ne_nil]
  · exact List.forall_mem_append.mpr ⟨hzeros, hall⟩

end Octal

/-- Write a buffer's checksum into its first header: the sum of the header's bytes, with blanks
standing where the checksum goes. -/
def stamp (buffer : List UInt8) : List UInt8 :=
  withField buffer (checksumText
    (((withField buffer (List.replicate checksumSize 0x20)).take headerSize).map UInt8.toNat).sum)

section Stamp

variable {buffer : List UInt8}

theorem kind_of_length (h : headerSize ≤ buffer.length) :
    kind buffer =
      if octal? (checksumField (buffer.take headerSize)) =
          some (checksum (buffer.take headerSize)) then
        if ((buffer.take headerSize).drop magicAt).take gnuMagic.length = gnuMagic then .posix
        else .old
      else .none := by
  rw [kind, if_neg (Nat.not_lt.mpr h)]

/-- The largest sum of a header has six octal digits. -/
theorem sum_lt (h : buffer.length = headerSize) : sum buffer < 8 ^ 6 := by
  have hle := sum_le buffer
  rw [h] at hle
  exact Nat.lt_of_le_of_lt hle (by decide)

theorem kind_tail (h : headerSize ≤ buffer.length) (more : List UInt8) :
    kind (buffer.take headerSize ++ more) = kind buffer := by
  have hlength : (buffer.take headerSize).length = headerSize := List.length_take_of_le h
  have htake : (buffer.take headerSize ++ more).take headerSize = buffer.take headerSize :=
    List.take_left' hlength
  have hmore : headerSize ≤ (buffer.take headerSize ++ more).length := by
    rw [List.length_append, hlength]
    exact Nat.le_add_right _ _
  rw [kind_of_length hmore, kind_of_length h, htake]

theorem kind_ne_none_iff : kind buffer ≠ .none ↔ headerSize ≤ buffer.length ∧
    octal? (checksumField (buffer.take headerSize)) =
      some (checksum (buffer.take headerSize)) := by
  by_cases h : headerSize ≤ buffer.length
  · rw [kind_of_length h, and_iff_right h]
    split
    · rename_i hsum
      split <;> simp [hsum]
    · rename_i hsum
      simp [hsum]
  · rw [kind, if_pos (Nat.lt_of_not_le h)]
    simp [h]

/-- A header that keeps its own checksum does so no longer after a change elsewhere. -/
theorem kind_set {i : Nat} {b : UInt8} (h : kind buffer ≠ .none) (hi : i < headerSize)
    (hout : i < checksumAt ∨ checksumAt + checksumSize ≤ i) (hb : buffer[i]? ≠ some b) :
    kind (buffer.set i b) = .none := by
  obtain ⟨hlength, hsum⟩ := kind_ne_none_iff.mp h
  have hlt : i < (buffer.take headerSize).length := by
    rw [List.length_take_of_le hlength]
    exact hi
  have hne : (buffer.take headerSize)[i] ≠ b := by
    intro he
    apply hb
    rw [← he, ← List.getElem?_eq_getElem hlt, List.getElem?_take_of_lt hi]
  apply Classical.byContradiction
  intro hkind
  have hset := (kind_ne_none_iff.mp hkind).2
  rw [List.take_set, checksumField_set hout, hsum] at hset
  exact checksum_set hlt hout hne (Option.some.inj hset).symm

/-- The first header of a stamped buffer. -/
theorem exists_stamp (h : headerSize ≤ buffer.length) :
    ∃ n, stamp buffer = withField buffer (checksumText n) ∧
      (checksumText n).length = checksumSize ∧
      checksum (withField (buffer.take headerSize) (checksumText n)) = n := by
  have hheader : (buffer.take headerSize).length = headerSize := List.length_take_of_le h
  have hplace : checksumAt + checksumSize ≤ (buffer.take headerSize).length := by
    rw [hheader]
    decide
  have hblanks : (List.replicate checksumSize (0x20 : UInt8)).length = checksumSize :=
    List.length_replicate
  have htext := length_checksumText (sum_lt ((length_withField hplace hblanks).trans hheader))
  refine ⟨_, ?_, htext, checksum_withField hplace htext⟩
  rw [stamp, ← sum_eq, take_withField (Nat.le_trans (by decide) h) hblanks (by decide)]

theorem length_stamp (h : headerSize ≤ buffer.length) : (stamp buffer).length = buffer.length := by
  obtain ⟨n, hstamp, htext, _⟩ := exists_stamp h
  rw [hstamp, length_withField (Nat.le_trans (by decide) h) htext]

/-- A stamped header keeps its own checksum, whatever else it holds. -/
theorem kind_of_stamp (h : headerSize ≤ buffer.length) :
    kind (stamp buffer) =
      if (buffer.drop magicAt).take gnuMagic.length = gnuMagic then .posix else .old := by
  obtain ⟨n, hstamp, htext, hsum⟩ := exists_stamp h
  have hwhole : checksumAt + checksumSize ≤ buffer.length := Nat.le_trans (by decide) h
  have hplace : checksumAt + checksumSize ≤ (buffer.take headerSize).length := by
    rw [List.length_take_of_le h]
    decide
  have hlength : headerSize ≤ (stamp buffer).length := by
    rw [length_stamp h]
    exact h
  have hmagic : ((withField (buffer.take headerSize) (checksumText n)).drop magicAt).take
      gnuMagic.length = (buffer.drop magicAt).take gnuMagic.length := by
    rw [drop_withField hplace htext (by decide), List.drop_take, List.take_take]
    rfl
  rw [kind_of_length hlength, hstamp, take_withField hwhole htext (by decide),
    checksumField_withField hplace htext, octal_checksumText, hsum, if_pos rfl, hmagic]

/-- A stamped buffer is an archive, of the kind that its magic tells. A change of any one byte of
its header outside of the checksum is noticed; what stands behind the header is not looked at. -/
theorem kind_stamp (h : 512 ≤ buffer.length) :
    (stamp buffer).length = buffer.length ∧
    kind (stamp buffer) =
      (if (buffer.drop 257).take 8 = ascii "ustar  \x00" then .posix else .old) ∧
    (∀ i b, i < 512 → (i < 148 ∨ 156 ≤ i) → (stamp buffer)[i]? ≠ some b →
      kind ((stamp buffer).set i b) = .none) ∧
    ∀ (s more : List UInt8), 512 ≤ s.length → kind (s.take 512 ++ more) = kind s := by
  have hkind := kind_of_stamp h
  refine ⟨length_stamp h, hkind, fun i b hi hout hb => kind_set ?_ hi hout hb,
    fun s more hs => kind_tail hs more⟩
  rw [hkind]
  split <;> exact nofun

/-- An archive of one file without a name, and the start of this file. -/
def archive : List UInt8 :=
  List.replicate 257 0 ++ gnuMagic ++ List.replicate 300 0x2e

/-- The change is in the first byte, which is zero. -/
theorem kind_stamp_archive :
    512 ≤ archive.length ∧ (stamp archive)[0]? ≠ some 1 ∧ kind (stamp archive) = .posix ∧
      kind ((stamp archive).set 0 1) = .none ∧
      kind (archive.take 512 ++ [0xff]) = kind archive := by
  have hlength : 512 ≤ archive.length := by decide +kernel
  have hmagic : (archive.drop 257).take 8 = ascii "ustar  \x00" := by decide +kernel
  have hfirst : (stamp archive)[0]? ≠ some 1 := by decide +kernel
  obtain ⟨_, hkind, hset, htail⟩ := kind_stamp hlength
  rw [if_pos hmagic] at hkind
  exact ⟨hlength, hfirst, hkind, hset 0 1 (by decide) (Or.inl (by decide)) hfirst,
    htail archive [0xff] hlength⟩

end Stamp

end ContentType.Tar
