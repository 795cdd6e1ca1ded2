import ContentType.FileSystem.Basic

namespace ContentType

namespace LimitedReader

variable (r : LimitedReader) (size : Nat)

theorem bytes_read : (r.read size).1 = r.source.take (min size (r.limit - r.taken)) := by
  unfold read
  split
  · rename_i hle
    rw [Nat.sub_eq_zero_of_le hle, Nat.min_zero, List.take_zero]
  · rfl

theorem source_read : (r.read size).2.source = r.source.drop (min size (r.limit - r.taken)) := by
  unfold read
  split
  · rename_i hle
    rw [Nat.sub_eq_zero_of_le hle, Nat.min_zero, List.drop_zero]
  · rfl

theorem limit_read : (r.read size).2.limit = r.limit := by
  unfold read
  split <;> rfl

theorem taken_read : (r.read size).2.taken = r.taken + (r.read size).1.length := by
  unfold read
  split <;> rfl

/-- Nothing is left out between two reads, and nothing comes twice. -/
theorem take_read (n : Nat) (hn : min size (r.limit - r.taken) ≤ n) :
    r.source.take n =
      (r.read size).1 ++ (r.read size).2.source.take (n - (r.read size).1.length) := by
  rw [bytes_read, source_read, List.length_take]
  generalize min size (r.limit - r.taken) = k at hn
  by_cases hk : k ≤ r.source.length
  · rw [Nat.min_eq_left hk, ← List.take_add, Nat.add_sub_cancel' hn]
  · have hall : r.source.length ≤ k := Nat.le_of_not_le hk
    rw [List.drop_of_length_le hall, List.take_of_length_le hall, List.take_nil, List.append_nil,
      List.take_of_length_le (Nat.le_trans hall hn)]

theorem readToEnd_eq_take : r.readToEnd = r.source.take (r.limit - r.taken) := by
  fun_induction readToEnd r with
  | case1 r hnone =>
    have htake := bytes_read r chunk
    rw [hnone] at htake
    rcases List.take_eq_nil_iff.mp htake.symm with hzero | hsource
    · have hchunk : chunk ≠ 0 := by decide
      rw [show r.limit - r.taken = 0 by omega, List.take_zero]
    · rw [hsource, List.take_nil]
  | case2 r b bytes hsome ih =>
    rw [take_read r chunk _ (Nat.min_le_right _ _), ih, limit_read, taken_read, hsome,
      Nat.sub_add_eq]

theorem readToEnd_start (source : List UInt8) (limit : Nat) :
    (start source limit).readToEnd = source.take limit :=
  readToEnd_eq_take _

end LimitedReader

namespace OpenFile

variable {f : OpenFile} {offset : Nat}

/-- Past the end of a file there is nothing, and a window that crosses it is cut there; but there is
none when reading fails before it is full. -/
theorem readWindow_of_seekable (hs : f.seekable = true)
    (ho : (offset : Int) ≤ Int64.maxValue.toInt) (length : Nat) :
    f.readWindow offset length =
      match f.failure with
      | none => .ok ((f.bytes.drop offset).take length)
      | some e =>
        if f.bytes.length - offset < length then .error e
        else .ok ((f.bytes.drop offset).take length) := by
  have hshort : ((f.bytes.drop offset).take length).length < length ↔
      f.bytes.length - offset < length := by
    rw [List.length_take, List.length_drop]
    omega
  unfold readWindow
  rw [if_neg (by simp [hs]), if_neg (Int.not_lt.mpr ho), LimitedReader.readToEnd_start]
  cases f.failure <;> simp only [hshort]

theorem readWindow_of_clear (hs : f.seekable = true) (hf : f.failure = none)
    (ho : (offset : Int) ≤ Int64.maxValue.toInt) (length : Nat) :
    f.readWindow offset length = .ok ((f.bytes.drop offset).take length) := by
  rw [readWindow_of_seekable hs ho, hf]

end OpenFile

/-- A regular file with this content, which can be read from any place. -/
structure Node.Holds (node : Node) (content : List UInt8) : Prop where
  kind : node.kind = .file
  opening : node.opening = .ok ⟨content, none, true⟩
  /-- It does not report to be empty when something is in it. -/
  size_ne : content ≠ [] → node.size ≠ 0

theorem Node.holds_file (content : List UInt8) (times : Times) :
    (file content times).Holds content :=
  ⟨rfl, rfl, fun h hlength => h (List.length_eq_zero_iff.mp hlength)⟩

namespace FileSystem

variable {fs : FileSystem} {path : Path} {node : Node}

section Follow

variable {place here : Location} {pieces : List (List UInt8)}
  {jump jump' : Location → Except FileError Path → List (List UInt8) →
    Except FileError (Location × Node)}

/-- A step to a name goes by what stands there. -/
theorem walkToLink_name {follow : Bool} {piece : List UInt8} {rest : List (List UInt8)} {n : Node}
    (hsome : piece ≠ []) (hentered : ¬ (fs.node? here).any (fun n => !n.isSearchable) = true)
    (hhere : piece ≠ [Path.dot]) (hup : piece ≠ [Path.dot, Path.dot])
    (hlong : ¬ maxName < piece.length) (hnode : fs.node? (here ++ [piece]) = some n) :
    fs.walkToLink follow jump here (piece :: rest) =
      match n.kind with
      | .directory _ => fs.walkToLink follow jump (here ++ [piece]) rest
      | .link target =>
        if rest = [] ∧ follow = false then .ok (here ++ [piece], n) else jump here target rest
      | _ => if rest = [] then .ok (here ++ [piece], n) else .error .notDirectory := by
  rw [walkToLink, if_neg hsome, if_neg hentered, if_neg hhere, if_neg hup, if_neg hlong]
  cases hkind : n.kind <;> simp only [hnode, hkind]

variable (hn : ∀ target, node.kind ≠ .link target)

include hn

theorem walkToLink_follow
    (hjump : ∀ here target rest, jump here target rest = .ok (place, node) →
      jump' here target rest = .ok (place, node))
    (h : fs.walkToLink false jump here pieces = .ok (place, node)) :
    fs.walkToLink true jump' here pieces = .ok (place, node) := by
  fun_induction fs.walkToLink false jump here pieces with
  | case1 here n hnode => simpa only [walkToLink, hnode] using h
  | case3 here rest ih =>
    rw [walkToLink, if_pos rfl]
    exact ih h
  | case5 here rest hentered hsome ih =>
    rw [walkToLink, if_neg hsome, if_neg hentered, if_pos rfl]
    exact ih h
  | case6 here rest hentered hsome hhere ih =>
    rw [walkToLink, if_neg hsome, if_neg hentered, if_neg hhere, if_pos rfl]
    exact ih h
  | case9 here piece rest hsome hentered hhere hup hlong n hnode searchable hkind ih =>
    rw [walkToLink_name hsome hentered hhere hup hlong hnode, hkind]
    exact ih h
  | case10 here piece rest _ _ _ _ _ n _ target hkind =>
    -- The path ends at a link, which is not followed.
    obtain rfl : n = node := congrArg Prod.snd (Except.ok.inj h)
    exact absurd hkind (hn target)
  | case11 here piece rest hsome hentered hhere hup hlong n hnode target hkind =>
    have hfollow : ¬ (rest = [] ∧ true = false) := fun hx => Bool.noConfusion hx.2
    rw [walkToLink_name hsome hentered hhere hup hlong hnode, hkind]
    exact (if_neg hfollow).trans (hjump here target rest h)
  | case12 here piece hsome hentered hhere hup hlong n hnode hdirectory hlink =>
    rw [walkToLink_name hsome hentered hhere hup hlong hnode]
    cases hkind : n.kind with
    | directory searchable => exact absurd hkind (hdirectory searchable)
    | link target => exact absurd hkind (hlink target)
    | file | pipe | socket | charDevice | blockDevice => exact h
  | case2 | case4 | case7 | case8 | case13 => cases h

/-- Whether a link at the end of a path is followed makes no difference when there is none. -/
theorem walk_follow {links : Nat}
    (h : fs.walk false links here pieces = .ok (place, node)) :
    fs.walk true links here pieces = .ok (place, node) := by
  induction links generalizing here pieces with
  | zero => exact walkToLink_follow hn (fun _ _ _ hfailed => by cases hfailed) h
  | succ links ih =>
    refine walkToLink_follow hn (fun here target rest hfound => ?_) h
    cases target with
    | error e => cases hfound
    | ok target =>
      dsimp only at hfound ⊢
      split at hfound
      · cases hfound
      · rename_i hsome
        rw [if_neg hsome]
        exact ih hfound

end Follow

theorem resolve_follow {place : Location} (h : fs.resolve false path = .ok (place, node))
    (hn : ∀ target, node.kind ≠ .link target) : fs.resolve true path = .ok (place, node) := by
  unfold resolve at h ⊢
  repeat' split at h
  · cases h
  · cases h
  · cases h
  · rename_i hzero hempty hlong
    rw [if_neg hzero, if_neg hempty, if_neg hlong]
    exact walk_follow hn h

/-- A path that names no link opens what it names. -/
theorem openFile_of_inspect (h : fs.inspect path = .ok node)
    (hn : ∀ target, node.kind ≠ .link target) :
    fs.openFile path = node.opening.map (fun stream => ⟨stream, node.size⟩) := by
  unfold inspect at h
  cases hr : fs.resolve false path with
  | error e =>
    rw [hr] at h
    cases h
  | ok found =>
    obtain ⟨place, found⟩ := found
    rw [hr] at h
    obtain rfl : found = node := Except.ok.inj h
    rw [openFile, resolve_follow hr hn]

theorem openFile_of_holds {content : List UInt8} (h : fs.inspect path = .ok node)
    (hnode : node.Holds content) : fs.openFile path = .ok ⟨⟨content, none, true⟩, node.size⟩ := by
  rw [openFile_of_inspect h (by simp [hnode.kind]), hnode.opening]
  rfl

end FileSystem

end ContentType
