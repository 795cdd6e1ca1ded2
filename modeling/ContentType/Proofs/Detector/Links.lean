import ContentType.Detector.File

namespace ContentType

namespace Detector

/-- The path that a followed link leads to. -/
def next? (fs : FileSystem) (path : Path) : Option Path :=
  match survey fs path true with
  | .follow target => some target
  | .settled _ | .regular _ => none

/-- Where so many links lead, one after the other. -/
def hop? (fs : FileSystem) (path : Path) : Nat → Option Path
  | 0 => some path
  | k + 1 => (hop? fs path k).bind (next? fs)

section Hops

variable {fs : FileSystem} {path target : Path}

theorem next_eq_some_iff :
    next? fs path = some target ↔ survey fs path true = .follow target := by
  cases h : survey fs path true <;> simp [next?, h]

theorem hop_succ (fs : FileSystem) (path : Path) (k : Nat) :
    hop? fs path (k + 1) = (next? fs path).bind (fun target => hop? fs target k) := by
  induction k with
  | zero => simp [hop?]
  | succ k ih =>
    rw [hop?, ih, Option.bind_assoc]
    rfl

theorem land_of_settled {v : Verdict} (h : survey fs path true = .settled v) (hops : Nat) :
    land fs true hops path = .settled v := by
  rw [land_eq, h]

theorem land_of_regular {size : Nat} (h : survey fs path true = .regular size) (hops : Nat) :
    land fs true hops path = .content path := by
  rw [land_eq, h]

theorem land_last (h : survey fs path true = .follow target) :
    land fs true 0 path = .settled (.certain link) := by
  rw [land_eq, h]

theorem land_of_next (h : next? fs path = some target) (hops : Nat) :
    land fs true (hops + 1) path = land fs true hops target := by
  rw [land_eq, next_eq_some_iff.mp h]

/-- As long as there are links left to follow, following some first makes no difference. -/
theorem land_of_hop {k : Nat} {q : Path} (h : hop? fs path k = some q) (hops : Nat) :
    land fs true (hops + k) path = land fs true hops q := by
  induction k generalizing q hops with
  | zero =>
    obtain rfl := Option.some.inj h
    rfl
  | succ k ih =>
    obtain ⟨p, hp, hq⟩ := Option.bind_eq_some_iff.mp h
    rw [show hops + (k + 1) = hops + 1 + k by omega, ih hp, land_of_next hq]

/-- All paths before one that is led to are links. -/
theorem follow_of_hop {n k : Nat} {r : Path} (h : hop? fs path n = some r) (hk : k < n) :
    ∃ q target, hop? fs path k = some q ∧ survey fs q true = .follow target := by
  induction n generalizing r with
  | zero => exact absurd hk (Nat.not_lt_zero k)
  | succ n ih =>
    obtain ⟨p, hp, hnext⟩ := Option.bind_eq_some_iff.mp h
    rcases Nat.lt_succ_iff_lt_or_eq.mp hk with hlt | rfl
    · exact ih hp hlt
    · exact ⟨p, r, hp, next_eq_some_iff.mp hnext⟩

/-- Where links do not lead so far, there is one that is none. -/
theorem exists_end {n : Nat} (h : hop? fs path n = none) :
    ∃ k < n, ∃ q, hop? fs path k = some q ∧ next? fs q = none := by
  induction n with
  | zero => exact absurd h (Option.some_ne_none path)
  | succ n ih =>
    cases hq : hop? fs path n with
    | none =>
      obtain ⟨k, hk, hend⟩ := ih hq
      exact ⟨k, Nat.lt_succ_of_lt hk, hend⟩
    | some q =>
      rw [hop?, hq, Option.bind_some] at h
      exact ⟨n, Nat.lt_succ_self n, q, hq, h⟩

end Hops

/-- Look at a path and note it. -/
def noting (fs : FileSystem) (path : Path) : StateM (List Path) Survey := do
  modify (fun seen => seen ++ [path])
  return survey fs path true

section Notes

variable {fs : FileSystem} {path target : Path}

/-- One look, and what comes of it. -/
theorem run_landBy_noting (fs : FileSystem) (hops : Nat) (path : Path) (seen : List Path) :
    (landBy (noting fs) hops path).run seen =
      match survey fs path true, hops with
      | .settled v, _ => (.settled v, seen ++ [path])
      | .regular _, _ => (.content path, seen ++ [path])
      | .follow _, 0 => (.settled (.certain link), seen ++ [path])
      | .follow target, hops + 1 => (landBy (noting fs) hops target).run (seen ++ [path]) := by
  rw [landBy]
  simp only [noting, StateT.run_bind, StateT.run_modify, pure_bind]
  cases survey fs path true
  case follow => cases hops <;> rfl
  all_goals rfl

theorem landBy_noting_of_stop {hops : Nat} (h : next? fs path = none ∨ hops = 0)
    (seen : List Path) :
    (landBy (noting fs) hops path).run seen = (land fs true hops path, seen ++ [path]) := by
  rw [run_landBy_noting]
  cases hs : survey fs path true with
  | settled v => rw [land_of_settled hs]
  | regular size => rw [land_of_regular hs]
  | follow target =>
    rw [next_eq_some_iff.mpr hs] at h
    obtain rfl := h.resolve_left (Option.some_ne_none target)
    rw [land_last hs]

theorem landBy_noting_of_next (h : next? fs path = some target) (hops : Nat)
    (seen : List Path) :
    (landBy (noting fs) (hops + 1) path).run seen =
      (landBy (noting fs) hops target).run (seen ++ [path]) := by
  rw [run_landBy_noting, next_eq_some_iff.mp h]

/-- The paths that are looked at are those that the links lead to, as far as they are followed. -/
theorem landBy_noting (fs : FileSystem) (hops : Nat) (path : Path) (seen : List Path) :
    ∃ notes : List Path,
      (landBy (noting fs) hops path).run seen = (land fs true hops path, seen ++ notes) ∧
      notes.length ≤ hops + 1 ∧ ∀ k, notes[k]? = if k ≤ hops then hop? fs path k else none := by
  induction hops generalizing path seen with
  | zero =>
    refine ⟨[path], landBy_noting_of_stop (Or.inr rfl) seen, Nat.le_refl 1, fun k => ?_⟩
    cases k with
    | zero => rfl
    | succ k => simp
  | succ hops ih =>
    cases hnext : next? fs path with
    | none =>
      refine ⟨[path], landBy_noting_of_stop (Or.inl hnext) seen, by simp, fun k => ?_⟩
      cases k with
      | zero => rfl
      | succ k => simp [hop_succ, hnext]
    | some target =>
      obtain ⟨notes, hrun, hlength, hnotes⟩ := ih target (seen ++ [path])
      refine ⟨path :: notes, ?_, Nat.succ_le_succ hlength, fun k => ?_⟩
      · rw [landBy_noting_of_next hnext, hrun, land_of_next hnext, List.append_assoc]
        rfl
      · cases k with
        | zero => rfl
        | succ k => simp [hop_succ, hnext, hnotes]

end Notes

section Classify

variable {d : Detector} {fs : FileSystem} {path q : Path}

/-- Names make no difference to links. -/
theorem namedBy_link (path : Path) :
    (Verdict.certain link).namedBy path = ⟨"inode/link", 100⟩ := by
  have hlink : Verdict.certain link = ⟨"inode/link", 100⟩ := rfl
  rw [hlink, Verdict.namedBy]
  cases path.fileName? with
  | none => rfl
  | some name => simp [Verdict.named, Verdict.namedType]

theorem landing_of_hop (hf : d.config.followLinks = true) {k : Nat} (hk : k ≤ maxHops)
    (h : hop? fs path k = some q) : d.landing fs path = land fs true (maxHops - k) q := by
  rw [landing, hf, ← land_of_hop h, Nat.sub_add_cancel hk]

/-- A file reached through links is judged by the first path that is no link, with the name that was
asked for. Sixteen links are followed; where the path behind them is a link as well, the verdict is
that of a link. No more than seventeen paths are looked at, whatever the links are. -/
theorem classifyFile_follows (hf : d.config.followLinks = true) (fs : FileSystem) (path : Path) :
    (∀ k q, k ≤ 16 → hop? fs path k = some q →
      (∀ v, survey fs q true = .settled v → d.classifyFile fs path = v.namedBy path) ∧
      (∀ size, survey fs q true = .regular size →
        d.classifyFile fs path = (d.classifyContent fs q).namedBy path)) ∧
    ((∀ k ≤ 16, ∃ q target, hop? fs path k = some q ∧ survey fs q true = .follow target) →
      d.classifyFile fs path = ⟨"inode/link", 100⟩) ∧
    ((∃ k ≤ 16, ∃ q, hop? fs path k = some q ∧ ∀ target, survey fs q true ≠ .follow target) ∨
      ∀ k ≤ 16, ∃ q target, hop? fs path k = some q ∧ survey fs q true = .follow target) ∧
    ∃ looked : List Path,
      (landBy (noting fs) maxHops path).run [] = (d.landing fs path, looked) ∧
      looked.length ≤ 17 ∧ ∀ k, looked[k]? = if k ≤ 16 then hop? fs path k else none := by
  refine ⟨fun k q hk hq => ⟨fun v hv => ?_, fun size hsize => ?_⟩, fun hall => ?_, ?_, ?_⟩
  · rw [classifyFile, landing_of_hop hf hk hq, land_of_settled hv]
  · rw [classifyFile, landing_of_hop hf hk hq, land_of_regular hsize]
  · obtain ⟨q, target, hq, hfollow⟩ := hall 16 (Nat.le_refl 16)
    have hlast : land fs true (maxHops - 16) q = .settled (.certain link) := land_last hfollow
    rw [classifyFile, landing_of_hop hf (Nat.le_refl 16) hq, hlast]
    exact namedBy_link path
  · cases hlast : hop? fs path 17 with
    | none =>
      obtain ⟨k, hk, q, hq, hend⟩ := exists_end hlast
      refine Or.inl ⟨k, Nat.le_of_lt_succ hk, q, hq, fun target htarget => ?_⟩
      rw [next_eq_some_iff.mpr htarget] at hend
      cases hend
    | some r => exact Or.inr fun k hk => follow_of_hop hlast (Nat.lt_succ_of_le hk)
  · rw [landing, hf]
    exact landBy_noting fs maxHops path []

/-- A link that stands at the root. -/
def rootLink (name target : String) : Location × Node :=
  ([Byte.ascii name], .link target ⟨0, 0⟩)

/-- Seventeen links in a row, the last one to a file of declarations. Another link, with the name of
a header, leads to the third of them; one more, whose name is no text, leads to a directory that may
not be listed. -/
def linkedFile : FileSystem where
  root := .directory 4096 ⟨0, 0⟩
  entries :=
    [([Byte.ascii "r"], .file (Byte.ascii "struct a;\nextern int b;\n") ⟨0, 0⟩),
      ([Byte.ascii "s"], { Node.directory 4096 ⟨0, 0⟩ with opening := .error .denied }),
      ([[0xff]], .link "s" ⟨0, 0⟩), rootLink "a.h" "c", rootLink "a" "b", rootLink "b" "c",
      rootLink "c" "d", rootLink "d" "e", rootLink "e" "f", rootLink "f" "g", rootLink "g" "h",
      rootLink "h" "i", rootLink "i" "j", rootLink "j" "k", rootLink "k" "l", rootLink "l" "m",
      rootLink "m" "n", rootLink "n" "o", rootLink "o" "p", rootLink "p" "q", rootLink "q" "r"]
  working := []

def followingDetector : Detector :=
  ⟨.empty, { Config.default "/tmp" with followLinks := true }⟩

/-- The single steps in front of the fifteen links that both ways have in common, and where they
end. -/
theorem walk_linkedFile :
    next? linkedFile "a.h" = some (.ofText "c") ∧ next? linkedFile "a" = some (.ofText "b") ∧
      next? linkedFile "b" = some (.ofText "c") ∧ hop? linkedFile "c" 15 = some (.ofText "r") ∧
      survey linkedFile "r" true = .regular 24 ∧
      (followingDetector.classifyContent linkedFile "r").namedBy "a.h" = ⟨"text/x-chdr", 60⟩ ∧
      hop? linkedFile ⟨[0xff]⟩ 1 = some (.ofText "s") ∧
      survey linkedFile "s" true = .settled ⟨"inode/directory-locked", 100⟩ := by
  decide +kernel

/-- Sixteen links lead from the header to the file, which is taken for a header. Seventeen links
are too many. -/
theorem classifyFile_follows_chain :
    followingDetector.config.followLinks = true ∧
      hop? linkedFile "a.h" 16 = some (.ofText "r") ∧ survey linkedFile "r" true = .regular 24 ∧
      followingDetector.classifyFile linkedFile "a.h" = ⟨"text/x-chdr", 60⟩ ∧
      hop? linkedFile "a" 17 = some (.ofText "r") ∧
      followingDetector.classifyFile linkedFile "a" = ⟨"inode/link", 100⟩ ∧
      followingDetector.classifyFile linkedFile ⟨[0xff]⟩ = ⟨"inode/directory-locked", 100⟩ := by
  obtain ⟨hfromHeader, hfirst, hsecond, hcommon, hregular, hnamed, hlocked, hsurvey⟩ :=
    walk_linkedFile
  have hsixteen : hop? linkedFile "a.h" 16 = some (.ofText "r") := by
    rw [hop_succ, hfromHeader, Option.bind_some, hcommon]
  have hseventeen : hop? linkedFile "a" 17 = some (.ofText "r") := by
    rw [hop_succ, hfirst, Option.bind_some, hop_succ, hsecond, Option.bind_some, hcommon]
  obtain ⟨hjudged, -⟩ := classifyFile_follows (d := followingDetector) rfl linkedFile "a.h"
  obtain ⟨-, hgiven, -⟩ := classifyFile_follows (d := followingDetector) rfl linkedFile "a"
  obtain ⟨hsettled, -⟩ := classifyFile_follows (d := followingDetector) rfl linkedFile ⟨[0xff]⟩
  have hheader := (hjudged 16 "r" (Nat.le_refl 16) hsixteen).2 24 hregular
  have hlink := hgiven fun k hk => follow_of_hop hseventeen (Nat.lt_succ_of_le hk)
  have hdirectory := (hsettled 1 "s" (by decide) hlocked).1 _ hsurvey
  exact ⟨rfl, hsixteen, hregular, hheader.trans hnamed, hseventeen, hlink, hdirectory⟩

end Classify

end Detector

end ContentType
