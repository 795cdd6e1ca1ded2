import ContentType.Config.Basic
import ContentType.Proofs.Path

namespace ContentType

namespace Path

theorem same_iff {p q : Path} : p.same q = true ↔ p.components = q.components := by
  simp [same]

/-- The path of a name in a directory: joined, or with one more slash between the two. -/
def IsEntry (directory : Path) (name : List UInt8) (path : Path) : Prop :=
  path = directory.join ⟨name⟩ ∨ directory.bytes ≠ [] ∧ path = directory.entry name

theorem IsEntry.components_eq {directory path : Path} {name : List UInt8}
    (h : IsEntry directory name path) (hn : IsName name) :
    path.components = directory.components ++ [.name name] := by
  rcases h with rfl | ⟨hd, rfl⟩
  · exact components_join hn directory
  · rw [components_entry hd hn.unslashed, hn.made_eq]

end Path

namespace Config
open ContentType.Path

variable {c : Config}

/-- A path keeps its times when it is one of the time directories and one component more. -/
theorem restoresTimes_iff {path : Path} : c.restoresTimes path = true ↔
    ∃ directory ∈ c.timeDirs, ∃ last ≠ Component.root,
      components path = components directory ++ [last] := by
  rcases parent_cases path with ⟨hparent, hpath⟩ | ⟨above, last, hparent, hlast, hpath⟩
  · constructor
    · intro h
      simp [restoresTimes, hparent] at h
    · rintro ⟨directory, _, last, hlast, he⟩
      rcases hpath with hpath | hpath
      · simp [hpath] at he
      · rw [hpath, ← List.nil_append [Component.root]] at he
        exact absurd (List.append_inj' he rfl).2 (by simpa using hlast.symm)
  · have hany : c.restoresTimes path = true ↔
        ∃ directory ∈ c.timeDirs, components above = components directory := by
      simp [restoresTimes, hparent, same_iff]
    rw [hany]
    constructor
    · rintro ⟨directory, hd, he⟩
      exact ⟨directory, hd, last, hlast, by rw [hpath, he]⟩
    · rintro ⟨directory, hd, other, _, he⟩
      rw [hpath] at he
      exact ⟨directory, hd, (List.append_inj' he rfl).1⟩

/-- Which paths keep their times is a matter of components alone: those of a time directory and one
more. So every name in such a directory does, however the directory is spelled. A name in any other
directory, be it one in a time directory, does when that is itself a time directory. -/
theorem restores_entries (c : Config) :
    (∀ directory ∈ c.timeDirs, ∀ spelled, same spelled directory = true →
      ∀ name path, IsName name → IsEntry spelled name path → c.restoresTimes path = true) ∧
    (∀ inner name path, IsName name → IsEntry inner name path →
      (c.restoresTimes path = true ↔ ∃ other ∈ c.timeDirs, same other inner = true)) ∧
    ∀ path, c.restoresTimes path = true ↔
      ∃ directory ∈ c.timeDirs, ∃ last ≠ Component.root,
        components path = components directory ++ [last] := by
  refine ⟨fun directory hd spelled hs name path hn hpath => ?_,
    fun inner name path hn hpath => ?_, fun path => restoresTimes_iff⟩
  · have hcomponents := hpath.components_eq hn
    rw [same_iff.mp hs] at hcomponents
    exact restoresTimes_iff.mpr ⟨directory, hd, .name name, nofun, hcomponents⟩
  · rw [restoresTimes_iff, hpath.components_eq hn]
    constructor
    · rintro ⟨other, ho, last, _, he⟩
      exact ⟨other, ho, same_iff.mpr (List.append_inj' he rfl).1.symm⟩
    · rintro ⟨other, ho, he⟩
      exact ⟨other, ho, .name name, nofun, by rw [same_iff.mp he]⟩

/-- The second directory is in the first one, spelled in another way. -/
def nestedDirs : Config :=
  { Config.default "/tmp" with timeDirs := ["/srv//data/./", "/srv/data/cache/."] }

/-- The name of the file is no text. -/
theorem restores_entries_nested :
    ofText "/srv//data/./" ∈ nestedDirs.timeDirs ∧
      same "//srv/data" "/srv//data/./" = true ∧ IsName [0xff, 0x2e] ∧
      IsEntry "//srv/data" [0xff, 0x2e] (entry "//srv/data" [0xff, 0x2e]) ∧
      IsEntry "//srv/data/cache" [0xff, 0x2e] (entry "//srv/data/cache" [0xff, 0x2e]) ∧
      nestedDirs.restoresTimes (entry "//srv/data" [0xff, 0x2e]) = true ∧
      nestedDirs.restoresTimes (entry "//srv/data/cache" [0xff, 0x2e]) = true := by
  have hmem : ofText "/srv//data/./" ∈ nestedDirs.timeDirs := List.mem_cons_self
  have hother : ofText "/srv/data/cache/." ∈ nestedDirs.timeDirs := by simp [nestedDirs]
  obtain ⟨hsame, hinner⟩ : same "//srv/data" "/srv//data/./" = true ∧
      same "/srv/data/cache/." "//srv/data/cache" = true :=
    ⟨rfl, rfl⟩
  have hname : IsName [0xff, 0x2e] := ⟨by decide, by decide, by decide, by decide⟩
  have hdirect : IsEntry "//srv/data" [0xff, 0x2e] (entry "//srv/data" [0xff, 0x2e]) :=
    Or.inr ⟨by decide, rfl⟩
  have hdeeper : IsEntry "//srv/data/cache" [0xff, 0x2e]
      (entry "//srv/data/cache" [0xff, 0x2e]) :=
    Or.inr ⟨by decide, rfl⟩
  obtain ⟨hnames, hnested, _⟩ := restores_entries nestedDirs
  have hrestores := hnested _ _ _ hname hdeeper
  exact ⟨hmem, hsame, hname, hdirect, hdeeper, hnames _ hmem _ hsame _ _ hname hdirect,
    hrestores.mpr ⟨_, hother, hinner⟩⟩

end Config

end ContentType
