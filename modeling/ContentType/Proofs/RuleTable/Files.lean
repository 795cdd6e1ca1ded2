import ContentType.Detector.Basic
import ContentType.Proofs.FileSystem.Reading
import ContentType.Proofs.RuleTable.Loading

namespace ContentType

namespace FileSystem

/-- The content of a rule file that can be opened, reports to be within the limit and can be read up
to it. Where there is more to read than is reported, it is what the limit lets through. -/
def ruleContent? (fs : FileSystem) (limit : Nat) (path : Path) : Option (List UInt8) :=
  match fs.openFile path with
  | .error _ => none
  | .ok f =>
    if f.size ≤ limit ∧ f.seekable = true ∧ (f.failure = none ∨ limit ≤ f.bytes.length) then
      some (f.bytes.take limit)
    else none

variable {fs : FileSystem} {path : Path} {f : OpenFile} {limit : Nat}

/-- A file within the limit is read as far as the limit, or is not read at all. -/
theorem readAll_eq (hsize : f.size ≤ limit) :
    (f.readAll limit).toOption =
      if f.seekable = true ∧ (f.failure = none ∨ limit ≤ f.bytes.length) then
        some (f.bytes.take limit)
      else none := by
  rw [OpenFile.readAll, if_neg (Nat.not_lt.mpr hsize)]
  by_cases hs : f.seekable = true
  · rw [OpenFile.readWindow_of_seekable hs (by decide), List.drop_zero, Nat.sub_zero]
    cases hf : f.failure with
    | none => simp [hs, Except.toOption]
    | some e =>
      by_cases hlong : limit ≤ f.bytes.length
      · simp [hs, hlong, Nat.not_lt.mpr hlong, Except.toOption]
      · simp [hlong, Nat.lt_of_not_le hlong, Except.toOption]
  · rw [OpenFile.readWindow, if_pos (by simpa using hs), if_neg fun h => hs h.1]
    rfl

theorem ruleContent_eq (fs : FileSystem) (limit : Nat) (path : Path) :
    fs.ruleContent? limit path = (fs.ruleSource path limit).toOption := by
  unfold ruleContent? ruleSource
  cases fs.openFile path with
  | error e => rfl
  | ok f =>
    dsimp only
    by_cases hsize : f.size ≤ limit
    · have hread := readAll_eq hsize
      simp only [hsize, true_and, if_neg (Nat.not_lt.mpr hsize)]
      rw [← hread]
      cases f.readAll limit <;> rfl
    · rw [if_pos (Nat.lt_of_not_le hsize), if_neg fun h => hsize h.1]
      rfl

/-- A file that reports how long it is loads as a whole, or does not load at all. -/
theorem ruleContent_of_size (h : fs.openFile path = .ok f) (hs : f.seekable = true)
    (hf : f.failure = none) (hsize : f.size = f.bytes.length) :
    fs.ruleContent? limit path = if f.bytes.length ≤ limit then some f.bytes else none := by
  rw [ruleContent?, h]
  dsimp only
  rw [hs, hf, hsize]
  by_cases hle : f.bytes.length ≤ limit
  · simp [hle, List.take_of_length_le hle]
  · simp [hle]

end FileSystem

namespace RuleTable

variable {fs : FileSystem} {path : Path} {limit : Nat}

/-- A rule file that does not load leaves the table as it is, and the content of one that does is
merged. -/
theorem mergeFile_cases (t : RuleTable) (fs : FileSystem) (path : Path) (limit : Nat) :
    (∃ e, fs.ruleContent? limit path = none ∧ t.mergeFile fs path limit = (t, .error e)) ∨
    (∃ source, fs.ruleContent? limit path = some source ∧
      t.mergeFile fs path limit = ((t.merge source).1, .ok (t.merge source).2)) := by
  unfold mergeFile
  rw [FileSystem.ruleContent_eq]
  cases fs.ruleSource path limit with
  | error e => exact Or.inl ⟨e, rfl, rfl⟩
  | ok source => exact Or.inr ⟨source, rfl, rfl⟩

theorem mergeAll_append (t : RuleTable) (sources more : List (List UInt8)) :
    t.mergeAll (sources ++ more) = (t.mergeAll sources).mergeAll more :=
  List.foldl_append

/-- Merging only adds rules behind those that are there. -/
theorem rules_mergeAll (t : RuleTable) (sources : List (List UInt8)) :
    t.rules <+: (t.mergeAll sources).rules := by
  induction sources generalizing t with
  | nil => exact List.prefix_rfl
  | cons source sources ih =>
    have hfirst : t.rules <+: (t.merge source).1.rules := List.prefix_append _ _
    exact hfirst.trans (ih _)

theorem mergeFiles_eq (t : RuleTable) (fs : FileSystem) (paths : List Path) (limit : Nat) :
    t.mergeFiles fs paths limit = t.mergeAll (paths.filterMap (fs.ruleContent? limit)) := by
  induction paths generalizing t with
  | nil => rfl
  | cons path paths ih =>
    have hstep : t.mergeFiles fs (path :: paths) limit =
        (t.mergeFile fs path limit).1.mergeFiles fs paths limit := rfl
    rw [hstep, ih]
    rcases t.mergeFile_cases fs path limit with ⟨e, h, he⟩ | ⟨source, h, hmerge⟩
    · rw [he, List.filterMap_cons_none h]
    · rw [hmerge, List.filterMap_cons_some h]
      rfl

end RuleTable

namespace Detector

/-- The contents of the configured rule files that load, in the order of the list. -/
def contents (fs : FileSystem) (config : Config) (paths : List Path) : List (List UInt8) :=
  paths.filterMap (fs.ruleContent? config.limits.ruleFile.toNat)

theorem table_make (fs : FileSystem) (t : RuleTable) (config : Config) :
    (make fs t config).table = t.mergeAll (contents fs config config.ruleFiles) :=
  t.mergeFiles_eq fs config.ruleFiles _

/-- A rule file that does not load leaves the table as it is. So a detector has the rules of its
first table and of the contents of those files that load, merged in order; and of each of these it
has the rules of all accepted lines, next to what stood there before the file, whatever lines were
rejected. A file that can be read and reports how long it is loads if it is within the limit, and
then as a whole. -/
theorem make_merges_contents (fs : FileSystem) (t : RuleTable) :
    (∀ path limit,
      (∀ e, (t.mergeFile fs path limit).2 = .error e →
        (t.mergeFile fs path limit).1 = t ∧ fs.ruleContent? limit path = none) ∧
      ∀ report, (t.mergeFile fs path limit).2 = .ok report →
        ∃ source, fs.ruleContent? limit path = some source ∧
          t.merge source = ((t.mergeFile fs path limit).1, report)) ∧
    (∀ path limit f, fs.openFile path = .ok f → f.seekable = true → f.failure = none →
      f.size = f.bytes.length →
        fs.ruleContent? limit path = if f.bytes.length ≤ limit then some f.bytes else none) ∧
    ∀ config : Config,
      (make fs t config).table = t.mergeAll (contents fs config config.ruleFiles) ∧
      ∀ before path after source, config.ruleFiles = before ++ path :: after →
        fs.ruleContent? config.limits.ruleFile.toNat path = some source →
          (t.mergeAll (contents fs config before)).rules ++
              ((t.mergeAll (contents fs config before)).outcomes source).filterMap
                LineOutcome.rule? <+:
            (make fs t config).table.rules := by
  refine ⟨fun path limit => ⟨fun e he => ?_, fun report hreport => ?_⟩,
    fun path limit f => FileSystem.ruleContent_of_size, fun config =>
    ⟨table_make fs t config, fun before path after source hpaths hs => ?_⟩⟩
  · rcases t.mergeFile_cases fs path limit with ⟨cause, h, hcause⟩ | ⟨source, h, hmerge⟩
    · rw [hcause]
      exact ⟨rfl, h⟩
    · rw [hmerge] at he
      cases he
  · rcases t.mergeFile_cases fs path limit with ⟨cause, h, hcause⟩ | ⟨source, h, hmerge⟩
    · rw [hcause] at hreport
      cases hreport
    · rw [hmerge] at hreport ⊢
      exact ⟨source, h, Prod.ext rfl (Except.ok.inj hreport)⟩
  · have hsplit : contents fs config config.ruleFiles =
        contents fs config before ++ source :: contents fs config after := by
      rw [hpaths, contents, List.filterMap_append, List.filterMap_cons_some hs]
      rfl
    rw [table_make, hsplit, RuleTable.mergeAll_append, ← RuleTable.rules_merge]
    exact RuleTable.rules_mergeAll _ (contents fs config after)

/-- The second line of the first file is rejected; the other file goes on with the tree of its first
line. -/
def ruleFiles : FileSystem where
  root := .directory 4096 ⟨0, 0⟩
  entries :=
    [([Byte.ascii "a"], .file (Byte.ascii "0 string AB text/x-ab\n0 bogus\n") ⟨0, 0⟩),
      ([Byte.ascii "b"], .file (Byte.ascii ">2 byte 0x58 text/x-abx\n") ⟨0, 0⟩),
      ([Byte.ascii "d"], .directory 4096 ⟨0, 0⟩), ([Byte.ascii "p"], .pipe [] ⟨0, 0⟩)]
  working := []

/-- No file has the first name, the third one is that of a directory and the fourth one that of a
pipe. -/
def ruleConfig : Config :=
  { Config.default "/tmp" with limits := ⟨4000, 4096⟩, ruleFiles := ["m", "a", "d", "p", "b"] }

theorem make_merges_contents_between :
    (∃ e, (RuleTable.empty.mergeFile ruleFiles "d" 4096).2 = .error e) ∧
      (RuleTable.empty.mergeFile ruleFiles "d" 4096).1 = RuleTable.empty ∧
      (make ruleFiles .empty ruleConfig).table =
        RuleTable.empty.mergeAll [Byte.ascii "0 string AB text/x-ab\n0 bogus\n",
          Byte.ascii ">2 byte 0x58 text/x-abx\n"] ∧
      (RuleTable.empty.merge (Byte.ascii "0 string AB text/x-ab\n0 bogus\n")).2.errors = 1 ∧
      (RuleTable.empty.merge (Byte.ascii "0 string AB text/x-ab\n0 bogus\n")).1.rules <+:
        (make ruleFiles .empty ruleConfig).table.rules := by
  obtain ⟨hmissing, hdirectory, hpipe, hfirst, hsecond⟩ :
      ruleFiles.ruleContent? 4096 "m" = none ∧ ruleFiles.ruleContent? 4096 "d" = none ∧
        ruleFiles.ruleContent? 4096 "p" = none ∧
        ruleFiles.ruleContent? 4096 "a" =
          some (Byte.ascii "0 string AB text/x-ab\n0 bogus\n") ∧
        ruleFiles.ruleContent? 4096 "b" = some (Byte.ascii ">2 byte 0x58 text/x-abx\n") :=
    ⟨rfl, rfl, rfl, rfl, rfl⟩
  obtain ⟨e, hfailed⟩ : ∃ e, (RuleTable.empty.mergeFile ruleFiles "d" 4096).2 = .error e := by
    rcases RuleTable.empty.mergeFile_cases ruleFiles "d" 4096 with ⟨e, _, he⟩ | ⟨source, hs, _⟩
    · exact ⟨e, by rw [he]⟩
    · exact nomatch hdirectory.symm.trans hs
  have hbefore : contents ruleFiles ruleConfig ["m"] = [] := by
    simp [contents, ruleConfig, hmissing]
  have hcontents : contents ruleFiles ruleConfig ruleConfig.ruleFiles =
      [Byte.ascii "0 string AB text/x-ab\n0 bogus\n", Byte.ascii ">2 byte 0x58 text/x-abx\n"] := by
    simp [contents, ruleConfig, hmissing, hfirst, hdirectory, hpipe, hsecond]
  obtain ⟨hfile, -, hmake⟩ := make_merges_contents ruleFiles .empty
  obtain ⟨htable, hrules⟩ := hmake ruleConfig
  have hadded := hrules ["m"] "a" ["d", "p", "b"] _ rfl hfirst
  rw [hbefore] at hadded
  rw [hcontents] at htable
  exact ⟨⟨e, hfailed⟩, ((hfile "d" 4096).1 e hfailed).1, htable, by decide +kernel, hadded⟩

end Detector

end ContentType
