import ContentType.Proofs.RuleTable.Accounting
import ContentType.Proofs.RuleTable.Forest
import ContentType.Proofs.RuleTable.Levels

namespace ContentType

namespace Progress

/-- The progress after reading lines. -/
def after : Progress → Nat → List (List UInt8) → Progress
  | p, _, [] => p
  | p, number, line :: rest => (p.step number line).2.after (number + 1) rest

theorem getElem_run (p : Progress) (number : Nat) (lines : List (List UInt8)) (i : Nat) :
    (p.run number lines)[i]? =
      lines[i]?.map (fun line => ((p.after number (lines.take i)).step (number + i) line).1) := by
  induction lines generalizing p number i with
  | nil => rfl
  | cons line rest ih =>
    cases i with
    | zero => rfl
    | succ i =>
      rw [run_cons, List.getElem?_cons_succ, ih, List.getElem?_cons_succ, List.take_succ_cons]
      simp only [after, Nat.add_assoc, Nat.add_comm 1]

theorem after_take_succ {p : Progress} {number i : Nat} {lines : List (List UInt8)}
    {line : List UInt8} (h : lines[i]? = some line) :
    p.after number (lines.take (i + 1)) =
      ((p.after number (lines.take i)).step (number + i) line).2 := by
  induction lines generalizing p number i with
  | nil => cases h
  | cons first rest ih =>
    cases i with
    | zero =>
      obtain rfl : first = line := Option.some.inj h
      rfl
    | succ i =>
      rw [List.getElem?_cons_succ] at h
      simp only [List.take_succ_cons, after]
      rw [ih h]
      simp only [Nat.add_assoc, Nat.add_comm 1]

theorem admits_zero (p : Progress) : p.Admits 0 :=
  ⟨fun _ _ => UInt16.zero_le, fun _ => rfl, fun _ _ => UInt16.zero_le⟩

/-- A rule admits its continuations, its siblings and those of its ancestors. -/
theorem admits_added {level d : UInt16} : Admits ⟨some level, none⟩ d ↔ d ≤ level + 1 := by
  constructor
  · exact fun h => h.next level rfl
  · intro h
    refine ⟨fun _ hn => (nomatch hn), fun hn => (nomatch hn), fun n hn => ?_⟩
    obtain rfl := Option.some.inj hn
    exact h

/-- A rejected line takes away what is deeper than itself, and nothing else. -/
theorem admits_drop {p : Progress} {level d : UInt16} :
    (p.drop level).Admits d ↔ d ≤ level ∧ p.Admits d := by
  by_cases hlow : ∀ n, p.dropped = some n → level ≤ n
  · rw [drop_below hlow]
    constructor
    · intro h
      have hle : d ≤ level := h.kept level rfl
      exact ⟨hle, fun n hn => UInt16.le_trans hle (hlow n hn), h.first, h.next⟩
    · intro hx
      obtain ⟨hle, h⟩ := hx
      refine ⟨fun n hn => ?_, h.first, h.next⟩
      obtain rfl : level = n := Option.some.inj hn
      exact hle
  · obtain ⟨n, hn⟩ := Classical.not_forall.mp hlow
    obtain ⟨hn, hlt⟩ := Classical.not_imp.mp hn
    have hlt : n < level := UInt16.not_le.mp hlt
    rw [drop_above hn hlt]
    exact ⟨fun h => ⟨UInt16.le_trans (h.kept n hn) (UInt16.le_of_lt hlt), h⟩, fun h => h.2⟩

end Progress

/-- Something at depth `d` fits behind the first `n` positions: it is at the top, or the nearest
shallower position was taken and is one level up. -/
def Fits (depth : Nat → Option Nat) (taken : Nat → Prop) (n d : Nat) : Prop :=
  d = 0 ∨ ∃ j, j < n ∧ taken j ∧ (∃ m, depth j = some m ∧ m + 1 = d) ∧
    ∀ k, j < k → k < n → ∀ m, depth k = some m → d ≤ m

section Fits

variable {depth : Nat → Option Nat} {taken : Nat → Prop} {n d e : Nat}

theorem fits_succ_of_none (hn : depth n = none) :
    Fits depth taken (n + 1) d ↔ Fits depth taken n d := by
  refine or_congr_right ⟨?_, ?_⟩
  · intro hx
    obtain ⟨j, hj, ht, ⟨m, hm, hd⟩, hnear⟩ := hx
    have hne : j ≠ n := fun he => by rw [he, hn] at hm; cases hm
    exact ⟨j, by omega, ht, ⟨m, hm, hd⟩, fun k hk hk' => hnear k hk (by omega)⟩
  · intro hx
    obtain ⟨j, hj, ht, hm, hnear⟩ := hx
    refine ⟨j, by omega, ht, hm, fun k hk hk' m' hm' => ?_⟩
    have hne : k ≠ n := fun he => by rw [he, hn] at hm'; cases hm'
    exact hnear k hk (by omega) m' hm'

/-- A further position takes its own continuations when it is taken itself; it hides what lies
before it from all that is deeper. -/
theorem fits_succ_of_some (hn : depth n = some e) :
    Fits depth taken (n + 1) d ↔ (d = e + 1 ∧ taken n) ∨ (d ≤ e ∧ Fits depth taken n d) := by
  constructor
  · intro hx
    rcases hx with rfl | ⟨j, hj, ht, ⟨m, hm, hd⟩, hnear⟩
    · exact Or.inr ⟨Nat.zero_le e, Or.inl rfl⟩
    · rcases Nat.lt_or_eq_of_le (Nat.le_of_lt_succ hj) with hlt | rfl
      · refine Or.inr ⟨hnear n hlt (Nat.lt_succ_self n) e hn, Or.inr ?_⟩
        exact ⟨j, hlt, ht, ⟨m, hm, hd⟩, fun k hk hk' => hnear k hk (by omega)⟩
      · obtain rfl := Option.some.inj (hm.symm.trans hn)
        exact Or.inl ⟨hd.symm, ht⟩
  · intro hx
    rcases hx with ⟨rfl, ht⟩ | ⟨hle, rfl | ⟨j, hj, ht, hm, hnear⟩⟩
    · exact Or.inr ⟨n, Nat.lt_succ_self n, ht, ⟨e, hn, rfl⟩, fun k hk hk' => by omega⟩
    · exact Or.inl rfl
    · refine Or.inr ⟨j, by omega, ht, hm, fun k hk hk' m' hm' => ?_⟩
      rcases Nat.lt_or_eq_of_le (Nat.le_of_lt_succ hk') with hlt | rfl
      · exact hnear k hk hlt m' hm'
      · obtain rfl := Option.some.inj (hn.symm.trans hm')
        exact hle

theorem fits_iff_nearest (hn : depth n = some d) :
    Fits depth taken n d ↔
      d = 0 ∨ ∃ j m, Nearest depth j n ∧ taken j ∧ depth j = some m ∧ m + 1 = d := by
  refine or_congr_right ⟨?_, ?_⟩
  · intro hx
    obtain ⟨j, hj, ht, ⟨m, hm, hd⟩, hnear⟩ := hx
    refine ⟨j, m, ⟨hj, ⟨m, d, hm, hn, by omega⟩, fun k hk hk' m' d' hm' hd' => ?_⟩, ht, hm, hd⟩
    obtain rfl := Option.some.inj (hn.symm.trans hd')
    exact hnear k hk hk' m' hm'
  · intro hx
    obtain ⟨j, m, hj, ht, hm, hd⟩ := hx
    exact ⟨j, hj.earlier, ht, ⟨m, hm, hd⟩, fun k hk hk' m' hm' => hj.nearest k hk hk' m' d hm' hn⟩

end Fits

namespace Progress

section Steps

variable {depth : Nat → Option Nat} {taken : Nat → Prop} {n : Nat} {p : Progress}

theorem added_fits (h : ∀ d : UInt16, p.Admits d ↔ Fits depth taken n d.toNat) {level : UInt16}
    (hl : level < 65535) (hn : depth n = some level.toNat) (ht : taken n) (ha : p.Admits level)
    (d : UInt16) : Admits ⟨some level, none⟩ d ↔ Fits depth taken (n + 1) d.toNat := by
  rw [admits_added, fits_succ_of_some hn, UInt16.le_iff_toNat_le, toNat_succ_of_lt hl]
  constructor
  · intro hle
    rcases Nat.lt_or_eq_of_le hle with hlt | he
    · have hle : d ≤ level := UInt16.le_iff_toNat_le.mpr (Nat.le_of_lt_succ hlt)
      exact Or.inr ⟨Nat.le_of_lt_succ hlt, (h d).mp (ha.mono hle)⟩
    · exact Or.inl ⟨he, ht⟩
  · intro hx
    rcases hx with ⟨he, _⟩ | ⟨hle, _⟩ <;> omega

theorem rejected_fits (h : ∀ d : UInt16, p.Admits d ↔ Fits depth taken n d.toNat) {level : UInt16}
    (hn : depth n = some level.toNat) (ht : ¬ taken n) (d : UInt16) :
    (p.drop level).Admits d ↔ Fits depth taken (n + 1) d.toNat := by
  rw [admits_drop, fits_succ_of_some hn, UInt16.le_iff_toNat_le, h d]
  exact ⟨fun hf => Or.inr hf, fun hf => hf.resolve_left fun hf => ht hf.2⟩

end Steps

def start : Progress := ⟨none, none⟩

theorem start_fits (depth : Nat → Option Nat) (taken : Nat → Prop) (d : UInt16) :
    start.Admits d ↔ Fits depth taken 0 d.toNat := by
  constructor
  · intro h
    exact Or.inl (congrArg UInt16.toNat (h.first rfl))
  · intro hx
    rcases hx with hz | ⟨j, hj, _⟩
    · obtain rfl : d = 0 := UInt16.toNat_inj.mp hz
      exact admits_zero start
    · omega

end Progress

/-- Depths of the significant lines of a text. -/
def lineDepth? (lines : List (List UInt8)) (i : Nat) : Option Nat :=
  lines[i]?.bind Line.marks?

/-- The line at an index becomes a rule. -/
def Adds (lines : List (List UInt8)) (i : Nat) : Prop :=
  ∃ r, (Progress.start.run 1 lines)[i]? = some (.added r)

section Reading

variable {lines : List (List UInt8)}

theorem lineDepth_of_marks {i : Nat} {line : List UInt8} (h : lines[i]? = some line) :
    lineDepth? lines i = Line.marks? line := by
  simp [lineDepth?, h]

/-- With few enough marks, the depth of a readable line is the level of its rule. -/
theorem lineDepth_of_rule (hd : ∀ line ∈ lines, ∀ m ∈ Line.marks? line, m < 65535) {i : Nat}
    {line : List UInt8} {r : Rule} (h : lines[i]? = some line)
    (hr : Line.read line = .ok (some r)) :
    lineDepth? lines i = some r.level.toNat ∧ r.level.toNat = Line.marks line ∧
      r.level < 65535 := by
  have hmarks := Line.marks_of_rule hr
  have hlt := hd line (List.mem_of_getElem? h) _ hmarks
  have hlevel := Line.toNat_level_read hr hlt
  refine ⟨by rw [lineDepth_of_marks h, hmarks, hlevel], hlevel, ?_⟩
  exact UInt16.lt_iff_toNat_lt.mpr (hlevel ▸ hlt)

theorem lineDepth_of_fault (hd : ∀ line ∈ lines, ∀ m ∈ Line.marks? line, m < 65535) {i : Nat}
    {line : List UInt8} {fault : Fault} (h : lines[i]? = some line)
    (hr : Line.read line = .error fault) :
    lineDepth? lines i = some (Line.depth line).toNat := by
  have hmarks := Line.marks_of_fault hr
  have hlt := hd line (List.mem_of_getElem? h) _ hmarks
  rw [lineDepth_of_marks h, hmarks, Line.toNat_depth hlt]

theorem adds_iff {i : Nat} {line : List UInt8} (h : lines[i]? = some line) :
    Adds lines i ↔
      ∃ r, ((Progress.start.after 1 (lines.take i)).step (1 + i) line).1 = .added r := by
  simp [Adds, Progress.getElem_run, h]

/-- The invariant of reading: at every depth, what the running state admits is what fits behind the
lines read. -/
theorem admits_after_iff (hd : ∀ line ∈ lines, ∀ m ∈ Line.marks? line, m < 65535) (n : Nat)
    (hn : n ≤ lines.length) (d : UInt16) :
    (Progress.start.after 1 (lines.take n)).Admits d ↔
      Fits (lineDepth? lines) (Adds lines) n d.toNat := by
  induction n generalizing d with
  | zero => exact Progress.start_fits _ _ d
  | succ n ih =>
    have hline := List.getElem?_eq_getElem hn
    have ih := ih (Nat.le_of_succ_le hn)
    have hadds := adds_iff hline
    rw [Progress.after_take_succ hline]
    -- From here on the progress counts only through what it admits.
    generalize Progress.start.after 1 (lines.take n) = p at ih hadds ⊢
    rcases p.step_cases (1 + n) lines[n] with
      ⟨hr, he⟩ | ⟨r, hr, ha, he⟩ | ⟨r, fault, hr, ha, he⟩ | ⟨fault, hr, he⟩
    · have hdepth : lineDepth? lines n = none := by
        rw [lineDepth_of_marks hline, Line.marks_of_blank hr]
      rw [he, fits_succ_of_none hdepth]
      exact ih d
    · obtain ⟨hdepth, _, hlt⟩ := lineDepth_of_rule hd hline hr
      have ht : Adds lines n := hadds.mpr ⟨_, by rw [he]⟩
      rw [he]
      exact Progress.added_fits ih hlt hdepth ht ha d
    · have ht : ¬ Adds lines n := by simp [hadds, he]
      rw [he]
      exact Progress.rejected_fits ih (lineDepth_of_rule hd hline hr).1 ht d
    · have ht : ¬ Adds lines n := by simp [hadds, he]
      rw [he]
      exact Progress.rejected_fits ih (lineDepth_of_fault hd hline hr) ht d

/-- A readable line becomes a rule, with its own number, exactly when it fits behind the lines
before it. -/
theorem adds_iff_fits (hd : ∀ line ∈ lines, ∀ m ∈ Line.marks? line, m < 65535) {i : Nat}
    {line : List UInt8} {r : Rule} (hline : lines[i]? = some line)
    (hr : Line.read line = .ok (some r)) :
    Adds lines i ↔ Fits (lineDepth? lines) (Adds lines) i (Line.marks line) := by
  have hi := (List.getElem?_eq_some_iff.mp hline).1
  rw [← (lineDepth_of_rule hd hline hr).2.1, ← admits_after_iff hd i (Nat.le_of_lt hi),
    adds_iff hline, Progress.step_of_rule hr]
  rcases (Progress.start.after 1 (lines.take i)).place_cases (1 + i) r with
    ⟨ha, he⟩ | ⟨ha, fault, he⟩
  · exact iff_of_true ⟨_, by rw [he]⟩ ha
  · exact iff_of_false (by simp [he]) ha

/-- An added rule comes from a readable line. -/
theorem read_of_added {i : Nat} {s : Rule}
    (hs : (Progress.start.run 1 lines)[i]? = some (.added s)) :
    ∃ line r, lines[i]? = some line ∧ Line.read line = .ok (some r) ∧
      s = { r with line := i + 1 } := by
  rw [Progress.getElem_run] at hs
  obtain ⟨line, hline, hs⟩ := Option.map_eq_some_iff.mp hs
  rcases (Progress.start.after 1 (lines.take i)).step_cases (1 + i) line with
    ⟨hr, he⟩ | ⟨r, hr, ha, he⟩ | ⟨r, fault, hr, ha, he⟩ | ⟨fault, hr, he⟩
  all_goals rw [he] at hs
  all_goals cases hs
  exact ⟨line, r, hline, hr, by rw [Nat.add_comm]⟩

theorem line_of_added {i : Nat} {s : Rule}
    (hs : (Progress.start.run 1 lines)[i]? = some (.added s)) : s.line = i + 1 := by
  obtain ⟨_, _, _, _, rfl⟩ := read_of_added hs
  rfl

theorem added_of_rule {i : Nat} {o : LineOutcome} {s : Rule}
    (ho : (Progress.start.run 1 lines)[i]? = some o) (hs : o.rule? = some s) :
    (Progress.start.run 1 lines)[i]? = some (.added s) := by
  cases o <;> cases hs
  exact ho

end Reading

namespace RuleTable

/-- The table of a source on its own. -/
def ofSource (source : List UInt8) : RuleTable :=
  (RuleTable.empty.merge source).1

/-- The rule of the line at an index is in the table of the source. -/
def Accepts (source : List UInt8) (i : Nat) : Prop :=
  ∃ s ∈ (ofSource source).rules, s.line = i + 1

variable {source : List UInt8}

theorem rules_ofSource (source : List UInt8) : (ofSource source).rules =
    (Progress.start.run 1 (Byte.lines source)).filterMap LineOutcome.rule? := rfl

theorem mem_rules_ofSource {s : Rule} : s ∈ (ofSource source).rules ↔
    ∃ i : Nat, (Progress.start.run 1 (Byte.lines source))[i]? = some (.added s) := by
  rw [rules_ofSource, List.mem_filterMap]
  constructor
  · intro hx
    obtain ⟨outcome, hm, ho⟩ := hx
    obtain ⟨i, hi⟩ := List.mem_iff_getElem?.mp hm
    exact ⟨i, added_of_rule hi ho⟩
  · intro hx
    obtain ⟨i, hi⟩ := hx
    exact ⟨_, List.mem_of_getElem? hi, rfl⟩

/-- The number of a rule leads back to the line it was read from. -/
theorem added_of_line {s : Rule} {i : Nat} (hs : s ∈ (ofSource source).rules)
    (hi : s.line = i + 1) :
    (Progress.start.run 1 (Byte.lines source))[i]? = some (.added s) := by
  obtain ⟨j, hj⟩ := mem_rules_ofSource.mp hs
  obtain rfl : j = i := Nat.succ.inj ((line_of_added hj).symm.trans hi)
  exact hj

theorem accepts_iff {i : Nat} : Accepts source i ↔ Adds (Byte.lines source) i := by
  constructor
  · intro hx
    obtain ⟨s, hs, hi⟩ := hx
    exact ⟨s, added_of_line hs hi⟩
  · intro hx
    obtain ⟨s, hs⟩ := hx
    exact ⟨s, mem_rules_ofSource.mpr ⟨i, hs⟩, line_of_added hs⟩

theorem rules_ordered (source : List UInt8) :
    (ofSource source).rules.Pairwise (fun r s => r.line < s.line) := by
  rw [rules_ofSource]
  exact Progress.ordered_by_line LineOutcome.number_of_rule _ _ _

theorem line_lt_of_lt {k q : Nat} {r s : Rule} (hr : (ofSource source).rules[k]? = some r)
    (hs : (ofSource source).rules[q]? = some s) (hlt : k < q) : r.line < s.line := by
  obtain ⟨hk, rfl⟩ := List.getElem?_eq_some_iff.mp hr
  obtain ⟨hq, rfl⟩ := List.getElem?_eq_some_iff.mp hs
  exact List.pairwise_iff_getElem.mp (rules_ordered source) k q hk hq hlt

/-- In the table of one source, rules stand in the order of their lines. -/
theorem lt_iff_line_lt {k q : Nat} {r s : Rule} (hr : (ofSource source).rules[k]? = some r)
    (hs : (ofSource source).rules[q]? = some s) : k < q ↔ r.line < s.line := by
  refine ⟨line_lt_of_lt hr hs, fun hlt => ?_⟩
  rcases Nat.lt_trichotomy k q with h | rfl | h
  · exact h
  · obtain rfl := Option.some.inj (hr.symm.trans hs)
    omega
  · have := line_lt_of_lt hs hr h
    omega

/-- The level of a rule in the table is the depth of the line that it has the number of. -/
theorem lineDepth_of_line (hd : ∀ line ∈ Byte.lines source, ∀ m ∈ Line.marks? line, m < 65535)
    {k i : Nat} {r : Rule} (hr : (ofSource source).rules[k]? = some r) (hi : r.line = i + 1) :
    lineDepth? (Byte.lines source) i = some r.level.toNat := by
  obtain ⟨_, _, hline, hread, rfl⟩ := read_of_added (added_of_line (List.mem_of_getElem? hr) hi)
  exact (lineDepth_of_rule hd hline hread).1

/-- The rules between two rules of a table come from the lines between theirs, so the nearest
shallower line, when it is accepted, gives the parent. -/
theorem parent_of_nearest (hd : ∀ line ∈ Byte.lines source, ∀ m ∈ Line.marks? line, m < 65535)
    {i j k p : Nat} {r s : Rule} (h : Nearest (lineDepth? (Byte.lines source)) j i)
    (hr : (ofSource source).rules[p]? = some r) (hj : r.line = j + 1)
    (hs : (ofSource source).rules[k]? = some s) (hi : s.line = i + 1) :
    (ofSource source).Parent p k := by
  have hrj := lineDepth_of_line hd hr hj
  have hsi := lineDepth_of_line hd hs hi
  refine ⟨(lt_iff_line_lt hr hs).mpr (by have := h.earlier; omega), ?_, ?_⟩
  · obtain ⟨m, n, hm, hn, hlt⟩ := h.smaller
    obtain rfl := Option.some.inj (hrj.symm.trans hm)
    obtain rfl := Option.some.inj (hsi.symm.trans hn)
    exact ⟨_, _, level_of_rule hr, level_of_rule hs, hlt⟩
  · intro q hpq hqk m n hm hn
    obtain ⟨a, ha, rfl⟩ := Option.map_eq_some_iff.mp hm
    obtain rfl := Option.some.inj ((level_of_rule hs).symm.trans hn)
    have hafter := (lt_iff_line_lt hr ha).mp hpq
    have hbefore := (lt_iff_line_lt ha hs).mp hqk
    have hal : a.line = (a.line - 1) + 1 := by omega
    exact h.nearest (a.line - 1) (by omega) (by omega) _ _ (lineDepth_of_line hd ha hal) hsi

/-- A readable line is accepted exactly when it has no marks or the nearest shallower line is
accepted and has one mark less, and it is then below the rule of that line. -/
theorem accepted_under_own_line
    (hd : ∀ line ∈ Byte.lines source, ∀ m ∈ Line.marks? line, m < 65535) {i : Nat}
    {line : List UInt8} {r : Rule} (hline : (Byte.lines source)[i]? = some line)
    (hr : Line.read line = .ok (some r)) :
    (Accepts source i ↔ Line.marks line = 0 ∨
      ∃ j m, Nearest (lineDepth? (Byte.lines source)) j i ∧ Accepts source j ∧
        lineDepth? (Byte.lines source) j = some m ∧ m + 1 = Line.marks line) ∧
    ∀ k s, (ofSource source).rules[k]? = some s → s.line = i + 1 →
      s = { r with line := i + 1 } ∧ (0 < Line.marks line →
        ∃ j p line' r', Nearest (lineDepth? (Byte.lines source)) j i ∧
          (Byte.lines source)[j]? = some line' ∧ Line.read line' = .ok (some r') ∧
          (ofSource source).Parent p k ∧
          (ofSource source).rules[p]? = some { r' with line := j + 1 }) := by
  have hdepth := lineDepth_of_marks hline
  rw [Line.marks_of_rule hr] at hdepth
  have hiff : Accepts source i ↔ Line.marks line = 0 ∨
      ∃ j m, Nearest (lineDepth? (Byte.lines source)) j i ∧ Accepts source j ∧
        lineDepth? (Byte.lines source) j = some m ∧ m + 1 = Line.marks line := by
    rw [accepts_iff, adds_iff_fits hd hline hr, fits_iff_nearest hdepth]
    simp only [accepts_iff]
  refine ⟨hiff, fun k s hs hsl => ?_⟩
  have hadded := added_of_line (List.mem_of_getElem? hs) hsl
  obtain ⟨line', r', hline', hr', rfl⟩ := read_of_added hadded
  obtain rfl := Option.some.inj (hline.symm.trans hline')
  obtain rfl := Option.some.inj (Except.ok.inj (hr.symm.trans hr'))
  refine ⟨rfl, fun hpos => ?_⟩
  rcases hiff.mp (accepts_iff.mpr ⟨_, hadded⟩) with hz | ⟨j, m, hnear, ⟨a, ha, haj⟩, _, _⟩
  · omega
  · obtain ⟨p, hp⟩ := List.mem_iff_getElem?.mp ha
    obtain ⟨line', r', hline', hr', rfl⟩ := read_of_added (added_of_line ha haj)
    exact ⟨j, p, line', r', hnear, hline', hr', parent_of_nearest hd hnear hp rfl hs rfl, hp⟩

/-- A readable line after an unreadable one, an orphan, a skipped level and a comment. -/
def mixedSource : List UInt8 :=
  Byte.ascii "0 byte 1 a\n>1 quad 2\n>>2 byte 3 lost\n>1 byte 4 b\n>>>3 byte 5\n# c\n>>2 byte 6 d"

theorem accepted_under_own_line_mixed_source :
    (∀ line ∈ Byte.lines mixedSource, ∀ m ∈ Line.marks? line, m < 65535) ∧
      Line.read (Byte.ascii ">>2 byte 6 d") =
        .ok (some ⟨2, none, 2, .byte, -1, .equal, .number 6, false, "d", false, 0⟩) ∧
      Accepts mixedSource 6 ∧ ∃ j p, Nearest (lineDepth? (Byte.lines mixedSource)) j 6 ∧
        (ofSource mixedSource).Parent p 2 ∧
        ((ofSource mixedSource).rules[p]?).map Rule.line = some (j + 1) := by
  have hd : ∀ line ∈ Byte.lines mixedSource, ∀ m ∈ Line.marks? line, m < 65535 := by
    decide +kernel
  have hline : (Byte.lines mixedSource)[6]? = some (Byte.ascii ">>2 byte 6 d") := by
    decide +kernel
  have hr : Line.read (Byte.ascii ">>2 byte 6 d") =
      .ok (some ⟨2, none, 2, .byte, -1, .equal, .number 6, false, "d", false, 0⟩) := by
    decide +kernel
  have hrule : (ofSource mixedSource).rules[2]? =
      some ⟨2, none, 2, .byte, -1, .equal, .number 6, false, "d", false, 7⟩ := by
    decide +kernel
  obtain ⟨_, hparent⟩ := accepted_under_own_line hd hline hr
  obtain ⟨_, hparent⟩ := hparent 2 _ hrule rfl
  obtain ⟨j, p, line', r', hnear, _, _, hpar, hp⟩ := hparent (by decide +kernel)
  exact ⟨hd, hr, ⟨_, List.mem_of_getElem? hrule, rfl⟩, j, p, hnear, hpar, by rw [hp]; rfl⟩

end RuleTable

end ContentType
