import ContentType.Proofs.Rule.Marks
import ContentType.Proofs.RuleTable.Loading

namespace ContentType

/-- The counters of a report, each by what it counts. -/
theorem Report.ofOutcomes_eq (outcomes : List LineOutcome) :
    ofOutcomes outcomes = ⟨outcomes.length, (outcomes.filterMap LineOutcome.rule?).length,
      (outcomes.filterMap LineOutcome.warning?).length,
      outcomes.filterMap LineOutcome.warning?⟩ := by
  induction outcomes with
  | nil => rfl
  | cons outcome rest ih =>
    rw [ofOutcomes, ih]
    cases outcome <;> rfl

/-- The line number that an outcome gives away; blank lines leave none behind. -/
def LineOutcome.number? : LineOutcome → Option Nat
  | blank => none
  | added r => some r.line
  | rejected w => some w.line

theorem LineOutcome.number_of_rule {outcome : LineOutcome} {r : Rule} (h : outcome.rule? = some r) :
    outcome.number? = some r.line := by
  cases outcome <;> cases h
  rfl

theorem LineOutcome.number_of_warning {outcome : LineOutcome} {w : Warning}
    (h : outcome.warning? = some w) : outcome.number? = some w.line := by
  cases outcome <;> cases h
  rfl

/-- Numbers of the blank lines and comments of a text, its first line having the given one. -/
def blankNumbers (number : Nat) (lines : List (List UInt8)) : List Nat :=
  ((lines.zipIdx number).filter (fun entry => Line.isBlank entry.1)).map Prod.snd

section BlankNumbers

variable {number : Nat} {line : List UInt8} (rest : List (List UInt8))

theorem blankNumbers_of_blank (h : Line.read line = .ok none) :
    blankNumbers number (line :: rest) = number :: blankNumbers (number + 1) rest := by
  have hb : Line.isBlank line = true := Line.isBlank_iff.mpr h
  simp [blankNumbers, hb]

theorem blankNumbers_of_ne (h : Line.read line ≠ .ok none) :
    blankNumbers number (line :: rest) = blankNumbers (number + 1) rest := by
  have hb : ¬ Line.isBlank line = true := fun hb => h (Line.isBlank_iff.mp hb)
  simp [blankNumbers, hb]

end BlankNumbers

namespace Progress

/-- Only a blank line comes to nothing; what any other line becomes carries its number. -/
theorem step_outcome (p : Progress) (number : Nat) (line : List UInt8) :
    (Line.read line = .ok none ∧ (p.step number line).1 = .blank) ∨
    (Line.read line ≠ .ok none ∧
      ∃ r : Rule, (p.step number line).1 = .added { r with line := number }) ∨
    (Line.read line ≠ .ok none ∧ ∃ fault, (p.step number line).1 = .rejected ⟨number, fault⟩) := by
  rcases p.step_cases number line with
    ⟨hr, he⟩ | ⟨r, hr, _, he⟩ | ⟨r, fault, hr, _, he⟩ | ⟨fault, hr, he⟩
  · exact Or.inl ⟨hr, by rw [he]⟩
  · exact Or.inr (Or.inl ⟨by simp [hr], r, by rw [he]⟩)
  · exact Or.inr (Or.inr ⟨by simp [hr], fault, by rw [he]⟩)
  · exact Or.inr (Or.inr ⟨by simp [hr], fault, by rw [he]⟩)

theorem number_step {p : Progress} {number n : Nat} {line : List UInt8}
    (h : (p.step number line).1.number? = some n) : n = number := by
  rcases p.step_outcome number line with ⟨_, he⟩ | ⟨_, r, he⟩ | ⟨_, fault, he⟩
  all_goals rw [he] at h
  all_goals cases h
  all_goals rfl

theorem length_run (p : Progress) (number : Nat) (lines : List (List UInt8)) :
    (p.run number lines).length = lines.length := by
  induction lines generalizing p number with
  | nil => rfl
  | cons line rest ih => exact congrArg Nat.succ (ih _ _)

section Order

variable {α : Type} {item : LineOutcome → Option α} {line : α → Nat}

/-- Whatever is picked from the outcomes, its numbers are among those of the lines, in order. -/
theorem numbers_sublist
    (hitem : ∀ {outcome a}, item outcome = some a → outcome.number? = some (line a)) (p : Progress)
    (number : Nat) (lines : List (List UInt8)) :
    (((p.run number lines).filterMap item).map line).Sublist
      (List.range' number lines.length) := by
  induction lines generalizing p number with
  | nil => exact .slnil
  | cons first rest ih =>
    rw [run_cons, List.length_cons, List.range'_succ]
    have hrest := ih (p.step number first).2 (number + 1)
    cases ha : item (p.step number first).1 with
    | none =>
      rw [List.filterMap_cons_none ha]
      exact hrest.cons number
    | some a =>
      rw [List.filterMap_cons_some ha, List.map_cons, number_step (hitem ha)]
      exact hrest.cons_cons number

theorem ordered_by_line
    (hitem : ∀ {outcome a}, item outcome = some a → outcome.number? = some (line a)) (p : Progress)
    (number : Nat) (lines : List (List UInt8)) :
    ((p.run number lines).filterMap item).Pairwise (fun a b => line a < line b) :=
  List.pairwise_map.mp
    (List.Pairwise.sublist (numbers_sublist hitem p number lines) List.pairwise_lt_range')

end Order

/-- The blank lines, the rules and the warnings of a run share the line numbers among them. -/
theorem run_accounts (p : Progress) (number : Nat) (lines : List (List UInt8)) :
    (blankNumbers number lines ++
      (((p.run number lines).filterMap LineOutcome.rule?).map Rule.line ++
        ((p.run number lines).filterMap LineOutcome.warning?).map Warning.line)).Perm
      (List.range' number lines.length) := by
  induction lines generalizing p number with
  | nil => exact .nil
  | cons line rest ih =>
    have hrest := (ih (p.step number line).2 (number + 1)).cons number
    rw [run_cons, List.length_cons, List.range'_succ]
    rcases p.step_outcome number line with ⟨hr, he⟩ | ⟨hr, r, he⟩ | ⟨hr, fault, he⟩
    · rw [he, blankNumbers_of_blank rest hr]
      exact hrest
    · rw [he, blankNumbers_of_ne rest hr]
      exact List.perm_middle.trans hrest
    · rw [he, blankNumbers_of_ne rest hr, ← List.append_assoc]
      rw [← List.append_assoc] at hrest
      exact List.perm_middle.trans hrest

end Progress

namespace RuleTable

theorem merge_report (t : RuleTable) (source : List UInt8) : (t.merge source).2 =
    ⟨(t.outcomes source).length, ((t.outcomes source).filterMap LineOutcome.rule?).length,
      ((t.outcomes source).filterMap LineOutcome.warning?).length,
      (t.outcomes source).filterMap LineOutcome.warning?⟩ :=
  Report.ofOutcomes_eq _

/-- Merging leaves the rules of the table alone and puts new ones behind them. The numbers of the
blank lines, of the new rules and of the warnings are together those of all lines, each once; rules
and warnings stand in the order of their lines, and the report counts them. -/
theorem merge_accounts (t : RuleTable) (source : List UInt8) :
    ∃ added, (t.merge source).1.rules = t.rules ++ added ∧
      (t.merge source).2.lines = (Byte.lines source).length ∧
      (blankNumbers 1 (Byte.lines source) ++
        (added.map Rule.line ++ (t.merge source).2.warnings.map Warning.line)).Perm
        (List.range' 1 (t.merge source).2.lines) ∧
      added.length = (t.merge source).2.loaded ∧
      (t.merge source).2.warnings.length = (t.merge source).2.errors ∧
      added.Pairwise (fun r s => r.line < s.line) ∧
      (t.merge source).2.warnings.Pairwise (fun v w => v.line < w.line) := by
  have hlines : (t.outcomes source).length = (Byte.lines source).length :=
    Progress.length_run _ _ _
  rw [merge_report, hlines]
  exact ⟨_, t.rules_merge source, rfl, Progress.run_accounts _ _ _, rfl, rfl,
    Progress.ordered_by_line LineOutcome.number_of_rule _ _ _,
    Progress.ordered_by_line LineOutcome.number_of_warning _ _ _⟩

/-- Behind a rule come an empty line, a comment, a line of an unknown type and a continuation of
it. -/
def annotatedSource : List UInt8 :=
  Byte.ascii "0 string AB text/x-ab\n\n\t# two letters\n0 quad 1 text/x-none\n>4 byte 1 lost\n"

theorem merge_accounts_annotated :
    blankNumbers 1 (Byte.lines annotatedSource) = [2, 3] ∧
      ∃ added, (empty.merge annotatedSource).1.rules = empty.rules ++ added ∧
        added.map Rule.line = [1] ∧
        (empty.merge annotatedSource).2.warnings.map Warning.line = [4, 5] ∧
        ([2, 3] ++ ([1] ++ [4, 5])).Perm
          (List.range' 1 (empty.merge annotatedSource).2.lines) ∧
        added.length = (empty.merge annotatedSource).2.loaded ∧
        (empty.merge annotatedSource).2.errors = 2 := by
  obtain ⟨hblank, hrules, hwarnings, herrors⟩ :
      blankNumbers 1 (Byte.lines annotatedSource) = [2, 3] ∧
        (empty.merge annotatedSource).1.rules.map Rule.line = [1] ∧
        (empty.merge annotatedSource).2.warnings.map Warning.line = [4, 5] ∧
        (empty.merge annotatedSource).2.errors = 2 := by
    decide +kernel
  obtain ⟨added, hadded, -, hnumbers, hloaded, -⟩ := merge_accounts empty annotatedSource
  have hlines : added.map Rule.line = [1] := by
    rw [hadded] at hrules
    exact hrules
  rw [hblank, hlines, hwarnings] at hnumbers
  exact ⟨hblank, added, hadded, hlines, hwarnings, hnumbers, hloaded, herrors⟩

end RuleTable

end ContentType
