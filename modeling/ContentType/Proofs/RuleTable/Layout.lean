import ContentType.Proofs.Byte
import ContentType.Proofs.RuleTable.Accounting
import Mathlib.Data.List.Forall2

namespace ContentType

namespace Byte

/-- The pieces of a text are its lines and, behind a newline at its end, an empty piece. -/
theorem splitOn_eq_lines (s : List UInt8) :
    (s.getLast? = some 0x0a ∧ s.splitOn 0x0a = lines s ++ [[]]) ∨
    (s.getLast? ≠ some 0x0a ∧ s.splitOn 0x0a = lines s) := by
  by_cases hs : s.getLast? = some 0x0a
  · obtain ⟨init, rfl⟩ := List.getLast?_eq_some_iff.mp hs
    refine Or.inl ⟨hs, ?_⟩
    rw [lines, if_pos hs, List.splitOn_append_cons_self, List.splitOn_nil,
      List.dropLast_concat]
  · exact Or.inr ⟨hs, by rw [lines, if_neg hs]⟩

section Returns

/-- The text with a carriage return in front of every newline. -/
def withReturns (s : List UInt8) : List UInt8 :=
  s.flatMap (fun b => if b = 0x0a then [0x0d, 0x0a] else [b])

theorem withReturns_newline (s : List UInt8) :
    withReturns (0x0a :: s) = 0x0d :: 0x0a :: withReturns s := rfl

theorem withReturns_cons_of_ne {b : UInt8} (h : b ≠ 0x0a) (s : List UInt8) :
    withReturns (b :: s) = b :: withReturns s := by
  simp [withReturns, h]

/-- The last byte stays what it is. -/
theorem getLast_withReturns (s : List UInt8) : (withReturns s).getLast? = s.getLast? := by
  rcases List.eq_nil_or_concat s with rfl | ⟨init, b, rfl⟩
  · rfl
  · by_cases hb : b = 0x0a <;> simp [withReturns, hb]

/-- A line as it was, or with a return at its end. -/
def MayReturn (line closed : List UInt8) : Prop :=
  closed = line ∨ closed = line ++ [0x0d]

theorem MayReturn.cons {line closed : List UInt8} (h : MayReturn line closed) (b : UInt8) :
    MayReturn (b :: line) (b :: closed) := by
  rcases h with rfl | rfl
  · exact Or.inl rfl
  · exact Or.inr rfl

theorem splitOn_withReturns (s : List UInt8) :
    List.Forall₂ MayReturn (s.splitOn 0x0a) ((withReturns s).splitOn 0x0a) := by
  induction s with
  | nil => exact .cons (Or.inl rfl) .nil
  | cons b s ih =>
    by_cases hb : b = 0x0a
    · subst hb
      rw [withReturns_newline, splitOn_newline, splitOn_cons_of_ne (by decide), splitOn_newline]
      exact .cons (Or.inr rfl) ih
    · rw [withReturns_cons_of_ne hb, splitOn_cons_of_ne hb, splitOn_cons_of_ne hb]
      generalize s.splitOn 0x0a = pieces, (withReturns s).splitOn 0x0a = closed at ih
      cases ih with
      | nil => exact .nil
      | cons first rest => exact .cons (first.cons b) rest

theorem lines_withReturns (s : List UInt8) :
    List.Forall₂ MayReturn (lines s) (lines (withReturns s)) := by
  have hpieces := splitOn_withReturns s
  unfold lines
  rw [getLast_withReturns]
  split
  · rw [List.dropLast_eq_take, List.dropLast_eq_take, hpieces.length_eq]
    exact List.forall₂_take _ hpieces
  · exact hpieces

end Returns

end Byte

namespace Line
open Byte

theorem strip_return (line : List UInt8) : strip (line ++ [0x0d]) = strip line := by
  simp [strip]

theorem read_return (line : List UInt8) : read (line ++ [0x0d]) = read line := by
  rw [read, strip_return, ← read]

/-- The return is skipped with the blanks of a blank line; on any other line it ends the marks. -/
theorem marks_return (line : List UInt8) : marks (line ++ [0x0d]) = marks line := by
  unfold marks skipSpace
  rw [List.dropWhile_append]
  split
  · rename_i hblank
    rw [List.isEmpty_iff.mp hblank]
    rfl
  · rw [takeWhile_append_of_stops _ (stops_cons.mpr (by rfl))]

end Line

namespace Progress

theorem step_mayReturn {line closed : List UInt8} (h : Byte.MayReturn line closed) (p : Progress)
    (number : Nat) : p.step number closed = p.step number line := by
  rcases h with rfl | rfl
  · rfl
  · rw [step, step, Line.read_return, Line.depth, Line.depth, Line.marks_return]

theorem run_mayReturn {lines closed : List (List UInt8)}
    (h : List.Forall₂ Byte.MayReturn lines closed) (p : Progress) (number : Nat) :
    p.run number closed = p.run number lines := by
  induction h generalizing p number with
  | nil => rfl
  | cons first _ ih => rw [run_cons, run_cons, step_mayReturn first, ih]

end Progress

section Unnumbered

/-- The rule without the number of its line. -/
def Rule.unnumbered (r : Rule) : Rule :=
  { r with line := 0 }

/-- What a line comes to, besides its number. -/
def LineOutcome.content? : LineOutcome → Option (Rule ⊕ Fault)
  | blank => none
  | added r => some (.inl r.unnumbered)
  | rejected w => some (.inr w.fault)

theorem unnumbered_rules (outcomes : List LineOutcome) :
    (outcomes.filterMap LineOutcome.rule?).map Rule.unnumbered =
      (outcomes.filterMap LineOutcome.content?).filterMap Sum.getLeft? := by
  induction outcomes with
  | nil => rfl
  | cons outcome rest ih =>
    cases outcome with
    | blank => exact ih
    | added r => exact congrArg (List.cons r.unnumbered) ih
    | rejected w => exact ih

theorem unnumbered_warnings (outcomes : List LineOutcome) :
    (outcomes.filterMap LineOutcome.warning?).map Warning.fault =
      (outcomes.filterMap LineOutcome.content?).filterMap Sum.getRight? := by
  induction outcomes with
  | nil => rfl
  | cons outcome rest ih =>
    cases outcome with
    | blank => exact ih
    | added r => exact ih
    | rejected w => exact congrArg (List.cons w.fault) ih

end Unnumbered

/-- Lines that are neither blank nor comments. -/
def significant (lines : List (List UInt8)) : List (List UInt8) :=
  lines.filter (fun line => !Line.isBlank line)

namespace Progress

/-- A number is only written down: what a line comes to and where it leads do not depend on it. -/
theorem step_renumber (p : Progress) (number number' : Nat) (line : List UInt8) :
    (p.step number line).1.content? = (p.step number' line).1.content? ∧
      (p.step number line).2 = (p.step number' line).2 := by
  unfold step
  split
  · exact ⟨rfl, rfl⟩
  · unfold place
    split
    · exact ⟨rfl, rfl⟩
    · split <;> exact ⟨rfl, rfl⟩
  · exact ⟨rfl, rfl⟩

/-- Blank lines only push the numbers of the others up. -/
theorem run_without_blank (p : Progress) (number number' : Nat) (lines : List (List UInt8)) :
    (p.run number lines).filterMap LineOutcome.content? =
      (p.run number' (significant lines)).filterMap LineOutcome.content? := by
  unfold significant
  induction lines generalizing p number number' with
  | nil => rfl
  | cons line rest ih =>
    by_cases hb : Line.isBlank line = true
    · have hstep : p.step number line = (.blank, p) := by
        rw [step, Line.isBlank_iff.mp hb]
      rw [run_cons, hstep, List.filter_cons_of_neg (by simp [hb])]
      exact ih p (number + 1) number'
    · obtain ⟨hcontent, hnext⟩ := p.step_renumber number number' line
      rw [List.filter_cons_of_pos (by simpa using hb), run_cons, run_cons, List.filterMap_cons,
        List.filterMap_cons, hcontent, hnext, ih _ (number + 1) (number' + 1)]

end Progress

/-- A text with blank lines and comments put in at the boundaries of its lines. -/
inductive Padded : List UInt8 → List UInt8 → Prop
  | same (s : List UInt8) : Padded s s
  /-- The text up to a boundary stays as it is. -/
  | kept (line : List UInt8) {s padded : List UInt8} (rest : Padded s padded) :
    Padded (line ++ 0x0a :: s) (line ++ 0x0a :: padded)
  | inserted {line s padded : List UInt8} (one : 0x0a ∉ line) (blank : Line.isBlank line = true)
    (rest : Padded s padded) : Padded s (line ++ 0x0a :: padded)
  /-- A last line that is not closed is closed before others follow. -/
  | closed (line : List UInt8) {padded : List UInt8} (rest : Padded [] padded) :
    Padded line (line ++ 0x0a :: padded)
  | ending {line : List UInt8} (one : 0x0a ∉ line) (blank : Line.isBlank line = true) :
    Padded [] line

section Padded

theorem significant_append (lines more : List (List UInt8)) :
    significant (lines ++ more) = significant lines ++ significant more :=
  List.filter_append ..

theorem significant_of_blank {line : List UInt8} (h : Line.isBlank line = true) :
    significant [line] = [] :=
  List.filter_cons_of_neg (by simp [h])

theorem isBlank_nil : Line.isBlank [] = true := rfl

theorem significant_splitOn (s : List UInt8) :
    significant (s.splitOn 0x0a) = significant (Byte.lines s) := by
  rcases Byte.splitOn_eq_lines s with ⟨_, he⟩ | ⟨_, he⟩
  · rw [he, significant_append, significant_of_blank isBlank_nil, List.append_nil]
  · rw [he]

theorem Padded.significant_eq {s padded : List UInt8} (h : Padded s padded) :
    significant (Byte.lines padded) = significant (Byte.lines s) := by
  rw [← significant_splitOn, ← significant_splitOn]
  induction h with
  | same s => rfl
  | kept line _ ih =>
    rw [List.splitOn_append_cons_self, List.splitOn_append_cons_self, significant_append,
      significant_append, ih]
  | inserted one blank _ ih =>
    rw [List.splitOn_append_cons_self, List.splitOn_eq_singleton one, significant_append,
      significant_of_blank blank, List.nil_append, ih]
  | closed line _ ih =>
    rw [List.splitOn_append_cons_self, significant_append, ih, List.splitOn_nil,
      significant_of_blank isBlank_nil, List.append_nil]
  | ending one blank =>
    rw [List.splitOn_eq_singleton one, List.splitOn_nil, significant_of_blank blank,
      significant_of_blank isBlank_nil]

end Padded

namespace Span

/-- The pass looks at nothing but levels. -/
theorem run_congr {rules rules' : List Rule} (h : rules.map Rule.level = rules'.map Rule.level)
    (s : Sweep) (j : Nat) : s.run j rules = s.run j rules' := by
  induction rules generalizing rules' s j with
  | nil =>
    obtain rfl := List.map_eq_nil_iff.mp h.symm
    rfl
  | cons r rules ih =>
    cases rules' with
    | nil => cases h
    | cons r' rules' =>
      obtain ⟨hlevel, hrest⟩ := List.cons_eq_cons.mp h
      rw [Sweep.run, Sweep.run, ih hrest, Sweep.step, Sweep.step, hlevel]

theorem ends_congr {rules rules' : List Rule}
    (h : rules.map Rule.level = rules'.map Rule.level) : ends rules = ends rules' := by
  have hlength : rules.length = rules'.length := by
    simpa using congrArg List.length h
  rw [ends, ends, run_congr h, hlength]

end Span

namespace RuleTable

theorem merge_withReturns (t : RuleTable) (source : List UInt8) :
    t.merge (Byte.withReturns source) = t.merge source := by
  have houtcomes : t.outcomes (Byte.withReturns source) = t.outcomes source :=
    Progress.run_mayReturn (Byte.lines_withReturns source) _ 1
  unfold merge
  rw [houtcomes]

section Padded

variable {source padded : List UInt8} (t : RuleTable)

theorem content_padded (h : Padded source padded) :
    (t.outcomes padded).filterMap LineOutcome.content? =
      (t.outcomes source).filterMap LineOutcome.content? := by
  unfold outcomes
  rw [Progress.run_without_blank _ 1 1 (Byte.lines padded), h.significant_eq,
    ← Progress.run_without_blank _ 1 1 (Byte.lines source)]

theorem added_padded (h : Padded source padded) :
    ((t.outcomes padded).filterMap LineOutcome.rule?).map Rule.unnumbered =
      ((t.outcomes source).filterMap LineOutcome.rule?).map Rule.unnumbered := by
  rw [unnumbered_rules, unnumbered_rules, t.content_padded h]

theorem spanEnds_padded (h : Padded source padded) :
    (t.merge padded).1.spanEnds = (t.merge source).1.spanEnds := by
  have hadded := congrArg (List.map Rule.level) (t.added_padded h)
  rw [List.map_map, List.map_map] at hadded
  rw [swept, swept]
  apply Span.ends_congr
  rw [rules_merge, rules_merge, List.map_append, List.map_append]
  exact congrArg (t.rules.map Rule.level ++ ·) hadded

theorem warnings_padded (h : Padded source padded) :
    (t.merge padded).2.warnings.map Warning.fault =
      (t.merge source).2.warnings.map Warning.fault := by
  rw [merge_report, merge_report]
  dsimp only
  rw [unnumbered_warnings, unnumbered_warnings, t.content_padded h]

end Padded

/-- Loading does not depend on layout. Returns in front of the newlines change neither the table nor
the report; blank lines and comments, wherever they are put in, change nothing but line numbers. -/
theorem merge_layout (t : RuleTable) (source : List UInt8) :
    t.merge (Byte.withReturns source) = t.merge source ∧
    ∀ padded, Padded source padded →
      (∃ added added', (t.merge source).1.rules = t.rules ++ added ∧
        (t.merge padded).1.rules = t.rules ++ added' ∧
        added'.map Rule.unnumbered = added.map Rule.unnumbered) ∧
      (t.merge padded).1.spanEnds = (t.merge source).1.spanEnds ∧
      (t.merge padded).2.warnings.map Warning.fault =
        (t.merge source).2.warnings.map Warning.fault :=
  ⟨t.merge_withReturns source, fun padded h =>
    ⟨⟨_, _, t.rules_merge source, t.rules_merge padded, t.added_padded h⟩, t.spanEnds_padded h,
      t.warnings_padded h⟩⟩

/-- An unreadable line takes its continuation with it. -/
def bareSource : List UInt8 :=
  Byte.ascii "0 byte 1 a" ++ 0x0a :: (Byte.ascii ">1 quad 2" ++ 0x0a ::
    (Byte.ascii ">>2 byte 3 lost" ++ 0x0a :: Byte.ascii ">1 byte 4 b"))

/-- The same with a comment between these two, and more around them. -/
def commentedSource : List UInt8 :=
  Byte.ascii "# first" ++ 0x0a :: (Byte.ascii "0 byte 1 a" ++ 0x0a :: (Byte.ascii ">1 quad 2" ++
    0x0a :: (Byte.ascii "\t# why\r" ++ 0x0a :: (Byte.ascii ">>2 byte 3 lost" ++ 0x0a ::
      (0x0a :: (Byte.ascii ">1 byte 4 b" ++ 0x0a :: Byte.ascii "# last"))))))

theorem merge_layout_commented :
    Padded bareSource commentedSource ∧
      (twoSources.merge commentedSource).1.spanEnds = (twoSources.merge bareSource).1.spanEnds ∧
      (twoSources.merge commentedSource).2.warnings.map Warning.fault =
        (twoSources.merge bareSource).2.warnings.map Warning.fault ∧
      (twoSources.merge bareSource).2.warnings.map Warning.line = [2, 3] ∧
      (twoSources.merge commentedSource).2.warnings.map Warning.line = [3, 5] := by
  have hpadded : Padded bareSource commentedSource :=
    .inserted (by decide) (by decide) (.kept _ (.kept _ (.inserted (by decide) (by decide)
      (.kept _ (.inserted List.not_mem_nil rfl (.closed _ (.ending (by decide) (by decide))))))))
  obtain ⟨_, hspans, hfaults⟩ := (twoSources.merge_layout bareSource).2 commentedSource hpadded
  exact ⟨hpadded, hspans, hfaults, by decide +kernel, by decide +kernel⟩

end RuleTable

end ContentType
