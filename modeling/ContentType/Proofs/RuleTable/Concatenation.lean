import ContentType.Proofs.RuleTable.Adoption
import ContentType.RuleTable.Search

namespace ContentType

namespace Span

theorem IsEnd.unique {rules : List Rule} {i e e' : Nat} (h : IsEnd rules i e)
    (h' : IsEnd rules i e') : e = e' := by
  rcases Nat.lt_trichotomy e e' with hlt | he | hlt
  · have hdeep := h'.deeper e h.later hlt
    exact absurd h.stop (Nat.not_le.mpr hdeep)
  · exact he
  · have hdeep := h.deeper e' h'.later hlt
    exact absurd h'.stop (Nat.not_le.mpr hdeep)

theorem levelAt_append_left {rules more : List Rule} {i : Nat} (hi : i < rules.length) :
    levelAt (rules ++ more) i = levelAt rules i := by
  simp [levelAt, List.getElem?_append_left hi]

theorem levelAt_append_right (rules more : List Rule) (i : Nat) :
    levelAt (rules ++ more) (rules.length + i) = levelAt more i := by
  simp [levelAt, List.getElem?_append_right]

section Append

variable {rules more : List Rule} {i e : Nat}

/-- A span stays what it is when a top-level rule follows its table. -/
theorem IsEnd.append_left (h : IsEnd rules i e) (hm : levelAt more 0 = 0) :
    IsEnd (rules ++ more) i e := by
  have hi : i < rules.length := Nat.lt_of_lt_of_le h.later h.bounded
  refine ⟨h.later, ?_, ?_, ?_⟩
  · rw [List.length_append]
    exact Nat.le_trans h.bounded (Nat.le_add_right _ _)
  · intro k hik hke
    rw [levelAt_append_left hi, levelAt_append_left (Nat.lt_of_lt_of_le hke h.bounded)]
    exact h.deeper k hik hke
  · rcases Nat.lt_or_eq_of_le h.bounded with hlt | rfl
    · rw [levelAt_append_left hi, levelAt_append_left hlt]
      exact h.stop
    · have hseam := levelAt_append_right rules more 0
      rw [Nat.add_zero, hm] at hseam
      rw [hseam]
      exact Nat.zero_le _

theorem IsEnd.append_right (h : IsEnd more i e) :
    IsEnd (rules ++ more) (rules.length + i) (rules.length + e) := by
  refine ⟨Nat.add_lt_add_left h.later _, ?_, ?_, ?_⟩
  · rw [List.length_append]
    exact Nat.add_le_add_left h.bounded _
  · intro k hik hke
    obtain ⟨j, rfl⟩ := Nat.exists_eq_add_of_le (Nat.le_of_add_right_le (Nat.le_of_lt hik))
    rw [levelAt_append_right, levelAt_append_right]
    exact h.deeper j (Nat.lt_of_add_lt_add_left hik) (Nat.lt_of_add_lt_add_left hke)
  · rw [levelAt_append_right, levelAt_append_right]
    exact h.stop

theorem ends_of_isEnd (h : IsEnd rules i e) : (ends rules)[i]? = some e := by
  obtain ⟨e', he', hend⟩ := ends_isEnd (Nat.lt_of_lt_of_le h.later h.bounded)
  rw [he', h.unique hend]

/-- No span crosses a top-level rule. -/
theorem ends_append (hm : levelAt more 0 = 0) :
    ends (rules ++ more) = ends rules ++ (ends more).map (rules.length + ·) := by
  apply List.ext_getElem?
  intro i
  by_cases hi : i < rules.length
  · obtain ⟨e, he, hend⟩ := ends_isEnd hi
    rw [ends_of_isEnd (hend.append_left hm), List.getElem?_append_left (by simpa using hi), he]
  · obtain ⟨j, rfl⟩ := Nat.exists_eq_add_of_le (Nat.le_of_not_lt hi)
    rw [List.getElem?_append_right (by simp)]
    simp only [length_ends, Nat.add_sub_cancel_left, List.getElem?_map]
    by_cases hj : j < more.length
    · obtain ⟨e, he, hend⟩ := ends_isEnd hj
      rw [ends_of_isEnd hend.append_right, he, Option.map_some]
    · rw [List.getElem?_eq_none (by simp; omega), List.getElem?_eq_none (by simp; omega),
        Option.map_none]

end Append

end Span

/-- The search that a second one only follows when it finds nothing. -/
def Trace.orElse (first second : Trace) : Trace :=
  match first.answer with
  | some _ => first
  | none => first.followedBy second

namespace Trace

theorem ending_orElse (second : Trace) : (ending none).orElse second = second := rfl

theorem orElse_ending (first : Trace) : first.orElse (ending none) = first := by
  obtain ⟨evaluated, passed, answer⟩ := first
  cases answer with
  | none => simp [orElse, followedBy, ending]
  | some title => rfl

theorem evaluating_orElse (r : Rule) (first second : Trace) :
    (first.evaluating r).orElse second = (first.orElse second).evaluating r := by
  obtain ⟨evaluated, passed, answer⟩ := first
  cases answer <;> rfl

theorem orElse_assoc (first second third : Trace) :
    (first.orElse second).orElse third = first.orElse (second.orElse third) := by
  obtain ⟨evaluated, passed, answer⟩ := first
  obtain ⟨evaluated', passed', answer'⟩ := second
  cases answer with
  | some title => rfl
  | none => cases answer' <;> simp [orElse, followedBy]

theorem answer_orElse (first second : Trace) :
    (first.orElse second).answer = first.answer.or second.answer := by
  obtain ⟨evaluated, passed, answer⟩ := first
  cases answer <;> rfl

end Trace

namespace RuleTable
open ContentType.Span

theorem ofRules_rules (t : RuleTable) : ofRules t.rules = t := by
  obtain ⟨rules, spanEnds, rfl⟩ := t
  rfl

section Unfolding

variable (t : RuleTable) (buffer : List UInt8) {i : Nat} {r : Rule}

theorem walk_of_lt {stop : Nat} (within : stop ≤ t.rules.length) (eligible : UInt16)
    (answer : Option String) (hi : i < stop) (hr : t.rules[i]? = some r) :
    t.walk buffer stop within eligible answer i =
      if eligible < r.level then (t.walk buffer stop within eligible answer (i + 1)).passing r
      else if r.evaluate buffer then
        (t.walk buffer stop within (r.level + 1) (r.title?.or answer) (i + 1)).evaluating r
      else (t.walk buffer stop within r.level answer (t.spanEnd i)).evaluating r := by
  obtain ⟨hlt, rfl⟩ := List.getElem?_eq_some_iff.mp hr
  rw [walk, dif_pos hi]

/-- The walk through the whole tree of a top-level rule that holds. -/
def chain (top : Nat) (r : Rule) : Trace :=
  (t.walk buffer (t.spanEnd top) (t.spanEnd_le_size top) 1 r.title? (top + 1)).evaluating r

theorem searchFrom_of_rule (hr : t.rules[i]? = some r) :
    t.searchFrom buffer i =
      if r.evaluate buffer then
        (t.chain buffer i r).orElse (t.searchFrom buffer (t.spanEnd i))
      else (t.searchFrom buffer (t.spanEnd i)).evaluating r := by
  obtain ⟨hlt, rfl⟩ := List.getElem?_eq_some_iff.mp hr
  rw [searchFrom, dif_pos hlt]
  rfl

theorem searchFrom_of_le (hi : t.size ≤ i) : t.searchFrom buffer i = .ending none := by
  have hdone : ¬ i < t.rules.length := Nat.not_lt.mpr hi
  rw [searchFrom, dif_neg hdone]

end Unfolding

/-- Table `u` stands inside table `t`, from index `n` on. -/
structure Embeds (t u : RuleTable) (n : Nat) : Prop where
  rule : ∀ i < u.size, t.rules[n + i]? = u.rules[i]?
  span : ∀ i < u.size, t.spanEnd (n + i) = n + u.spanEnd i

section Embeds

variable {t u : RuleTable} {n : Nat}

theorem Embeds.getElem? (h : t.Embeds u n) {i : Nat} (hi : i < u.rules.length) :
    t.rules[n + i]? = some u.rules[i] :=
  (h.rule i hi).trans (List.getElem?_eq_getElem hi)

/-- A walk inside the part is the part's own walk. -/
theorem Embeds.walk (h : t.Embeds u n) (buffer : List UInt8) (stop : Nat)
    (within : stop ≤ u.rules.length) (within' : n + stop ≤ t.rules.length) (eligible : UInt16)
    (answer : Option String) (i : Nat) :
    t.walk buffer (n + stop) within' eligible answer (n + i) =
      u.walk buffer stop within eligible answer i := by
  fun_induction u.walk buffer stop within eligible answer i with
  | case1 eligible answer i hlt bound r hdeep ih =>
    rw [walk_of_lt t buffer within' _ _ (Nat.add_lt_add_left hlt n) (h.getElem? bound),
      if_pos hdeep]
    exact congrArg (Trace.passing r) ih
  | case2 eligible answer i hlt bound r hdeep hholds ih =>
    rw [walk_of_lt t buffer within' _ _ (Nat.add_lt_add_left hlt n) (h.getElem? bound),
      if_neg hdeep, if_pos hholds]
    exact congrArg (Trace.evaluating r) ih
  | case3 eligible answer i hlt bound r hdeep hfails ih =>
    rw [walk_of_lt t buffer within' _ _ (Nat.add_lt_add_left hlt n) (h.getElem? bound),
      if_neg hdeep, if_neg hfails, h.span i bound]
    exact congrArg (Trace.evaluating r) ih
  | case4 eligible answer i hdone =>
    have hle : ¬ n + i < n + stop := fun hlt => hdone (Nat.lt_of_add_lt_add_left hlt)
    rw [RuleTable.walk, dif_neg hle]

theorem Embeds.chain (h : t.Embeds u n) (hn : n + u.size ≤ t.size) (buffer : List UInt8)
    {top : Nat} (htop : top < u.size) (r : Rule) :
    t.chain buffer (n + top) r = u.chain buffer top r := by
  have hwithin := Nat.le_trans (Nat.add_le_add_left (u.spanEnd_le_size top) n) hn
  have hwalk := h.walk buffer (u.spanEnd top) (u.spanEnd_le_size top) hwithin 1 r.title? (top + 1)
  unfold RuleTable.chain
  simp only [h.span top htop, Nat.add_assoc, hwalk]

/-- A search that enters the part searches the part, and goes on behind it when that finds
nothing. -/
theorem Embeds.searchFrom (h : t.Embeds u n) (hn : n + u.size ≤ t.size) (buffer : List UInt8)
    (top : Nat) (htop : top ≤ u.size) :
    t.searchFrom buffer (n + top) =
      (u.searchFrom buffer top).orElse (t.searchFrom buffer (n + u.size)) := by
  induction hk : u.size - top using Nat.strongRecOn generalizing top with
  | ind k ih =>
    rcases Nat.lt_or_eq_of_le htop with hlt | rfl
    · have hu := List.getElem?_eq_getElem hlt
      have ht := h.getElem? hlt
      have hlater := u.lt_spanEnd hlt
      have hrest := ih _ (by omega) (u.spanEnd top) (u.spanEnd_le_size top) rfl
      rw [searchFrom_of_rule t buffer ht, searchFrom_of_rule u buffer hu, h.span top hlt, hrest,
        h.chain hn buffer hlt]
      split
      · rw [Trace.orElse_assoc]
      · rw [Trace.evaluating_orElse]
    · rw [searchFrom_of_le u buffer (Nat.le_refl _), Trace.ending_orElse]

end Embeds

section Append

variable {rules more : List Rule}

theorem embeds_append_left (hm : levelAt more 0 = 0) :
    (ofRules (rules ++ more)).Embeds (ofRules rules) 0 := by
  constructor
  · intro i hi
    rw [Nat.zero_add]
    exact List.getElem?_append_left hi
  · intro i hi
    rw [Nat.zero_add, Nat.zero_add]
    have hend := ((ofRules rules).spanEnd_isEnd hi).append_left hm
    have hi' : i < (ofRules (rules ++ more)).size := Nat.lt_of_lt_of_le hend.later hend.bounded
    exact ((ofRules (rules ++ more)).spanEnd_isEnd hi').unique hend

theorem embeds_append_right (rules more : List Rule) :
    (ofRules (rules ++ more)).Embeds (ofRules more) rules.length := by
  constructor
  · intro i _
    simp [ofRules, List.getElem?_append_right]
  · intro i hi
    have hend : IsEnd (rules ++ more) (rules.length + i)
        (rules.length + (ofRules more).spanEnd i) := ((ofRules more).spanEnd_isEnd hi).append_right
    have hi' : rules.length + i < (ofRules (rules ++ more)).size :=
      Nat.lt_of_lt_of_le hend.later hend.bounded
    exact ((ofRules (rules ++ more)).spanEnd_isEnd hi').unique hend

/-- Searching rules behind which a top-level rule and what belongs to it follow. -/
theorem search_append (hm : levelAt more 0 = 0) (buffer : List UInt8) :
    (ofRules (rules ++ more)).search buffer =
      ((ofRules rules).search buffer).orElse ((ofRules more).search buffer) := by
  have hsize : rules.length + (ofRules more).size = (ofRules (rules ++ more)).size :=
    List.length_append.symm
  have hle : 0 + (ofRules rules).size ≤ (ofRules (rules ++ more)).size := by
    rw [Nat.zero_add, ← hsize]
    exact Nat.le_add_right _ _
  have hfirst := (embeds_append_left hm).searchFrom hle buffer 0 (Nat.zero_le _)
  have hsecond := (embeds_append_right rules more).searchFrom (Nat.le_of_eq hsize) buffer 0
    (Nat.zero_le _)
  rw [searchFrom_of_le _ buffer (Nat.le_of_eq hsize.symm), Trace.orElse_ending] at hsecond
  rw [Nat.zero_add, Nat.zero_add] at hfirst
  exact hfirst.trans (congrArg _ hsecond)

theorem find_append (hm : levelAt more 0 = 0) (buffer : List UInt8) :
    (ofRules (rules ++ more)).find buffer =
      ((ofRules rules).find buffer).or ((ofRules more).find buffer) := by
  unfold find
  rw [search_append hm, Trace.answer_orElse]
  cases ((ofRules rules).search buffer).answer <;> rfl

end Append

end RuleTable

namespace Progress

theorem place_level_zero (p : Progress) (number : Nat) {r : Rule} (h : r.level = 0) :
    p.place number r = (.added { r with line := number }, ⟨some 0, none⟩) := by
  have ha := p.admits_zero
  rw [← h] at ha ⊢
  rcases p.place_cases number r with ⟨_, he⟩ | ⟨hn, _⟩
  · exact he
  · exact absurd ha hn

theorem place_below_dropped {p : Progress} {r : Rule} (number : Nat) (hp : p.dropped = some 0)
    (h : r.level ≠ 0) : p.place number r = (.rejected ⟨number, .orphanContinuation⟩, p) := by
  unfold place
  rw [if_pos]
  simpa [hp] using UInt16.pos_iff_ne_zero.mpr h

theorem drop_of_dropped_zero {p : Progress} (level : UInt16) (hp : p.dropped = some 0) :
    (p.drop level).dropped = some 0 := by
  simp only [drop, hp]
  exact congrArg some (if_pos UInt16.zero_le)

/-- Behind a rejected unmarked line nothing is read but unmarked lines, whatever came before. -/
theorem run_of_dropped_zero (lines : List (List UInt8)) (number : Nat) {p q : Progress}
    (hp : p.dropped = some 0) (hq : q.dropped = some 0) :
    p.run number lines = q.run number lines := by
  induction lines generalizing p q number with
  | nil => rfl
  | cons line rest ih =>
    simp only [run]
    unfold step
    cases hl : Line.read line with
    | error fault =>
      have hrest := ih (number + 1) (drop_of_dropped_zero (Line.depth line) hp)
        (drop_of_dropped_zero (Line.depth line) hq)
      simp only [hrest]
    | ok rule =>
      cases rule with
      | none => simp only [ih (number + 1) hp hq]
      | some r =>
        by_cases hz : r.level = 0
        · simp only [place_level_zero _ number hz]
        · simp only [place_below_dropped number hp hz, place_below_dropped number hq hz,
            ih (number + 1) hp hq]

/-- The rules that a source puts into an empty table begin at the top. -/
theorem head_run (lines : List (List UInt8)) (number : Nat) {p : Progress}
    (hp : p.previous = none) :
    Span.levelAt ((p.run number lines).filterMap LineOutcome.rule?) 0 = 0 := by
  induction lines generalizing p number with
  | nil => rfl
  | cons line rest ih =>
    rw [run_cons]
    rcases p.step_cases number line with
      ⟨_, he⟩ | ⟨r, _, ha, he⟩ | ⟨r, fault, _, _, he⟩ | ⟨fault, _, he⟩
    · rw [he]
      exact ih (number + 1) hp
    · rw [he]
      exact congrArg UInt16.toNat (ha.first hp)
    · rw [he]
      exact ih (number + 1) (p := p.drop r.level) hp
    · rw [he]
      exact ih (number + 1) (p := p.drop (Line.depth line)) hp

end Progress

/-- The first line that is neither blank nor a comment, if there is one, has no marks. -/
def OpensUnmarked (lines : List (List UInt8)) : Prop :=
  ∀ n, lines.findSome? Line.marks? = some n → n = 0

instance (lines : List (List UInt8)) : Decidable (OpensUnmarked lines) :=
  match h : lines.findSome? Line.marks? with
  | none => .isTrue (fun n hn => by rw [h] at hn; cases hn)
  | some 0 => .isTrue (fun n hn => by rw [h] at hn; cases hn; rfl)
  | some (m + 1) => .isFalse (fun hm => by cases hm (m + 1) h)

namespace Progress

/-- An unmarked line is read alike after any rules: it is added, or its rejection hides from what
follows that there were any. -/
theorem run_of_opensUnmarked (lines : List (List UInt8)) (number : Nat) {p q : Progress}
    (hp : p.dropped = none) (hq : q.dropped = none) (h : OpensUnmarked lines) :
    p.run number lines = q.run number lines := by
  induction lines generalizing number with
  | nil => rfl
  | cons line rest ih =>
    simp only [run]
    unfold step
    cases hl : Line.read line with
    | error fault =>
      have hz : Line.marks line = 0 := h _ (by simp [Line.marks_of_fault hl])
      have hd : Line.depth line = 0 := by rw [Line.depth, hz]; rfl
      have hpd : (p.drop (Line.depth line)).dropped = some 0 := by simp [drop, hp, hd]
      have hqd : (q.drop (Line.depth line)).dropped = some 0 := by simp [drop, hq, hd]
      simp only [run_of_dropped_zero rest (number + 1) hpd hqd]
    | ok rule =>
      cases rule with
      | none =>
        have hrest : OpensUnmarked rest := by
          simpa [OpensUnmarked, Line.marks_of_blank hl] using h
        simp only [ih (number + 1) hrest]
      | some r =>
        have hz : Line.marks line = 0 := h _ (by simp [Line.marks_of_rule hl])
        have hlevel : r.level = 0 := by rw [Line.level_read hl, hz]; rfl
        simp only [place_level_zero _ number hlevel]

end Progress

namespace RuleTable
open ContentType.Span

section Merge

variable (t : RuleTable) {source : List UInt8}

theorem outcomes_of_opensUnmarked (h : OpensUnmarked (Byte.lines source)) :
    t.outcomes source = empty.outcomes source :=
  Progress.run_of_opensUnmarked (Byte.lines source) 1 rfl rfl h

theorem levelAt_ofSource_zero (source : List UInt8) : levelAt (ofSource source).rules 0 = 0 :=
  Progress.head_run (Byte.lines source) 1 rfl

/-- Such a source puts its own table behind the old one. -/
theorem merge_of_opensUnmarked (h : OpensUnmarked (Byte.lines source)) :
    (t.merge source).1 = ofRules (t.rules ++ (ofSource source).rules) := by
  rw [rules_ofSource]
  exact congrArg (fun o => ofRules (t.rules ++ o.filterMap LineOutcome.rule?))
    (t.outcomes_of_opensUnmarked h)

theorem find_merge_of_opensUnmarked (h : OpensUnmarked (Byte.lines source))
    (buffer : List UInt8) :
    (t.merge source).1.find buffer = (t.find buffer).or ((ofSource source).find buffer) := by
  rw [t.merge_of_opensUnmarked h, find_append (levelAt_ofSource_zero source), ofRules_rules,
    ofRules_rules]

/-- Merging is concatenation, of rules, spans and answers, for a source whose first line besides
blank ones and comments is unmarked. -/
theorem merge_concatenates (h : OpensUnmarked (Byte.lines source)) :
    (t.merge source).2 = (empty.merge source).2 ∧
    (t.merge source).1.rules = t.rules ++ (ofSource source).rules ∧
    (t.merge source).1.spanEnds = t.spanEnds ++ (ofSource source).spanEnds.map (t.size + ·) ∧
    ∀ buffer, (t.merge source).1.find buffer =
      (t.find buffer).or ((ofSource source).find buffer) := by
  have ht := t.merge_of_opensUnmarked h
  refine ⟨?_, by rw [ht]; rfl, ?_, t.find_merge_of_opensUnmarked h⟩
  · unfold merge
    rw [t.outcomes_of_opensUnmarked h]
  · rw [ht, t.swept, (ofSource source).swept]
    exact ends_append (levelAt_ofSource_zero source)

end Merge

/-- An unreadable line and its continuation, and then a tree with a skipped level. -/
def unmarkedSource : List UInt8 :=
  Byte.ascii
    "\n# c\n0 quad 1\n>1 byte 2 lost\n0 byte 0x51 text/x-q\n>>1 byte 3\n>1 byte 4 text/x-q4"

theorem merge_concatenates_rejected_first :
    OpensUnmarked (Byte.lines unmarkedSource) ∧
      (twoSources.merge unmarkedSource).2 = (empty.merge unmarkedSource).2 ∧
      (twoSources.merge unmarkedSource).1.spanEnds = twoSources.spanEnds ++ [8, 8] ∧
      (twoSources.merge unmarkedSource).1.find [0x51, 4] = twoSources.find [0x51, 4] := by
  have hopens : OpensUnmarked (Byte.lines unmarkedSource) := by decide +kernel
  obtain ⟨hreport, _, hspans, hfind⟩ := twoSources.merge_concatenates hopens
  have hnew : (ofSource unmarkedSource).spanEnds.map (twoSources.size + ·) = [8, 8] := by
    decide +kernel
  have hold : (twoSources.find [0x51, 4]).isSome := by decide +kernel
  refine ⟨hopens, hreport, by rw [hspans, hnew], ?_⟩
  rw [hfind, Option.or_of_isSome hold]

end RuleTable

end ContentType
