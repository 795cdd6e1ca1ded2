import ContentType.Proofs.RuleTable.Loading
import Mathlib.Order.Bounds.Basic

namespace ContentType
open ContentType.Span

/-- Rules that may follow one of the given level, each at most one level below the one before. -/
inductive Stepwise : Option UInt16 → List Rule → Prop
  | nil {previous : Option UInt16} : Stepwise previous []
  | cons {previous : Option UInt16} {r : Rule} {rules : List Rule}
      (first : previous = none → r.level = 0)
      (next : ∀ n, previous = some n → r.level.toNat ≤ n.toNat + 1)
      (rest : Stepwise (some r.level) rules) : Stepwise previous (r :: rules)

theorem levelAt_cons_succ (r : Rule) (rules : List Rule) (i : Nat) :
    levelAt (r :: rules) (i + 1) = levelAt rules i := by
  simp [levelAt]

namespace Stepwise

theorem append {previous : Option UInt16} {rules more : List Rule} (h : Stepwise previous rules)
    (hm : Stepwise ((rules.getLast?.map Rule.level).or previous) more) :
    Stepwise previous (rules ++ more) := by
  induction h with
  | nil => simpa using hm
  | @cons previous r rules first next rest ih =>
    refine .cons first next (ih ?_)
    rw [List.getLast?_cons] at hm
    cases hl : rules.getLast? <;> simpa [hl] using hm

theorem head {rules : List Rule} (h : Stepwise none rules) : levelAt rules 0 = 0 := by
  cases h with
  | nil => rfl
  | cons first _ _ => simp [levelAt, first rfl]

theorem after {n : UInt16} {rules : List Rule} (h : Stepwise (some n) rules) :
    levelAt rules 0 ≤ n.toNat + 1 := by
  cases h with
  | nil => exact Nat.zero_le _
  | cons _ next _ => simpa [levelAt] using next n rfl

theorem succ {previous : Option UInt16} {rules : List Rule} (h : Stepwise previous rules)
    (i : Nat) : levelAt rules (i + 1) ≤ levelAt rules i + 1 := by
  induction h generalizing i with
  | nil => simp [levelAt]
  | @cons previous r rules _ _ rest ih =>
    rw [levelAt_cons_succ]
    cases i with
    | zero => simpa [levelAt] using rest.after
    | succ i => rw [levelAt_cons_succ]; exact ih i

end Stepwise

/-- Below 65535 the level after a rule's own does not wrap. -/
theorem toNat_succ_of_lt {n : UInt16} (h : n < 65535) : (n + 1).toNat = n.toNat + 1 := by
  have hn : n.toNat < 65535 := UInt16.lt_iff_toNat_lt.mp h
  rw [UInt16.toNat_add]
  simp
  omega

theorem lt_of_ne_last {n : UInt16} (h : n ≠ 65535) : n < 65535 := by
  have hlt := n.toNat_lt
  have hne : n.toNat ≠ 65535 := fun he => h (UInt16.toNat_inj.mp he)
  have hlast : (65535 : UInt16).toNat = 65535 := rfl
  exact UInt16.lt_iff_toNat_lt.mpr (by omega)

theorem Progress.run_stepwise (lines : List (List UInt8)) (p : Progress) (number : Nat)
    (hp : ∀ n, p.previous = some n → n < 65535)
    (hl : ∀ r ∈ (p.run number lines).filterMap LineOutcome.rule?, r.level < 65535) :
    Stepwise p.previous ((p.run number lines).filterMap LineOutcome.rule?) := by
  induction lines generalizing p number with
  | nil => exact .nil
  | cons line rest ih =>
    rw [run_cons] at hl ⊢
    rcases p.step_cases number line with
      ⟨_, he⟩ | ⟨r, _, ha, he⟩ | ⟨r, fault, _, _, he⟩ | ⟨fault, _, he⟩
    · rw [he] at hl ⊢
      exact ih p _ hp hl
    · rw [he] at hl ⊢
      obtain ⟨hr, hl⟩ := List.forall_mem_cons.mp hl
      refine .cons ha.first ?_ (ih ⟨some r.level, none⟩ _ ?_ hl)
      · intro n hn
        rw [← toNat_succ_of_lt (hp n hn)]
        exact UInt16.le_iff_toNat_le.mp (ha.next n hn)
      · intro n hn
        obtain rfl := Option.some.inj hn
        exact hr
    · rw [he] at hl ⊢
      exact ih (p.drop r.level) _ hp hl
    · rw [he] at hl ⊢
      exact ih (p.drop (Line.depth line)) _ hp hl

namespace RuleTable

theorem merge_stepwise {t : RuleTable} (source : List UInt8) (h : Stepwise none t.rules)
    (hl : ∀ r ∈ (t.merge source).1.rules, r.level < 65535) :
    Stepwise none (t.merge source).1.rules := by
  rw [rules_merge] at hl ⊢
  refine h.append ?_
  rw [Option.or_none]
  apply Progress.run_stepwise (Byte.lines source) ⟨t.rules.getLast?.map Rule.level, none⟩ 1
  · intro n hn
    obtain ⟨r, hr, rfl⟩ := Option.map_eq_some_iff.mp hn
    exact hl r (List.mem_append_left _ (List.mem_of_getLast? hr))
  · exact fun r hr => hl r (List.mem_append_right _ hr)

theorem Reachable.stepwise {t : RuleTable} (h : Reachable t)
    (hl : ∀ r ∈ t.rules, r.level < 65535) : Stepwise none t.rules := by
  induction h with
  | empty => exact .nil
  | merge source _ ih =>
    exact merge_stepwise source (ih fun r hr => hl r (List.mem_append_left _ hr)) hl

/-- Index `j` lies behind the rule at `i` and holds a rule that is no deeper, or ends the table. -/
def Closes (t : RuleTable) (i j : Nat) : Prop :=
  i < j ∧ (j = t.size ∨ ∃ r s, t.rules[i]? = some r ∧ t.rules[j]? = some s ∧ s.level ≤ r.level)

theorem spanEnd_closes (t : RuleTable) {i : Nat} (hi : i < t.size) : t.Closes i (t.spanEnd i) := by
  have h := t.spanEnd_isEnd hi
  refine ⟨h.later, ?_⟩
  by_cases he : t.spanEnd i = t.size
  · exact Or.inl he
  · have hs : t.spanEnd i < t.rules.length := Nat.lt_of_le_of_ne h.bounded he
    have hr := List.getElem?_eq_getElem hi
    have hs := List.getElem?_eq_getElem hs
    have hstop := h.stop
    rw [levelAt_of_some hr, levelAt_of_some hs] at hstop
    exact Or.inr ⟨_, _, hr, hs, UInt16.le_iff_toNat_le.mpr hstop⟩

theorem spanEnd_le_of_closes (t : RuleTable) {i j : Nat} (hc : t.Closes i j) :
    t.spanEnd i ≤ j := by
  obtain ⟨hlt, rfl | ⟨r, s, hr, hs, hle⟩⟩ := hc
  · exact t.spanEnd_le_size i
  · have hi : i < t.size := (List.getElem?_eq_some_iff.mp hr).1
    apply Nat.le_of_not_lt
    intro hj
    have hdeep := (t.spanEnd_isEnd hi).deeper j hlt hj
    rw [levelAt_of_some hr, levelAt_of_some hs] at hdeep
    exact Nat.not_le.mpr hdeep (UInt16.le_iff_toNat_le.mp hle)

/-- Every table built by merges is a forest in preorder, cut into spans. -/
theorem levels_and_spans {t : RuleTable} (h : Reachable t)
    (hl : ∀ r ∈ t.rules, r.level ≠ 65535) :
    (∀ r, t.rules[0]? = some r → r.level = 0) ∧
    (∀ i r s, t.rules[i]? = some r → t.rules[i + 1]? = some s →
      s.level.toNat ≤ r.level.toNat + 1) ∧
    t.spanEnds.length = t.rules.length ∧
    (∀ i < t.rules.length, IsLeast {j | t.Closes i j} (t.spanEnd i)) ∧
    ∀ i, t.rules.length ≤ i → t.spanEnd i = t.rules.length := by
  have hstep : Stepwise none t.rules := h.stepwise fun r hr => lt_of_ne_last (hl r hr)
  refine ⟨?_, ?_, t.length_spanEnds, ?_, fun i hi => t.spanEnd_past hi⟩
  · intro r hr
    have := hstep.head
    rw [levelAt_of_some hr] at this
    exact UInt16.toNat_inj.mp this
  · intro i r s hr hs
    have := hstep.succ i
    rwa [levelAt_of_some hr, levelAt_of_some hs] at this
  · intro i hi
    exact ⟨t.spanEnd_closes hi, fun j hj => t.spanEnd_le_of_closes hj⟩

theorem levels_and_spans_two_sources :
    Reachable twoSources ∧ (∀ r ∈ twoSources.rules, r.level ≠ 65535) ∧
      twoSources.rules.map Rule.level = [0, 1, 2, 1, 2, 0] ∧ twoSources.spanEnd 1 = 3 ∧
      IsLeast {j | twoSources.Closes 1 j} 3 := by
  have hl : ∀ r ∈ twoSources.rules, r.level ≠ 65535 := fun r hr =>
    UInt16.ne_of_lt (levels_twoSources r hr)
  have hspan : twoSources.spanEnd 1 = 3 := by decide +kernel
  refine ⟨reachable_twoSources, hl, by decide +kernel, hspan, ?_⟩
  have := (levels_and_spans reachable_twoSources hl).2.2.2.1 1 (by decide +kernel)
  rwa [hspan] at this

end RuleTable

end ContentType
