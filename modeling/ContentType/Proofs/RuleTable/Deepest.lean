import ContentType.Proofs.RuleTable.Answer
import Mathlib.Data.List.Chain

namespace ContentType
open ContentType.Span

/-- A rule of the second level may stand right behind one of the first. -/
def Follows (n m : UInt16) : Prop :=
  m ≤ n + 1

/-- The level in front of what is read next. Where there is none the last level stands for it, as
only the top follows that. -/
def Progress.level (p : Progress) : UInt16 :=
  p.previous.getD 65535

theorem Progress.Admits.follows {p : Progress} {level : UInt16} (h : p.Admits level) :
    Follows p.level level := by
  unfold Progress.level
  cases hp : p.previous with
  | none => exact h.first hp ▸ UInt16.zero_le
  | some n => exact h.next n hp

theorem Progress.run_follows (lines : List (List UInt8)) (p : Progress) (number : Nat) :
    (p.level :: ((p.run number lines).filterMap LineOutcome.rule?).map Rule.level).IsChain
      Follows := by
  induction lines generalizing p number with
  | nil => exact .singleton _
  | cons line rest ih =>
    rw [run_cons]
    rcases p.step_cases number line with
      ⟨_, he⟩ | ⟨r, _, ha, he⟩ | ⟨r, fault, _, _, he⟩ | ⟨fault, _, he⟩
    · rw [he]
      exact ih p _
    · rw [he]
      exact .cons_cons ha.follows (ih ⟨some r.level, none⟩ _)
    · rw [he]
      exact ih (p.drop r.level) _
    · rw [he]
      exact ih (p.drop (Line.depth line)) _

namespace RuleTable

theorem follows_append {rules more : List Rule}
    (h : (65535 :: rules.map Rule.level).IsChain Follows)
    (hm : (Progress.level ⟨rules.getLast?.map Rule.level, none⟩ ::
      more.map Rule.level).IsChain Follows) :
    (65535 :: (rules ++ more).map Rule.level).IsChain Follows := by
  rcases List.eq_nil_or_concat rules with rfl | ⟨front, r, rfl⟩
  · exact hm
  · rw [List.concat_eq_append, List.getLast?_concat] at hm
    rw [List.concat_eq_append, List.map_append] at h
    rw [List.concat_eq_append, List.append_assoc, List.map_append]
    exact List.isChain_cons_split.mpr ⟨h, hm⟩

variable {t : RuleTable}

theorem Reachable.follows (h : Reachable t) :
    (65535 :: t.rules.map Rule.level).IsChain Follows := by
  induction h with
  | empty => exact .singleton _
  | merge source _ ih => exact follows_append ih (Progress.run_follows (Byte.lines source) _ 1)

theorem Reachable.eligible (h : Reachable t) : t.Eligible := by
  have hchain := h.follows
  constructor
  · cases ht : t.rules with
    | nil => rfl
    | cons r rules =>
      rw [ht] at hchain
      have hfirst : r.level ≤ 65535 + 1 := (List.isChain_cons_cons.mp hchain).1
      rw [levelAt_of_some rfl, UInt16.le_zero_iff.mp hfirst]
      rfl
  · intro i r hr
    obtain ⟨hi, rfl⟩ := List.getElem?_eq_some_iff.mp hr
    by_cases hnext : i + 1 < t.rules.length
    · rw [levelAt_of_some (List.getElem?_eq_getElem hnext)]
      have hlevel := List.isChain_iff_getElem.mp hchain (i + 1) (by simpa using hnext)
      simp only [List.getElem_cons_succ, List.getElem_map] at hlevel
      exact UInt16.le_iff_toNat_le.mp hlevel
    · rw [levelAt_past (Nat.le_of_not_lt hnext)]
      exact Nat.zero_le _

theorem Reachable.found (h : Reachable t) (buffer : List UInt8) :
    t.Found buffer 0 (t.search buffer) :=
  searchFrom_found h.eligible 0 (Nat.zero_le _) h.eligible.head

/-- A search passes over no rule. -/
theorem search_passed (h : Reachable t) (buffer : List UInt8) : (t.search buffer).passed = [] := by
  have hf := h.found buffer
  generalize t.search buffer = trace at hf
  cases hf <;> rfl

/-- Where the rules give no verdict, no active rule has a name. -/
theorem unnamed_of_find (h : Reachable t) {buffer : List UInt8} (hfind : t.find buffer = none)
    (i : Nat) (title : String) : ¬ t.Named buffer i title := by
  have hf := h.found buffer
  have ha : (t.search buffer).answer = none := Option.map_eq_none_iff.mp hfind
  generalize t.search buffer = trace at hf ha
  cases hf with
  | nothing _ unnamed => exact unnamed i title (Nat.zero_le i)
  | tree => cases ha

end RuleTable

end ContentType
