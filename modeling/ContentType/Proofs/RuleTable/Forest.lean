import ContentType.RuleTable.Basic
import Mathlib.Logic.Relation

namespace ContentType
open ContentType.Span

/-- The nearest position before `i` at a smaller level. Positions without a level do not count. -/
structure Nearest (level : Nat → Option Nat) (p i : Nat) : Prop where
  earlier : p < i
  smaller : ∃ m n, level p = some m ∧ level i = some n ∧ m < n
  nearest : ∀ k, p < k → k < i → ∀ m n, level k = some m → level i = some n → n ≤ m

theorem Nearest.unique {level : Nat → Option Nat} {p q i : Nat} (hp : Nearest level p i)
    (hq : Nearest level q i) : p = q := by
  obtain ⟨m, n, hm, hn, hlt⟩ := hp.smaller
  obtain ⟨m', n', hm', hn', hlt'⟩ := hq.smaller
  have hpq := fun h => hp.nearest q h hq.earlier m' n hm' hn
  have hqp := fun h => hq.nearest p h hp.earlier m n' hm hn'
  have he : n = n' := Option.some.inj (hn.symm.trans hn')
  rcases Nat.lt_trichotomy p q with h | h | h
  · have := hpq h; omega
  · exact h
  · have := hqp h; omega

namespace RuleTable

def level? (t : RuleTable) (i : Nat) : Option Nat :=
  t.rules[i]?.map (fun r => r.level.toNat)

def Parent (t : RuleTable) (p i : Nat) : Prop :=
  Nearest t.level? p i

def Ancestor (t : RuleTable) (a i : Nat) : Prop :=
  Relation.TransGen t.Parent a i

def TopLevel (t : RuleTable) (root : Nat) : Prop :=
  t.level? root = some 0

/-- The tree of a top-level rule: the rule itself and all that has it as an ancestor. -/
def InTree (t : RuleTable) (root i : Nat) : Prop :=
  t.TopLevel root ∧ Relation.ReflTransGen t.Parent root i

theorem level_of_rule {t : RuleTable} {i : Nat} {r : Rule} (hr : t.rules[i]? = some r) :
    t.level? i = some r.level.toNat := by
  simp [level?, hr]

theorem level_of_lt {t : RuleTable} {i : Nat} (hi : i < t.size) :
    t.level? i = some (levelAt t.rules i) := by
  have hr := List.getElem?_eq_getElem hi
  rw [level_of_rule hr, levelAt_of_some hr]

theorem lt_of_level {t : RuleTable} {i n : Nat} (h : t.level? i = some n) : i < t.size := by
  obtain ⟨r, hr, _⟩ := Option.map_eq_some_iff.mp h
  exact (List.getElem?_eq_some_iff.mp hr).1

theorem level_iff {t : RuleTable} {i n : Nat} :
    t.level? i = some n ↔ i < t.size ∧ levelAt t.rules i = n := by
  constructor
  · intro h
    have hi := lt_of_level h
    rw [level_of_lt hi] at h
    exact ⟨hi, Option.some.inj h⟩
  · intro hx
    obtain ⟨hi, rfl⟩ := hx
    exact level_of_lt hi

theorem parent_iff {t : RuleTable} {p i : Nat} :
    t.Parent p i ↔ p < i ∧ i < t.size ∧ levelAt t.rules p < levelAt t.rules i ∧
      ∀ k, p < k → k < i → levelAt t.rules i ≤ levelAt t.rules k := by
  constructor
  · intro hx
    obtain ⟨hlt, ⟨m, n, hm, hn, hmn⟩, hnear⟩ := hx
    obtain ⟨hi, rfl⟩ := level_iff.mp hn
    obtain ⟨_, rfl⟩ := level_iff.mp hm
    exact ⟨hlt, hi, hmn, fun k hk hk' => hnear k hk hk' _ _ (level_of_lt (Nat.lt_trans hk' hi)) hn⟩
  · intro hx
    obtain ⟨hlt, hi, hmn, hnear⟩ := hx
    refine ⟨hlt, ⟨_, _, level_of_lt (Nat.lt_trans hlt hi), level_of_lt hi, hmn⟩, ?_⟩
    intro k hk hk' m n hm hn
    obtain ⟨_, rfl⟩ := level_iff.mp hm
    obtain ⟨_, rfl⟩ := level_iff.mp hn
    exact hnear k hk hk'

/-- A rule with a shallower one before it has a parent no earlier than that one. -/
theorem exists_parent {t : RuleTable} {a i : Nat} (ha : a < i) (hi : i < t.size)
    (hl : levelAt t.rules a < levelAt t.rules i) : ∃ p, a ≤ p ∧ t.Parent p i := by
  by_cases h : ∃ k, a < k ∧ k < i ∧ levelAt t.rules k < levelAt t.rules i
  · -- A shallower rule in between is nearer to `i`: look behind that one.
    obtain ⟨k, hak, hki, hk⟩ := h
    obtain ⟨p, hp, hpar⟩ := exists_parent hki hi hk
    exact ⟨p, by omega, hpar⟩
  · refine ⟨a, Nat.le_refl a, parent_iff.mpr ⟨ha, hi, hl, ?_⟩⟩
    intro k hk hk'
    exact Nat.le_of_not_lt fun hlt => h ⟨k, hk, hk', hlt⟩
termination_by i - a

theorem Parent.lt_spanEnd {t : RuleTable} {p i : Nat} (h : t.Parent p i) : i < t.spanEnd p := by
  obtain ⟨hlt, hi, hl, hnear⟩ := parent_iff.mp h
  have hend := t.spanEnd_isEnd (Nat.lt_trans hlt hi)
  apply Nat.lt_of_not_le
  intro hle
  have hstop := hend.stop
  rcases Nat.lt_or_eq_of_le hle with hlt | he
  · have := hnear _ hend.later hlt; omega
  · rw [he] at hstop; omega

/-- Spans are nested. -/
theorem spanEnd_le {t : RuleTable} {a i : Nat} (ha : a < i) (hi : i < t.spanEnd a) :
    t.spanEnd i ≤ t.spanEnd a := by
  have hsize := Nat.lt_of_lt_of_le hi (t.spanEnd_le_size a)
  have hend := t.spanEnd_isEnd (Nat.lt_trans ha hsize)
  have hdeep := hend.deeper i ha hi
  have hstop := hend.stop
  apply Nat.le_of_not_lt
  intro hlt
  have := (t.spanEnd_isEnd hsize).deeper _ hi hlt
  omega

/-- The rules below a rule are those of its span. -/
theorem ancestor_iff {t : RuleTable} {a i : Nat} : t.Ancestor a i ↔ a < i ∧ i < t.spanEnd a := by
  constructor
  · intro h
    induction h with
    | single hp => exact ⟨(parent_iff.mp hp).1, hp.lt_spanEnd⟩
    | tail _ hp ih =>
      exact ⟨Nat.lt_trans ih.1 (parent_iff.mp hp).1,
        Nat.lt_of_lt_of_le hp.lt_spanEnd (spanEnd_le ih.1 ih.2)⟩
  · intro ⟨ha, hi⟩
    induction i using Nat.strongRecOn with
    | _ i ih =>
      have hsize := Nat.lt_of_lt_of_le hi (t.spanEnd_le_size a)
      have hdeep := (t.spanEnd_isEnd (Nat.lt_trans ha hsize)).deeper i ha hi
      obtain ⟨p, hap, hp⟩ := exists_parent ha hsize hdeep
      have hlt := (parent_iff.mp hp).1
      rcases Nat.lt_or_eq_of_le hap with hap | rfl
      · exact (ih p hlt hap (Nat.lt_trans hlt hi)).tail hp
      · exact .single hp

theorem topLevel_iff {t : RuleTable} {root : Nat} :
    t.TopLevel root ↔ root < t.size ∧ levelAt t.rules root = 0 :=
  level_iff

/-- No span goes past a top-level rule that follows it. -/
theorem TopLevel.spanEnd_le {t : RuleTable} {root p : Nat} (h : t.TopLevel root) (hp : p < root) :
    t.spanEnd p ≤ root := by
  obtain ⟨hsize, hl⟩ := topLevel_iff.mp h
  apply Nat.le_of_not_lt
  intro hlt
  have := (t.spanEnd_isEnd (Nat.lt_trans hp hsize)).deeper root hp hlt
  omega

theorem inTree_iff {t : RuleTable} {root i : Nat} :
    t.InTree root i ↔ t.TopLevel root ∧ root ≤ i ∧ i < t.spanEnd root := by
  unfold InTree
  rw [Relation.reflTransGen_iff_eq_or_transGen]
  constructor
  · intro hx
    rcases hx with ⟨htop, rfl | h⟩
    · exact ⟨htop, Nat.le_refl i, t.lt_spanEnd (topLevel_iff.mp htop).1⟩
    · obtain ⟨hlt, hi⟩ := ancestor_iff.mp h
      exact ⟨htop, Nat.le_of_lt hlt, hi⟩
  · intro hx
    obtain ⟨htop, hle, hi⟩ := hx
    refine ⟨htop, ?_⟩
    rcases Nat.lt_or_eq_of_le hle with hlt | rfl
    · exact Or.inr (ancestor_iff.mpr ⟨hlt, hi⟩)
    · exact Or.inl rfl

/-- Every rule of a table that begins with a top-level rule is in a tree. -/
theorem exists_tree {t : RuleTable} (h : levelAt t.rules 0 = 0) {i : Nat} (hi : i < t.size) :
    ∃ root, t.InTree root i := by
  induction i using Nat.strongRecOn with
  | _ i ih =>
    by_cases hz : levelAt t.rules i = 0
    · exact ⟨i, topLevel_iff.mpr ⟨hi, hz⟩, .refl⟩
    · have hpos : 0 < i := Nat.pos_of_ne_zero fun he => hz (he ▸ h)
      obtain ⟨p, _, hp⟩ := exists_parent hpos hi (by omega)
      have hlt := (parent_iff.mp hp).1
      obtain ⟨root, htop, hpath⟩ := ih p hlt (Nat.lt_trans hlt hi)
      exact ⟨root, htop, hpath.tail hp⟩

end RuleTable

end ContentType
