import ContentType.Proofs.RuleTable.Forest
import ContentType.Proofs.RuleTable.Levels
import ContentType.RuleTable.Search

namespace ContentType
open ContentType.Span

theorem Rule.title_eq_some_iff {r : Rule} {title : String} :
    r.title? = some title ↔ title = Text.trim r.description ∧ title ≠ "" := by
  unfold title?
  dsimp only
  split
  · rename_i h
    simp only [reduceCtorEq, false_iff, not_and, not_not]
    exact fun he => he.trans h
  · rename_i h
    simp only [Option.some.injEq]
    exact ⟨fun he => ⟨he.symm, he ▸ h⟩, fun he => he.1.symm⟩

namespace RuleTable

def Holds (t : RuleTable) (buffer : List UInt8) (i : Nat) : Prop :=
  ∃ r, t.rules[i]? = some r ∧ r.evaluate buffer = true

/-- All strict ancestors of a rule hold. -/
def Reached (t : RuleTable) (buffer : List UInt8) (i : Nat) : Prop :=
  ∀ a, t.Ancestor a i → t.Holds buffer a

def Active (t : RuleTable) (buffer : List UInt8) (i : Nat) : Prop :=
  t.Holds buffer i ∧ t.Reached buffer i

/-- An active rule whose description, without blanks at its ends, is not empty. -/
def Named (t : RuleTable) (buffer : List UInt8) (i : Nat) (title : String) : Prop :=
  t.Active buffer i ∧ ∃ r, t.rules[i]? = some r ∧ title = Text.trim r.description ∧ title ≠ ""

section Reach

variable {t : RuleTable} {buffer : List UInt8} {i : Nat}

theorem holds_iff {r : Rule} (hr : t.rules[i]? = some r) :
    t.Holds buffer i ↔ r.evaluate buffer = true := by
  simp [Holds, hr]

theorem reached_of_level_zero (h : levelAt t.rules i = 0) : t.Reached buffer i := by
  intro a ha
  obtain ⟨hlt, hi⟩ := ancestor_iff.mp ha
  have hsize := Nat.lt_of_lt_of_le hi (t.spanEnd_le_size a)
  have := (t.spanEnd_isEnd (Nat.lt_trans hlt hsize)).deeper i hlt hi
  omega

/-- After a rule that holds, its first continuation or whatever follows it is reached. -/
theorem reached_succ (hr : t.Reached buffer i) (hh : t.Holds buffer i) :
    t.Reached buffer (i + 1) := by
  intro a ha
  obtain ⟨hlt, hi⟩ := ancestor_iff.mp ha
  rcases Nat.lt_or_eq_of_le (Nat.le_of_lt_succ hlt) with hlt | rfl
  · exact hr a (ancestor_iff.mpr ⟨hlt, by omega⟩)
  · exact hh

/-- Past the span of a reached rule the next rule is reached, whether the first one holds or not. -/
theorem reached_spanEnd (hi : i < t.size) (hr : t.Reached buffer i) :
    t.Reached buffer (t.spanEnd i) := by
  intro a ha
  obtain ⟨hlt, hend⟩ := ancestor_iff.mp ha
  have := t.lt_spanEnd hi
  rcases Nat.lt_trichotomy a i with h | rfl | h
  · exact hr a (ancestor_iff.mpr ⟨h, by omega⟩)
  · omega
  · have := spanEnd_le h hlt; omega

/-- A continuation of a reached rule that holds is reached. -/
theorem reached_child {p : Nat} (hr : t.Reached buffer p) (hh : t.Holds buffer p)
    (hp : t.Parent p i) : t.Reached buffer i := by
  intro a ha
  rcases Relation.TransGen.tail'_iff.mp ha with ⟨q, haq, hq⟩
  obtain rfl := hq.unique hp
  rcases Relation.reflTransGen_iff_eq_or_transGen.mp haq with rfl | haq
  · exact hh
  · exact hr a haq

theorem not_reached_below {k : Nat} (hh : ¬ t.Holds buffer i) (hik : i < k)
    (hk : k < t.spanEnd i) : ¬ t.Reached buffer k :=
  fun hr => hh (hr i (ancestor_iff.mpr ⟨hik, hk⟩))

/-- A rule that fails has no name, nor has anything below it. -/
theorem not_named_of_fails {j : Nat} {title : String} (hh : ¬ t.Holds buffer i) (hij : i ≤ j)
    (hj : j < t.spanEnd i) : ¬ t.Named buffer j title := by
  intro hn
  rcases Nat.lt_or_eq_of_le hij with hij | rfl
  · exact not_reached_below hh hij hj hn.1.2
  · exact hh hn.1.1

end Reach

/-- The rules evaluated between two indices are the reached ones, each once and in order. -/
structure Visits (t : RuleTable) (buffer : List UInt8) (lo hi : Nat) (visited : List Nat)
    (evaluated : List Rule) : Prop where
  rules : evaluated.map some = visited.map (t.rules[·]?)
  ordered : visited.Pairwise (· < ·)
  mem : ∀ i, i ∈ visited ↔ lo ≤ i ∧ i < hi ∧ t.Reached buffer i

/-- The answer after the rules between two indices: the name of the last named one, or else the
earlier answer. -/
inductive Settles (t : RuleTable) (buffer : List UInt8) (lo hi : Nat) (earlier : Option String) :
    Option String → Prop
  | named {i : Nat} {title : String} (hlo : lo ≤ i) (hhi : i < hi)
      (hn : t.Named buffer i title) (last : ∀ j s, i < j → j < hi → ¬ t.Named buffer j s) :
      Settles t buffer lo hi earlier (some title)
  | kept (unnamed : ∀ j s, lo ≤ j → j < hi → ¬ t.Named buffer j s) :
      Settles t buffer lo hi earlier earlier

section Steps

variable {t : RuleTable} {buffer : List UInt8} {lo mid hi i : Nat} {r : Rule}
variable {visited more : List Nat} {evaluated others : List Rule}
variable {earlier answer : Option String}

theorem Visits.nil (h : hi ≤ lo) : t.Visits buffer lo hi [] [] :=
  ⟨rfl, .nil, fun i => by simp; omega⟩

/-- One more rule in front, none of those skipped after it being reached. -/
theorem Visits.cons (hr : t.rules[i]? = some r) (hlt : i < hi) (hreach : t.Reached buffer i)
    (hmid : i < mid) (hskip : ∀ k, i < k → k < mid → ¬ t.Reached buffer k)
    (h : t.Visits buffer mid hi visited evaluated) :
    t.Visits buffer i hi (i :: visited) (r :: evaluated) := by
  refine ⟨by simp [hr, h.rules], ?_, ?_⟩
  · refine List.pairwise_cons.mpr ⟨fun k hk => ?_, h.ordered⟩
    exact Nat.lt_of_lt_of_le hmid ((h.mem k).mp hk).1
  · intro k
    rw [List.mem_cons, h.mem]
    constructor
    · intro hx
      rcases hx with rfl | ⟨hk, hk', hreach'⟩
      · exact ⟨Nat.le_refl k, hlt, hreach⟩
      · exact ⟨by omega, hk', hreach'⟩
    · intro hx
      obtain ⟨hk, hk', hreach'⟩ := hx
      rcases Nat.lt_or_eq_of_le hk with hlt | rfl
      · exact Or.inr ⟨Nat.le_of_not_lt fun hm => hskip k hlt hm hreach', hk', hreach'⟩
      · exact Or.inl rfl

theorem Visits.append (h : t.Visits buffer lo mid visited evaluated)
    (hm : t.Visits buffer mid hi more others) (hlo : lo ≤ mid) (hhi : mid ≤ hi) :
    t.Visits buffer lo hi (visited ++ more) (evaluated ++ others) := by
  refine ⟨by simp [h.rules, hm.rules], ?_, ?_⟩
  · refine List.pairwise_append.mpr ⟨h.ordered, hm.ordered, fun i hi j hj => ?_⟩
    exact Nat.lt_of_lt_of_le ((h.mem i).mp hi).2.1 ((hm.mem j).mp hj).1
  · intro i
    rw [List.mem_append, h.mem, hm.mem]
    constructor
    · intro hx
      rcases hx with ⟨h1, h2, h3⟩ | ⟨h1, h2, h3⟩
      · exact ⟨h1, by omega, h3⟩
      · exact ⟨by omega, h2, h3⟩
    · intro hx
      obtain ⟨h1, h2, h3⟩ := hx
      by_cases hi : i < mid
      · exact Or.inl ⟨h1, hi, h3⟩
      · exact Or.inr ⟨by omega, h2, h3⟩

/-- A rule that holds gives its name to the answer until a later one does. -/
theorem Settles.hold (hr : t.rules[i]? = some r) (hhi : i < hi) (ha : t.Active buffer i)
    (h : t.Settles buffer (i + 1) hi (r.title?.or earlier) answer) :
    t.Settles buffer i hi earlier answer := by
  cases h with
  | named hlo hk hn last => exact .named (by omega) hk hn last
  | kept unnamed =>
    cases htitle : r.title? with
    | some title =>
      have hn : t.Named buffer i title := ⟨ha, r, hr, Rule.title_eq_some_iff.mp htitle⟩
      exact .named (Nat.le_refl i) hhi hn fun j s hj => unnamed j s hj
    | none =>
      refine .kept fun j s hj hj' hn => ?_
      rcases Nat.lt_or_eq_of_le hj with hlt | rfl
      · exact unnamed j s hlt hj' hn
      · obtain ⟨_, r', hr', hs⟩ := hn
        obtain rfl := Option.some.inj (hr.symm.trans hr')
        rw [Rule.title_eq_some_iff.mpr hs] at htitle
        cases htitle

theorem Settles.fail (hh : ¬ t.Holds buffer i)
    (hsize : i < t.size) (h : t.Settles buffer (t.spanEnd i) hi earlier answer) :
    t.Settles buffer i hi earlier answer := by
  have hlt := t.lt_spanEnd hsize
  cases h with
  | named hlo hk hn last => exact .named (by omega) hk hn last
  | kept unnamed =>
    refine .kept fun j s hj hj' => ?_
    by_cases hspan : j < t.spanEnd i
    · exact not_named_of_fails hh hj hspan
    · exact unnamed j s (by omega) hj'

end Steps

/-- A walk between two indices, told without its jumps. -/
structure Walked (t : RuleTable) (buffer : List UInt8) (lo hi : Nat) (earlier : Option String)
    (trace : Trace) : Prop where
  visits : ∃ visited, t.Visits buffer lo hi visited trace.evaluated
  passed : trace.passed = []
  settles : t.Settles buffer lo hi earlier trace.answer

/-- A table starts at the top, and what follows a rule is no deeper than what the search makes
eligible when the rule holds. -/
structure Eligible (t : RuleTable) : Prop where
  head : levelAt t.rules 0 = 0
  next : ∀ i r, t.rules[i]? = some r → levelAt t.rules (i + 1) ≤ (r.level + 1).toNat

theorem eligible_of_stepwise {t : RuleTable} (hs : Stepwise none t.rules)
    (hl : ∀ r ∈ t.rules, r.level < 65535) : t.Eligible := by
  refine ⟨hs.head, fun i r hr => ?_⟩
  rw [toNat_succ_of_lt (hl r (List.mem_of_getElem? hr)), ← levelAt_of_some hr]
  exact hs.succ i

section Walk

variable {t : RuleTable} {buffer : List UInt8} {hi i : Nat} {r : Rule}
variable {earlier : Option String} {trace : Trace}

theorem Walked.hold (hr : t.rules[i]? = some r) (hlt : i < hi) (ha : t.Active buffer i)
    (h : t.Walked buffer (i + 1) hi (r.title?.or earlier) trace) :
    t.Walked buffer i hi earlier (trace.evaluating r) := by
  obtain ⟨visited, hv⟩ := h.visits
  have hskip : ∀ k, i < k → k < i + 1 → ¬ t.Reached buffer k := by omega
  exact ⟨⟨_, hv.cons hr hlt ha.2 (Nat.lt_succ_self i) hskip⟩, h.passed, h.settles.hold hr hlt ha⟩

theorem Walked.fail (hr : t.rules[i]? = some r) (hlt : i < hi) (hreach : t.Reached buffer i)
    (hh : ¬ t.Holds buffer i) (h : t.Walked buffer (t.spanEnd i) hi earlier trace) :
    t.Walked buffer i hi earlier (trace.evaluating r) := by
  have hsize : i < t.size := (List.getElem?_eq_some_iff.mp hr).1
  obtain ⟨visited, hv⟩ := h.visits
  exact ⟨⟨_, hv.cons hr hlt hreach (t.lt_spanEnd hsize) fun k => not_reached_below hh⟩,
    h.passed, h.settles.fail hh hsize⟩

/-- The loop invariant: the rule at `i` is reached and no deeper than the eligible level. So no rule
is passed over. -/
theorem walk_walked (ht : t.Eligible) (stop : Nat) (within : stop ≤ t.rules.length)
    (eligible : UInt16) (earlier : Option String) (i : Nat) (hreach : t.Reached buffer i)
    (he : levelAt t.rules i ≤ eligible.toNat) :
    t.Walked buffer i stop earlier (t.walk buffer stop within eligible earlier i) := by
  fun_induction t.walk buffer stop within eligible earlier i with
  | case1 eligible earlier i hlt bound r hskip ih =>
    have hr : t.rules[i]? = some r := List.getElem?_eq_getElem bound
    -- The rule would be too deep, against the invariant.
    rw [levelAt_of_some hr] at he
    exact absurd (UInt16.lt_iff_toNat_lt.mp hskip) (Nat.not_lt.mpr he)
  | case2 eligible earlier i hlt bound r hskip hholds ih =>
    have hr : t.rules[i]? = some r := List.getElem?_eq_getElem bound
    have hh : t.Holds buffer i := (holds_iff hr).mpr hholds
    exact (ih (reached_succ hreach hh) (ht.next i r hr)).hold hr hlt ⟨hh, hreach⟩
  | case3 eligible earlier i hlt bound r hskip hfails ih =>
    have hr : t.rules[i]? = some r := List.getElem?_eq_getElem bound
    have hh : ¬ t.Holds buffer i := fun h => hfails ((holds_iff hr).mp h)
    have hnext : levelAt t.rules (t.spanEnd i) ≤ r.level.toNat := by
      rw [← levelAt_of_some hr]
      exact (t.spanEnd_isEnd bound).stop
    exact (ih (reached_spanEnd bound hreach) hnext).fail hr hlt hreach hh
  | case4 eligible earlier i hdone =>
    have hle : stop ≤ i := Nat.le_of_not_lt hdone
    exact ⟨⟨[], .nil hle⟩, rfl, .kept fun j _ hj hj' => by omega⟩

end Walk

/-- What a search from an index on comes to: no rule has a name, or the first tree with a named rule
is walked to its end and its last name taken. -/
inductive Found (t : RuleTable) (buffer : List UInt8) (lo : Nat) : Trace → Prop
  | nothing {visited : List Nat} {evaluated : List Rule}
      (visits : t.Visits buffer lo t.size visited evaluated)
      (unnamed : ∀ j s, lo ≤ j → ¬ t.Named buffer j s) : Found t buffer lo ⟨evaluated, [], none⟩
  | tree {root i : Nat} {title : String} {visited : List Nat} {evaluated : List Rule}
      (top : t.TopLevel root) (hlo : lo ≤ root)
      (visits : t.Visits buffer lo (t.spanEnd root) visited evaluated)
      (before : ∀ j s, lo ≤ j → j < root → ¬ t.Named buffer j s)
      (hi : root ≤ i) (hend : i < t.spanEnd root) (named : t.Named buffer i title)
      (last : ∀ j s, i < j → j < t.spanEnd root → ¬ t.Named buffer j s) :
      Found t buffer lo ⟨evaluated, [], some title⟩

section Tree

variable {t : RuleTable} {buffer : List UInt8} {lo mid : Nat} {r : Rule} {trace : Trace}

/-- Rules in front of a search, evaluated in order and without a name, belong to it. -/
theorem Found.prepend {visited : List Nat} {evaluated : List Rule}
    (hv : t.Visits buffer lo mid visited evaluated) (hlo : lo ≤ mid) (hmid : mid ≤ t.size)
    (hu : ∀ j s, lo ≤ j → j < mid → ¬ t.Named buffer j s) (h : t.Found buffer mid trace) :
    t.Found buffer lo ⟨evaluated ++ trace.evaluated, trace.passed, trace.answer⟩ := by
  cases h with
  | nothing visits unnamed =>
    refine .nothing (hv.append visits hlo hmid) fun j s hj => ?_
    by_cases hjm : j < mid
    · exact hu j s hj hjm
    · exact unnamed j s (by omega)
  | @tree root i title more others top hroot visits before hi hend named last =>
    have hle : mid ≤ t.spanEnd root := by omega
    refine .tree top (by omega) (hv.append visits hlo hle) (fun j s hj hj' => ?_) hi hend named last
    by_cases hjm : j < mid
    · exact hu j s hj hjm
    · exact before j s (by omega) hj'

theorem Walked.found {root : Nat} {title : String}
    (h : t.Walked buffer root (t.spanEnd root) none trace) (htop : t.TopLevel root)
    (ha : trace.answer = some title) : t.Found buffer root trace := by
  obtain ⟨⟨visited, hv⟩, hpassed, hsettles⟩ := h
  obtain ⟨evaluated, passed, answer⟩ := trace
  dsimp only at hv hpassed hsettles ha
  subst hpassed ha
  cases hsettles with
  | named hi hend hn last =>
    exact .tree htop (Nat.le_refl root) hv (fun j s hj hj' => by omega) hi hend hn last

theorem Walked.unnamed {root : Nat} (h : t.Walked buffer root (t.spanEnd root) none trace)
    (ha : trace.answer = none) : ∀ j s, root ≤ j → j < t.spanEnd root → ¬ t.Named buffer j s := by
  have hsettles := h.settles
  rw [ha] at hsettles
  cases hsettles with
  | kept unnamed => exact unnamed

/-- Walking the whole tree of a top-level rule that holds. -/
theorem walked_tree (ht : t.Eligible) {top : Nat} (hr : t.rules[top]? = some r)
    (hsize : top < t.size) (htop : levelAt t.rules top = 0) (hh : t.Holds buffer top) :
    t.Walked buffer top (t.spanEnd top) none
      ((t.walk buffer (t.spanEnd top) (t.spanEnd_le_size top) 1 r.title? (top + 1)).evaluating
        r) := by
  have hreach : t.Reached buffer top := reached_of_level_zero htop
  have hlevel : r.level = 0 := UInt16.toNat_inj.mp ((levelAt_of_some hr).symm.trans htop)
  have hnext : levelAt t.rules (top + 1) ≤ (1 : UInt16).toNat := by
    have := ht.next top r hr
    rwa [hlevel] at this
  have hw := walk_walked ht (t.spanEnd top) (t.spanEnd_le_size top) 1 r.title? (top + 1)
    (reached_succ hreach hh) hnext
  rw [← Option.or_none (o := r.title?)] at hw ⊢
  exact hw.hold hr (t.lt_spanEnd hsize) ⟨hh, hreach⟩

theorem searchFrom_found (ht : t.Eligible) (top : Nat) (hsize : top ≤ t.size)
    (htop : levelAt t.rules top = 0) :
    t.Found buffer top (t.searchFrom buffer top) := by
  fun_induction t.searchFrom buffer top with
  | case1 top hlt r hholds chain title hanswer =>
    have hr : t.rules[top]? = some r := List.getElem?_eq_getElem hlt
    have hw := walked_tree ht hr hlt htop ((holds_iff hr).mpr hholds)
    exact hw.found (topLevel_iff.mpr ⟨hlt, htop⟩) hanswer
  | case2 top hlt r hholds chain hanswer ih =>
    have hr : t.rules[top]? = some r := List.getElem?_eq_getElem hlt
    have hw := walked_tree ht hr hlt htop ((holds_iff hr).mpr hholds)
    obtain ⟨visited, hv⟩ := hw.visits
    have hend := t.spanEnd_isEnd hlt
    have hrest := ih hend.bounded (Nat.le_zero.mp (htop ▸ hend.stop))
    have := Found.prepend hv (Nat.le_of_lt hend.later) hend.bounded (hw.unnamed hanswer) hrest
    have hpassed : chain.passed = [] := hw.passed
    simpa only [Trace.followedBy, hpassed, List.nil_append] using this
  | case3 top hlt r hfails ih =>
    have hr : t.rules[top]? = some r := List.getElem?_eq_getElem hlt
    have hh : ¬ t.Holds buffer top := fun h => hfails ((holds_iff hr).mp h)
    have hend := t.spanEnd_isEnd hlt
    have hrest := ih hend.bounded (Nat.le_zero.mp (htop ▸ hend.stop))
    have hreach : t.Reached buffer top := reached_of_level_zero htop
    have hv : t.Visits buffer top (t.spanEnd top) [top] [r] :=
      (Visits.nil (Nat.le_refl _)).cons hr hend.later hreach hend.later
        fun k => not_reached_below hh
    exact Found.prepend hv (Nat.le_of_lt hend.later) hend.bounded
      (fun j s => not_named_of_fails hh) hrest
  | case4 top hdone =>
    have htop' : top = t.size := Nat.le_antisymm hsize (Nat.le_of_not_lt hdone)
    refine .nothing (.nil (by omega)) fun j s hj hn => ?_
    obtain ⟨_, r, hr, _⟩ := hn
    have := (List.getElem?_eq_some_iff.mp hr).1
    have hsize' : t.size = t.rules.length := rfl
    omega

end Tree

end RuleTable

end ContentType
