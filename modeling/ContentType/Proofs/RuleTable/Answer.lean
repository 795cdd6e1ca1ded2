import ContentType.Proofs.RuleTable.Search

namespace ContentType
open ContentType.Span

namespace RuleTable

/-- The first top-level tree in table order that has a named rule. -/
structure FirstTree (t : RuleTable) (buffer : List UInt8) (root : Nat) : Prop where
  named : ∃ i title, t.InTree root i ∧ t.Named buffer i title
  first : ∀ other i title, t.InTree other i → t.Named buffer i title → root ≤ other

/-- The name of the last named rule in the first tree that has one. -/
def Answer (t : RuleTable) (buffer : List UInt8) (title : String) : Prop :=
  ∃ root i, t.FirstTree buffer root ∧ t.InTree root i ∧ t.Named buffer i title ∧
    ∀ j s, t.InTree root j → t.Named buffer j s → j ≤ i

section Uniqueness

variable {t : RuleTable} {buffer : List UInt8}

theorem FirstTree.unique {root other : Nat} (h : t.FirstTree buffer root)
    (h' : t.FirstTree buffer other) : root = other := by
  obtain ⟨i, title, hi, hn⟩ := h.named
  obtain ⟨j, s, hj, hm⟩ := h'.named
  exact Nat.le_antisymm (h.first other j s hj hm) (h'.first root i title hi hn)

theorem Named.unique {i : Nat} {title other : String} (h : t.Named buffer i title)
    (h' : t.Named buffer i other) : title = other := by
  obtain ⟨_, r, hr, rfl, _⟩ := h
  obtain ⟨_, s, hs, rfl, _⟩ := h'
  rw [Option.some.inj (hr.symm.trans hs)]

theorem Answer.unique {title other : String} (h : t.Answer buffer title)
    (h' : t.Answer buffer other) : title = other := by
  obtain ⟨root, i, hroot, hi, hn, hlast⟩ := h
  obtain ⟨root', j, hroot', hj, hm, hlast'⟩ := h'
  obtain rfl := hroot.unique hroot'
  obtain rfl := Nat.le_antisymm (hlast' i title hi hn) (hlast j other hj hm)
  exact hn.unique hm

end Uniqueness

section Reading

variable {t : RuleTable} {buffer : List UInt8} {root : Nat}

/-- Named rules before a top-level rule are those of earlier trees, so without any its tree is the
first one. -/
theorem firstTree_of_before (htop : t.TopLevel root)
    (before : ∀ j s, 0 ≤ j → j < root → ¬ t.Named buffer j s) {i : Nat} {title : String}
    (hi : root ≤ i) (hend : i < t.spanEnd root) (hn : t.Named buffer i title) :
    t.InTree root i ∧ t.FirstTree buffer root := by
  have htree : t.InTree root i := inTree_iff.mpr ⟨htop, hi, hend⟩
  refine ⟨htree, ⟨i, title, htree, hn⟩, fun other j s hj hm => ?_⟩
  apply Nat.le_of_not_lt
  intro hlt
  have hspan := htop.spanEnd_le hlt
  have := (inTree_iff.mp hj).2.2
  exact before j s (Nat.zero_le j) (by omega) hm

/-- A rule stands before the end of a tree when its own tree is no later. -/
theorem lt_spanEnd_iff (h0 : levelAt t.rules 0 = 0) (htop : t.TopLevel root) {i : Nat} :
    i < t.spanEnd root ↔ i < t.size ∧ ∀ other, t.InTree other i → other ≤ root := by
  constructor
  · intro hi
    refine ⟨Nat.lt_of_lt_of_le hi (t.spanEnd_le_size root), fun other ho => ?_⟩
    obtain ⟨hother, hle, _⟩ := inTree_iff.mp ho
    apply Nat.le_of_not_lt
    intro hlt
    have := hother.spanEnd_le hlt
    omega
  · intro hx
    obtain ⟨hi, hle⟩ := hx
    obtain ⟨other, ho⟩ := exists_tree h0 hi
    have hend := (inTree_iff.mp ho).2.2
    rcases Nat.lt_or_eq_of_le (hle other ho) with hlt | rfl
    · have := htop.spanEnd_le hlt
      have := t.lt_spanEnd (topLevel_iff.mp htop).1
      omega
    · exact hend

end Reading

variable {t : RuleTable}

theorem search_found (h : Reachable t) (hl : ∀ r ∈ t.rules, r.level < 65535)
    (buffer : List UInt8) : t.Found buffer 0 (t.search buffer) :=
  have ht := eligible_of_stepwise (h.stepwise hl) hl
  searchFrom_found ht 0 (Nat.zero_le _) ht.head

/-- Either no rule has a name or the answer is that of the forest. -/
theorem search_answer (h : Reachable t) (hl : ∀ r ∈ t.rules, r.level < 65535)
    (buffer : List UInt8) :
    ((t.search buffer).answer = none ∧ ∀ i title, ¬ t.Named buffer i title) ∨
    ∃ title, (t.search buffer).answer = some title ∧ t.Answer buffer title := by
  have hf := search_found h hl buffer
  generalize t.search buffer = trace at hf
  cases hf with
  | nothing _ unnamed => exact Or.inl ⟨rfl, fun i title => unnamed i title (Nat.zero_le i)⟩
  | @tree root i title _ _ top _ _ before hi hend named last =>
    obtain ⟨htree, hfirst⟩ := firstTree_of_before top before hi hend named
    refine Or.inr ⟨title, rfl, root, i, hfirst, htree, named, fun j s hj hm => ?_⟩
    exact Nat.le_of_not_lt fun hlt => last j s hlt (inTree_iff.mp hj).2.2 hm

/-- The verdict is certain and names the type that the last named rule of the first tree with a
named rule gives; there is none exactly when no tree has a named rule. -/
theorem find_in_forest (h : Reachable t) (hl : ∀ r ∈ t.rules, r.level < 65535)
    (buffer : List UInt8) :
    (∀ v, t.find buffer = some v ↔ ∃ title, t.Answer buffer title ∧ v = ⟨title, 100⟩) ∧
    (t.find buffer = none ↔ ∀ root i title, t.InTree root i → ¬ t.Named buffer i title) := by
  unfold find
  rcases search_answer h hl buffer with ⟨ha, hu⟩ | ⟨title, ha, hans⟩
  · rw [ha]
    constructor
    · intro v
      simp only [Option.map_none, reduceCtorEq, false_iff]
      intro hx
      obtain ⟨title, ⟨root, i, _, _, hn, _⟩, _⟩ := hx
      exact hu i title hn
    · exact ⟨fun _ _ i title _ => hu i title, fun _ => rfl⟩
  · rw [ha]
    constructor
    · intro v
      constructor
      · intro hv
        exact ⟨title, hans, (Option.some.inj hv).symm⟩
      · intro hx
        obtain ⟨other, hother, rfl⟩ := hx
        rw [hans.unique hother]
        rfl
    · obtain ⟨root, i, _, hi, hn, _⟩ := hans
      exact ⟨fun hv => (by cases hv), fun hu => absurd hn (hu root i title hi)⟩

theorem find_in_forest_failed_sibling :
    Reachable twoSources ∧ (∀ r ∈ twoSources.rules, r.level < 65535) ∧
      twoSources.Answer (Byte.ascii "ABZY") "text/x-abzy" := by
  have hfind : twoSources.find (Byte.ascii "ABZY") = some ⟨"text/x-abzy", 100⟩ := by decide +kernel
  obtain ⟨title, ha, he⟩ :=
    ((find_in_forest reachable_twoSources levels_twoSources (Byte.ascii "ABZY")).1 _).mp hfind
  obtain rfl := congrArg Verdict.mime he
  exact ⟨reachable_twoSources, levels_twoSources, ha⟩

/-- What a search evaluates lies before a bound that no span crosses: the end of the table, or that
of the answering tree. -/
theorem search_visits (h : Reachable t) (hl : ∀ r ∈ t.rules, r.level < 65535)
    (buffer : List UInt8) :
    (t.search buffer).passed = [] ∧
    ∃ bound visited, t.Visits buffer 0 bound visited (t.search buffer).evaluated ∧
      (∀ p < bound, t.spanEnd p ≤ bound) ∧
      ∀ i, i < bound ↔ i < t.size ∧ ∀ root, t.FirstTree buffer root →
        ∀ other, t.InTree other i → other ≤ root := by
  have hf := search_found h hl buffer
  have h0 := (h.stepwise hl).head
  generalize t.search buffer = trace at hf
  cases hf with
  | @nothing visited _ visits unnamed =>
    refine ⟨rfl, t.size, visited, visits, fun p _ => t.spanEnd_le_size p, fun i => ?_⟩
    refine ⟨fun hi => ⟨hi, fun root hroot => ?_⟩, fun hi => hi.1⟩
    obtain ⟨j, title, _, hn⟩ := hroot.named
    exact absurd hn (unnamed j title (Nat.zero_le j))
  | @tree root i title visited _ top _ visits before hi hend named _ =>
    obtain ⟨_, hfirst⟩ := firstTree_of_before top before hi hend named
    refine ⟨rfl, t.spanEnd root, visited, visits, fun p hp => ?_, fun j => ?_⟩
    · rcases Nat.lt_trichotomy p root with hlt | rfl | hlt
      · have hlater := t.lt_spanEnd (topLevel_iff.mp top).1
        exact Nat.le_trans (top.spanEnd_le hlt) (Nat.le_of_lt hlater)
      · exact Nat.le_refl _
      · exact spanEnd_le hlt hp
    · rw [lt_spanEnd_iff h0 top]
      constructor
      · intro hx
        obtain ⟨hj, hle⟩ := hx
        exact ⟨hj, fun other ho => hfirst.unique ho ▸ hle⟩
      · exact fun hj => ⟨hj.1, hj.2 root hfirst⟩

/-- A search evaluates exactly the rules whose strict ancestors all hold, in table order and each
once, in the trees up to the answering one; so it evaluates nothing below a rule that fails and
every continuation of an evaluated rule that holds, and passes over no rule. -/
theorem search_evaluates_reached (h : Reachable t) (hl : ∀ r ∈ t.rules, r.level < 65535)
    (buffer : List UInt8) :
    (t.search buffer).passed = [] ∧
    ∃ visited : List Nat,
      (t.search buffer).evaluated.map some = visited.map (t.rules[·]?) ∧
      visited.Pairwise (· < ·) ∧
      (∀ i, i ∈ visited ↔ i < t.size ∧ t.Reached buffer i ∧ ∀ root, t.FirstTree buffer root →
        ∀ other, t.InTree other i → other ≤ root) ∧
      (∀ a i, t.Ancestor a i → ¬ t.Holds buffer a → i ∉ visited) ∧
      ∀ p i, p ∈ visited → t.Holds buffer p → t.Parent p i → i ∈ visited := by
  obtain ⟨hpassed, bound, visited, hv, hclosed, hbound⟩ := search_visits h hl buffer
  refine ⟨hpassed, visited, hv.rules, hv.ordered, fun i => ?_, ?_, ?_⟩
  · rw [hv.mem, hbound]
    constructor
    · intro hx
      obtain ⟨_, ⟨hi, hle⟩, hr⟩ := hx
      exact ⟨hi, hr, hle⟩
    · intro hx
      obtain ⟨hi, hr, hle⟩ := hx
      exact ⟨Nat.zero_le i, ⟨hi, hle⟩, hr⟩
  · intro a i ha hh hi
    exact hh (((hv.mem i).mp hi).2.2 a ha)
  · intro p i hp hh hpar
    obtain ⟨_, hlt, hr⟩ := (hv.mem p).mp hp
    exact (hv.mem i).mpr ⟨Nat.zero_le i,
      Nat.lt_of_lt_of_le hpar.lt_spanEnd (hclosed p hlt), reached_child hr hh hpar⟩

/-- The third rule lies below the second one, which fails, and the last one in a later tree. -/
theorem search_evaluates_reached_failed_sibling :
    Reachable twoSources ∧ (∀ r ∈ twoSources.rules, r.level < 65535) ∧
      ∃ visited : List Nat, visited.Pairwise (· < ·) ∧
        [0, 1, 3, 4].map (twoSources.rules[·]?) = visited.map (twoSources.rules[·]?) ∧
        2 ∉ visited := by
  obtain ⟨_, visited, hrules, hordered, _, hbelow, _⟩ :=
    search_evaluates_reached reachable_twoSources levels_twoSources (Byte.ascii "ABZY")
  have heval : (twoSources.search (Byte.ascii "ABZY")).evaluated.map some =
      [0, 1, 3, 4].map (twoSources.rules[·]?) := by decide +kernel
  have hfails : ¬ twoSources.Holds (Byte.ascii "ABZY") 1 := by
    intro hx
    obtain ⟨r, hr, hh⟩ := hx
    have : twoSources.rules[1]?.any (fun r => r.evaluate (Byte.ascii "ABZY")) = false := by
      decide +kernel
    rw [hr, Option.any_some, hh] at this
    cases this
  have hanc : twoSources.Ancestor 1 2 := ancestor_iff.mpr (by decide +kernel)
  exact ⟨reachable_twoSources, levels_twoSources, visited, hordered, heval ▸ hrules,
    hbelow 1 2 hanc hfails⟩

end RuleTable

end ContentType
