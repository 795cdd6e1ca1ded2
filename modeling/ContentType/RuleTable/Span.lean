import ContentType.Rule.Basic

namespace ContentType.Span

/-- A rule whose span has not ended yet. -/
structure Opened where
  index : Nat
  level : UInt16
deriving DecidableEq, Repr

/-- What the rules read so far leave behind: the open rules, innermost first, and the end of each
span. A span that is not known to end earlier ends with the table. -/
structure Sweep where
  opened : List Opened
  ends : List Nat
deriving DecidableEq, Repr

namespace Sweep

/-- The rule at index `j` ends the innermost spans, as long as their rules are no shallower. -/
def close (level : UInt16) (j : Nat) : List Opened → List Nat → Sweep
  | [], ends => ⟨[], ends⟩
  | top :: rest, ends =>
    if level ≤ top.level then close level j rest (ends.set top.index j) else ⟨top :: rest, ends⟩

def step (s : Sweep) (j : Nat) (r : Rule) : Sweep :=
  let closed := close r.level j s.opened s.ends
  { closed with opened := ⟨j, r.level⟩ :: closed.opened }

/-- Read the rules from index `j` on. -/
def run : Sweep → Nat → List Rule → Sweep
  | s, _, [] => s
  | s, j, r :: rest => (s.step j r).run (j + 1) rest

end Sweep

/-- Where each rule's span ends. -/
def ends (rules : List Rule) : List Nat :=
  (Sweep.run ⟨[], List.replicate rules.length rules.length⟩ 0 rules).ends

/-- Level of the rule at an index, zero past the last rule. -/
def levelAt (rules : List Rule) (i : Nat) : Nat :=
  match rules[i]? with
  | none => 0
  | some r => r.level.toNat

theorem levelAt_of_some {rules : List Rule} {i : Nat} {r : Rule} (h : rules[i]? = some r) :
    levelAt rules i = r.level.toNat := by
  simp [levelAt, h]

theorem levelAt_past {rules : List Rule} {i : Nat} (h : rules.length ≤ i) :
    levelAt rules i = 0 := by
  simp [levelAt, List.getElem?_eq_none h]

/-- The first index after `i` whose level is no greater; the end of the table counts as one. -/
structure IsEnd (rules : List Rule) (i e : Nat) : Prop where
  later : i < e
  bounded : e ≤ rules.length
  deeper : ∀ k, i < k → k < e → levelAt rules i < levelAt rules k
  stop : levelAt rules e ≤ levelAt rules i

/-- The pass before the rule at index `j`: an open rule has met only deeper ones, the stack leads
outwards, and every rule read is open or has its final end. -/
structure Sweep.Valid (rules : List Rule) (j : Nat) (s : Sweep) : Prop where
  size : s.ends.length = rules.length
  opened : ∀ o ∈ s.opened, o.index < j ∧ s.ends[o.index]? = some rules.length ∧
    levelAt rules o.index = o.level.toNat ∧
    ∀ k, o.index < k → k < j → levelAt rules o.index < levelAt rules k
  nested : s.opened.Pairwise (fun a b => b.index < a.index ∧ b.level < a.level)
  settled : ∀ i < j, (∃ o ∈ s.opened, o.index = i) ∨ ∃ e, s.ends[i]? = some e ∧ IsEnd rules i e
  unread : ∀ i, j ≤ i → i < rules.length → s.ends[i]? = some rules.length

namespace Sweep

/-- Popping the stack: the rule on top has met the first one that is not deeper. -/
theorem Valid.pop {rules : List Rule} {j : Nat} {top : Opened} {rest : List Opened}
    {ends : List Nat} (h : Valid rules j ⟨top :: rest, ends⟩) (hj : j < rules.length)
    (hl : levelAt rules j ≤ top.level.toNat) : Valid rules j ⟨rest, ends.set top.index j⟩ := by
  obtain ⟨hlt, hend, hlevel, hdeep⟩ := h.opened top (by simp)
  have hnest := List.pairwise_cons.mp h.nested
  have hsize : ends.length = rules.length := h.size
  refine ⟨by simp [hsize], ?_, hnest.2, ?_, ?_⟩
  · intro o ho
    have hbelow := (hnest.1 o ho).1
    have hne : top.index ≠ o.index := by omega
    simpa [List.getElem?_set_ne hne] using h.opened o (List.mem_cons_of_mem _ ho)
  · intro i hi
    by_cases he : top.index = i
    · -- The popped rule: its end is final.
      subst he
      have hin : top.index < ends.length := by omega
      exact Or.inr ⟨j, by simp [hin], hlt, by omega, hdeep, by omega⟩
    · rw [List.getElem?_set_ne he]
      rcases h.settled i hi with ⟨o, ho, hoi⟩ | hs
      · rcases List.mem_cons.mp ho with rfl | ho
        · exact absurd hoi he
        · exact Or.inl ⟨o, ho, hoi⟩
      · exact Or.inr hs
  · intro i hi hn
    have hne : top.index ≠ i := by omega
    simpa [List.getElem?_set_ne hne] using h.unread i hi hn

/-- After closing, every open rule is shallower than the rule at `j`. -/
theorem Valid.close {rules : List Rule} {j : Nat} {level : UInt16} {opened : List Opened}
    {ends : List Nat} (h : Valid rules j ⟨opened, ends⟩) (hj : j < rules.length)
    (hl : levelAt rules j = level.toNat) :
    Valid rules j (Sweep.close level j opened ends) ∧
      ∀ o ∈ (Sweep.close level j opened ends).opened, o.level < level := by
  induction opened generalizing ends with
  | nil => exact ⟨h, by simp [Sweep.close]⟩
  | cons top rest ih =>
    unfold Sweep.close
    split
    · rename_i hle
      exact ih (h.pop hj (by rw [hl]; exact UInt16.le_iff_toNat_le.mp hle))
    · rename_i hgt
      have htop : top.level < level := UInt16.not_le.mp hgt
      refine ⟨h, ?_⟩
      intro o ho
      rcases List.mem_cons.mp ho with rfl | ho
      · exact htop
      · exact UInt16.lt_trans ((List.pairwise_cons.mp h.nested).1 o ho).2 htop

theorem Valid.step {rules : List Rule} {j : Nat} {s : Sweep} {r : Rule} (h : Valid rules j s)
    (hr : rules[j]? = some r) : Valid rules (j + 1) (s.step j r) := by
  have hj : j < rules.length := (List.getElem?_eq_some_iff.mp hr).1
  have hl := levelAt_of_some hr
  have hs : Valid rules j ⟨s.opened, s.ends⟩ := h
  obtain ⟨hc, hshallow⟩ := hs.close hj hl
  refine ⟨hc.size, ?_, ?_, ?_, ?_⟩
  · intro o ho
    rcases List.mem_cons.mp ho with rfl | ho
    · exact ⟨Nat.lt_succ_self j, hc.unread j (Nat.le_refl j) hj, hl, fun k hk hk' => by
        dsimp only at hk; omega⟩
    · obtain ⟨hlt, hend, hlevel, hdeep⟩ := hc.opened o ho
      refine ⟨by omega, hend, hlevel, ?_⟩
      intro k hk hk'
      by_cases he : k = j
      · have := UInt16.lt_iff_toNat_lt.mp (hshallow o ho)
        rw [he, hl]; omega
      · exact hdeep k hk (by omega)
  · exact List.pairwise_cons.mpr ⟨fun o ho => ⟨(hc.opened o ho).1, hshallow o ho⟩, hc.nested⟩
  · intro i hi
    by_cases he : i = j
    · exact Or.inl ⟨⟨j, r.level⟩, List.mem_cons_self, he.symm⟩
    · rcases hc.settled i (by omega) with ⟨o, ho, hoi⟩ | hs
      · exact Or.inl ⟨o, List.mem_cons_of_mem _ ho, hoi⟩
      · exact Or.inr hs
  · exact fun i hi hn => hc.unread i (by omega) hn

theorem Valid.run {rules rest : List Rule} {j : Nat} {s : Sweep} (h : Valid rules j s)
    (hr : rules.drop j = rest) : Valid rules (j + rest.length) (s.run j rest) := by
  induction rest generalizing j s with
  | nil => exact h
  | cons r rest ih =>
    have hj : rules[j]? = some r := by
      rw [← List.head?_drop, hr, List.head?_cons]
    have hrest : rules.drop (j + 1) = rest := by
      rw [← List.tail_drop, hr, List.tail_cons]
    have := ih (h.step hj) hrest
    simpa only [List.length_cons, Sweep.run, Nat.add_assoc, Nat.add_comm 1] using this

theorem valid_start (rules : List Rule) :
    Valid rules 0 ⟨[], List.replicate rules.length rules.length⟩ :=
  ⟨by simp, by simp, .nil, by simp, fun i _ hn => by simp [hn]⟩

end Sweep

theorem valid_ends (rules : List Rule) : Sweep.Valid rules rules.length
    (Sweep.run ⟨[], List.replicate rules.length rules.length⟩ 0 rules) := by
  simpa using (Sweep.valid_start rules).run List.drop_zero

@[simp]
theorem length_ends (rules : List Rule) : (ends rules).length = rules.length :=
  (valid_ends rules).size

/-- A rule still open after the pass has only deeper ones behind it. -/
theorem ends_isEnd {rules : List Rule} {i : Nat} (hi : i < rules.length) :
    ∃ e, (ends rules)[i]? = some e ∧ IsEnd rules i e := by
  have h := valid_ends rules
  rcases h.settled i hi with ⟨o, ho, rfl⟩ | hs
  · obtain ⟨hlt, hend, _, hdeep⟩ := h.opened o ho
    exact ⟨rules.length, hend, hlt, Nat.le_refl _, hdeep,
      by rw [levelAt_past (Nat.le_refl _)]; exact Nat.zero_le _⟩
  · exact hs

end ContentType.Span
