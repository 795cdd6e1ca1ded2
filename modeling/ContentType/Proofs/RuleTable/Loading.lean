import ContentType.RuleTable.Merge

namespace ContentType

namespace Progress

/-- A readable rule of this level would be added next. -/
structure Admits (p : Progress) (level : UInt16) : Prop where
  kept : ∀ n, p.dropped = some n → level ≤ n
  first : p.previous = none → level = 0
  next : ∀ n, p.previous = some n → level ≤ n + 1

theorem Admits.mono {p : Progress} {low high : UInt16} (h : p.Admits high) (hl : low ≤ high) :
    p.Admits low :=
  ⟨fun n hn => UInt16.le_trans hl (h.kept n hn),
    fun hn => UInt16.le_zero_iff.mp (h.first hn ▸ hl),
    fun n hn => UInt16.le_trans hl (h.next n hn)⟩

theorem obstacle_of_admits {p : Progress} {r : Rule} (h : p.Admits r.level) :
    p.obstacle? r = none := by
  unfold obstacle?
  split
  · rename_i hp
    simp [h.first hp]
  · rename_i n hp
    simp [UInt16.not_lt.mpr (h.next n hp)]

theorem admits_of_obstacle {p : Progress} {r : Rule} (ho : p.obstacle? r = none)
    (hk : ∀ n, p.dropped = some n → r.level ≤ n) : p.Admits r.level := by
  unfold obstacle? at ho
  split at ho
  · rename_i hp
    exact ⟨hk, fun _ => by simpa using ho, fun n hn => by simp [hp] at hn⟩
  · rename_i n hp
    refine ⟨hk, fun hn => by simp [hp] at hn, ?_⟩
    intro m hm
    obtain rfl : n = m := Option.some.inj (hp.symm.trans hm)
    simpa using ho

/-- Below a dropped level, dropping another one changes nothing. -/
theorem drop_above {p : Progress} {level n : UInt16} (hp : p.dropped = some n) (hn : n < level) :
    p.drop level = p := by
  have hmin : min n level = n := if_pos (UInt16.le_of_lt hn)
  obtain ⟨previous, dropped⟩ := p
  simp only at hp
  simp [drop, hp, hmin]

/-- At or above the dropped level, the new one takes its place. -/
theorem drop_below {p : Progress} {level : UInt16} (hk : ∀ n, p.dropped = some n → level ≤ n) :
    p.drop level = { p with dropped := some level } := by
  unfold drop
  split
  · rfl
  · rename_i n hn
    have hmin : min n level = level := by
      change (if n ≤ level then n else level) = level
      split
      · exact UInt16.le_antisymm (by assumption) (hk n hn)
      · rfl
    rw [hmin]

/-- A readable rule is added when it is admitted; otherwise its level is dropped. -/
theorem place_cases (p : Progress) (number : Nat) (r : Rule) :
    (p.Admits r.level ∧
      p.place number r = (.added { r with line := number }, ⟨some r.level, none⟩)) ∨
    (¬ p.Admits r.level ∧
      ∃ fault, p.place number r = (.rejected ⟨number, fault⟩, p.drop r.level)) := by
  unfold place
  split
  · rename_i hd
    obtain ⟨n, hn, hlt⟩ := (Option.any_eq_true _ _).mp hd
    have hlt : n < r.level := of_decide_eq_true hlt
    refine Or.inr ⟨fun h => UInt16.not_lt.mpr (h.kept n hn) hlt, .orphanContinuation, ?_⟩
    rw [drop_above hn hlt]
  · rename_i hd
    have hk : ∀ n, p.dropped = some n → r.level ≤ n := by
      intro n hn
      simpa [hn] using hd
    split
    · rename_i fault hf
      refine Or.inr ⟨fun h => ?_, fault, by rw [drop_below hk]⟩
      simp [obstacle_of_admits h] at hf
    · rename_i ho
      exact Or.inl ⟨admits_of_obstacle ho hk, rfl⟩

theorem step_of_rule {p : Progress} {number : Nat} {line : List UInt8} {r : Rule}
    (h : Line.read line = .ok (some r)) : p.step number line = p.place number r := by
  simp [step, h]

/-- Everything that one line can do. -/
theorem step_cases (p : Progress) (number : Nat) (line : List UInt8) :
    (Line.read line = .ok none ∧ p.step number line = (.blank, p)) ∨
    (∃ r, Line.read line = .ok (some r) ∧ p.Admits r.level ∧
      p.step number line = (.added { r with line := number }, ⟨some r.level, none⟩)) ∨
    (∃ r fault, Line.read line = .ok (some r) ∧ ¬ p.Admits r.level ∧
      p.step number line = (.rejected ⟨number, fault⟩, p.drop r.level)) ∨
    (∃ fault, Line.read line = .error fault ∧
      p.step number line = (.rejected ⟨number, fault⟩, p.drop (Line.depth line))) := by
  unfold step
  split
  · rename_i hl
    exact Or.inl ⟨hl, rfl⟩
  · rename_i r hl
    rcases p.place_cases number r with ⟨ha, he⟩ | ⟨ha, fault, he⟩
    · exact Or.inr (Or.inl ⟨r, hl, ha, he⟩)
    · exact Or.inr (Or.inr (Or.inl ⟨r, fault, hl, ha, he⟩))
  · rename_i fault hl
    exact Or.inr (Or.inr (Or.inr ⟨fault, hl, rfl⟩))

/-- Whatever is added was read from some line. -/
theorem read_of_mem_run {p : Progress} {number : Nat} {lines : List (List UInt8)} {s : Rule}
    (h : s ∈ (p.run number lines).filterMap LineOutcome.rule?) :
    ∃ line r n, Line.read line = .ok (some r) ∧ s = { r with line := n } := by
  induction lines generalizing p number with
  | nil => cases h
  | cons line rest ih =>
    simp only [run] at h
    rcases p.step_cases number line with
      ⟨_, he⟩ | ⟨r, hr, _, he⟩ | ⟨r, fault, _, _, he⟩ | ⟨fault, _, he⟩
    · rw [he] at h
      exact ih h
    · rw [he] at h
      rcases List.mem_cons.mp h with hs | h
      · exact ⟨line, r, number, hr, hs⟩
      · exact ih h
    · rw [he] at h
      exact ih h
    · rw [he] at h
      exact ih h

theorem run_cons (p : Progress) (number : Nat) (line : List UInt8) (rest : List (List UInt8)) :
    p.run number (line :: rest) =
      (p.step number line).1 :: (p.step number line).2.run (number + 1) rest := rfl

end Progress

namespace RuleTable

/-- The tables that merges build from the empty one. -/
inductive Reachable : RuleTable → Prop
  | empty : Reachable .empty
  | merge (source : List UInt8) : Reachable t → Reachable (t.merge source).1

theorem rules_merge (t : RuleTable) (source : List UInt8) :
    (t.merge source).1.rules = t.rules ++ (t.outcomes source).filterMap LineOutcome.rule? := rfl

/-- The table after merging sources in order. -/
def mergeAll (t : RuleTable) (sources : List (List UInt8)) : RuleTable :=
  sources.foldl (fun t source => (t.merge source).1) t

theorem reachable_mergeAll {t : RuleTable} (h : Reachable t) (sources : List (List UInt8)) :
    Reachable (t.mergeAll sources) := by
  induction sources generalizing t with
  | nil => exact h
  | cons source rest ih => exact ih (.merge source h)

/-- Every rule of a table was read from a line of some source. -/
theorem Reachable.read {t : RuleTable} (h : Reachable t) {s : Rule} (hs : s ∈ t.rules) :
    ∃ line r n, Line.read line = .ok (some r) ∧ s = { r with line := n } := by
  induction h with
  | empty => cases hs
  | merge source _ ih =>
    rcases List.mem_append.mp hs with hold | hnew
    · exact ih hold
    · exact Progress.read_of_mem_run hnew

/-- The second source goes on with the tree that the first one leaves, and skips a level once. -/
def twoSources : RuleTable :=
  ((RuleTable.empty.merge (Byte.ascii
    "0 string AB text/x-ab\n>2 byte 0x58 text/x-abx\n>>3 byte 0x59 text/x-abxy\n")).1.merge
    (Byte.ascii
      ">2 byte 0x5a text/x-abz\n>>>>4 byte x\n>>3 byte 0x59 text/x-abzy\n0 byte x text/x-any")).1

theorem reachable_twoSources : Reachable twoSources := .merge _ (.merge _ .empty)

theorem levels_twoSources : ∀ r ∈ twoSources.rules, r.level < 65535 := by decide +kernel

end RuleTable

end ContentType
