import ContentType.Proofs.RuleTable.Adoption
import ContentType.Proofs.RuleTable.Answer
import Mathlib.Algebra.Order.BigOperators.Group.List
import Mathlib.Algebra.Order.Ring.Nat
import Mathlib.Data.List.Perm.Subperm

namespace ContentType

section Lines

theorem flatten_splitOn_sublist (a : UInt8) (s : List UInt8) : (s.splitOn a).flatten.Sublist s := by
  induction s with
  | nil => simp
  | cons b s ih =>
    rw [List.splitOn_cons_eq_if_modifyHead]
    split
    · exact ih.cons b
    · -- The first piece takes the byte up.
      obtain ⟨piece, pieces, hp⟩ := List.exists_cons_of_ne_nil (List.splitOn_ne_nil a s)
      rw [hp] at ih ⊢
      exact ih.cons_cons b

theorem sum_lengths_le {lines more : List (List UInt8)} (h : lines.Sublist more) :
    (lines.map List.length).sum ≤ (more.map List.length).sum :=
  (h.map List.length).sum_le_sum fun n _ => Nat.zero_le n

theorem sum_lines_le (s : List UInt8) : ((Byte.lines s).map List.length).sum ≤ s.length := by
  have hpieces := (flatten_splitOn_sublist 0x0a s).length_le
  rw [List.length_flatten] at hpieces
  unfold Byte.lines
  split
  · exact Nat.le_trans (sum_lengths_le (List.dropLast_sublist _)) hpieces
  · exact hpieces

theorem Line.marks_le_length (line : List UInt8) : marks line ≤ line.length :=
  Nat.le_trans (List.takeWhile_sublist _).length_le (List.dropWhile_sublist _).length_le

theorem Line.toNat_level_le {line : List UInt8} {r : Rule} (h : read line = .ok (some r)) :
    r.level.toNat ≤ line.length := by
  have := marks_le_length line
  rw [level_read h, UInt16.toNat_ofNat']
  omega

end Lines

/-- Rules behind a progress: the level of the last one is that of some rule, below each level all
smaller ones are taken, and the levels together come to no more than the bytes read. -/
structure Grounded (p : Progress) (rules : List Rule) (bytes : Nat) : Prop where
  previous : ∀ n, p.previous = some n → ∃ r ∈ rules, r.level = n
  closed : ∀ r ∈ rules, ∀ m < r.level.toNat, ∃ s ∈ rules, s.level.toNat = m
  paid : (rules.map (fun r => r.level.toNat)).sum ≤ bytes

namespace Grounded

variable {p : Progress} {rules : List Rule} {bytes : Nat}

theorem start : Grounded Progress.start [] 0 :=
  ⟨fun _ hn => (nomatch hn), fun _ hr => (nomatch hr), Nat.le_refl 0⟩

theorem mono (h : Grounded p rules bytes) {more : Nat} (hle : bytes ≤ more) :
    Grounded p rules more :=
  ⟨h.previous, h.closed, Nat.le_trans h.paid hle⟩

/-- What is rejected does not count, and another source may start. -/
theorem of_previous (h : Grounded p rules bytes) {q : Progress}
    (hq : ∀ n, q.previous = some n → ∃ r ∈ rules, r.level = n) : Grounded q rules bytes :=
  ⟨hq, h.closed, h.paid⟩

/-- An admitted rule is at most one level below the last one, so no smaller level is missing. -/
theorem added (h : Grounded p rules bytes) {r : Rule} (ha : p.Admits r.level) {length : Nat}
    (hlength : r.level.toNat ≤ length) :
    Grounded ⟨some r.level, none⟩ (rules ++ [r]) (bytes + length) := by
  have hsmaller : ∀ m < r.level.toNat, ∃ s ∈ rules, s.level.toNat = m := by
    intro m hm
    cases hp : p.previous with
    | none =>
      rw [ha.first hp] at hm
      exact absurd hm (Nat.not_lt_zero m)
    | some n =>
      obtain ⟨s, hs, rfl⟩ := h.previous n hp
      have hnext := UInt16.le_iff_toNat_le.mp (ha.next _ hp)
      have hwrap : (s.level + 1).toNat ≤ s.level.toNat + 1 := by
        rw [UInt16.toNat_add]
        exact Nat.mod_le _ _
      rcases Nat.lt_or_eq_of_le (show m ≤ s.level.toNat by omega) with hlt | he
      · exact h.closed s hs m hlt
      · exact ⟨s, hs, he.symm⟩
  refine ⟨?_, ?_, ?_⟩
  · intro n hn
    exact ⟨r, by simp, Option.some.inj hn⟩
  · intro s hs m hm
    have hold : ∃ s ∈ rules, s.level.toNat = m := by
      rcases List.mem_append.mp hs with hs | hs
      · exact h.closed s hs m hm
      · rw [List.mem_singleton.mp hs] at hm
        exact hsmaller m hm
    obtain ⟨s, hs, he⟩ := hold
    exact ⟨s, List.mem_append_left _ hs, he⟩
  · have := h.paid
    simp only [List.map_append, List.sum_append, List.map_cons, List.map_nil, List.sum_singleton]
    omega

theorem step (h : Grounded p rules bytes) (number : Nat) (line : List UInt8) :
    Grounded (p.step number line).2 (rules ++ (p.step number line).1.rule?.toList)
      (bytes + line.length) := by
  have hmore := h.mono (Nat.le_add_right bytes line.length)
  rcases p.step_cases number line with
    ⟨_, he⟩ | ⟨r, hr, ha, he⟩ | ⟨r, fault, _, _, he⟩ | ⟨fault, _, he⟩
  · simpa [he, LineOutcome.rule?] using hmore
  · rw [he]
    have hlength := Line.toNat_level_le hr
    exact h.added (r := { r with line := number }) ha hlength
  · have hdrop : Grounded (p.drop r.level) rules _ := hmore.of_previous h.previous
    simpa [he, LineOutcome.rule?] using hdrop
  · have hdrop : Grounded (p.drop (Line.depth line)) rules _ := hmore.of_previous h.previous
    simpa [he, LineOutcome.rule?] using hdrop

theorem run (h : Grounded p rules bytes) (number : Nat) (lines : List (List UInt8)) :
    Grounded (p.after number lines)
      (rules ++ (p.run number lines).filterMap LineOutcome.rule?)
      (bytes + (lines.map List.length).sum) := by
  induction lines generalizing p rules bytes number with
  | nil => simpa [Progress.after, Progress.run] using h
  | cons line rest ih =>
    have hrest := ih (h.step number line) (number + 1)
    rw [Progress.run_cons, List.filterMap_cons, List.map_cons, List.sum_cons, ← Nat.add_assoc]
    cases hout : (p.step number line).1.rule? <;>
      simpa [Progress.after, hout] using hrest

/-- All levels up to a rule's own are among the levels, so they are paid for. -/
theorem triangle_le (h : Grounded p rules bytes) {r : Rule} (hr : r ∈ rules) :
    (r.level.toNat + 1) * r.level.toNat / 2 ≤ bytes := by
  have hsub : List.range (r.level.toNat + 1) ⊆ rules.map (fun r => r.level.toNat) := by
    intro m hm
    rcases Nat.lt_or_eq_of_le (Nat.le_of_lt_succ (List.mem_range.mp hm)) with hlt | rfl
    · obtain ⟨s, hs, he⟩ := h.closed r hr m hlt
      exact List.mem_map.mpr ⟨s, hs, he⟩
    · exact List.mem_map.mpr ⟨r, hr, rfl⟩
  obtain ⟨levels, hperm, hsublist⟩ := List.nodup_range.subperm hsub
  calc (r.level.toNat + 1) * r.level.toNat / 2
      = (List.range (r.level.toNat + 1)).sum := by rw [List.range_eq_range', List.sum_range']; simp
    _ = levels.sum := hperm.sum_eq.symm
    _ ≤ (rules.map (fun r => r.level.toNat)).sum :=
        hsublist.sum_le_sum fun n _ => Nat.zero_le n
    _ ≤ bytes := h.paid

theorem level_lt (h : Grounded p rules bytes) (hb : bytes < 2147450880) {r : Rule}
    (hr : r ∈ rules) : r.level < 65535 := by
  apply lt_of_ne_last
  intro he
  have hpaid := h.triangle_le hr
  rw [he] at hpaid
  exact absurd hpaid (Nat.not_le.mpr hb)

end Grounded

namespace RuleTable

/-- The progress in front of the line at an index of a source that is merged. -/
def progressAt (t : RuleTable) (source : List UInt8) (i : Nat) : Progress :=
  Progress.after ⟨t.rules.getLast?.map Rule.level, none⟩ 1 ((Byte.lines source).take i)

/-- What a table hands to the next source. -/
theorem grounded_next {t : RuleTable} {p : Progress} {bytes : Nat}
    (h : Grounded p t.rules bytes) :
    Grounded ⟨t.rules.getLast?.map Rule.level, none⟩ t.rules bytes := by
  refine h.of_previous fun n hn => ?_
  obtain ⟨r, hr, he⟩ := Option.map_eq_some_iff.mp hn
  exact ⟨r, List.mem_of_getLast? hr, he⟩

theorem grounded_merge {t : RuleTable} {p : Progress} {bytes : Nat}
    (h : Grounded p t.rules bytes) (source : List UInt8) :
    ∃ q, Grounded q (t.merge source).1.rules (bytes + source.length) :=
  ⟨_, ((grounded_next h).run 1 (Byte.lines source)).mono
    (Nat.add_le_add_left (sum_lines_le source) bytes)⟩

theorem grounded_mergeAll {t : RuleTable} {p : Progress} {bytes : Nat}
    (h : Grounded p t.rules bytes) (sources : List (List UInt8)) :
    ∃ q, Grounded q (t.mergeAll sources).rules (bytes + (sources.map List.length).sum) := by
  induction sources generalizing t p bytes with
  | nil => exact ⟨p, h⟩
  | cons source rest ih =>
    obtain ⟨q, hq⟩ := grounded_merge h source
    rw [List.map_cons, List.sum_cons, ← Nat.add_assoc]
    exact ih hq

theorem grounded_progressAt {t : RuleTable} {p : Progress} {bytes : Nat}
    (h : Grounded p t.rules bytes) (source : List UInt8) (i : Nat) :
    ∃ rules, Grounded (t.progressAt source i) rules (bytes + source.length) := by
  have htake := sum_lengths_le (List.take_sublist i (Byte.lines source))
  have hlines := sum_lines_le source
  exact ⟨_, ((grounded_next h).run 1 _).mono (by omega)⟩

theorem Visits.mem_rules {t : RuleTable} {buffer : List UInt8} {lo hi : Nat} {visited : List Nat}
    {evaluated : List Rule} (h : t.Visits buffer lo hi visited evaluated) {r : Rule}
    (hr : r ∈ evaluated) : r ∈ t.rules := by
  have hsome : some r ∈ visited.map (t.rules[·]?) := h.rules ▸ List.mem_map_of_mem hr
  obtain ⟨i, _, hi⟩ := List.mem_map.mp hsome
  exact List.mem_of_getElem? hi

theorem mem_rules_of_evaluated {t : RuleTable} (h : Reachable t)
    (hl : ∀ r ∈ t.rules, r.level < 65535) {buffer : List UInt8} {r : Rule}
    (hr : r ∈ (t.search buffer).evaluated) : r ∈ t.rules := by
  have hf := search_found h hl buffer
  generalize t.search buffer = trace at hf hr
  cases hf with
  | nothing visits _ => exact visits.mem_rules hr
  | tree _ _ visits _ _ _ _ _ => exact visits.mem_rules hr

/-- Sources with fewer than 0 + 1 + ... + 65535 bytes leave no rule at the last level. So the level
after the last rule's, with which each line is compared, and the level after that of a rule
evaluated in a search are the true sums. -/
theorem next_level_exact (sources : List (List UInt8))
    (h : (sources.map List.length).sum < 2147450880) :
    (∀ r ∈ (empty.mergeAll sources).rules, r.level ≠ 65535) ∧
    (∀ done source rest, sources = done ++ source :: rest →
      ∀ i n, ((empty.mergeAll done).progressAt source i).previous = some n →
        (n + 1).toNat = n.toNat + 1) ∧
    ∀ buffer, ∀ r ∈ ((empty.mergeAll sources).search buffer).evaluated,
      (r.level + 1).toNat = r.level.toNat + 1 := by
  have hlevel : ∀ r ∈ (empty.mergeAll sources).rules, r.level < 65535 := by
    obtain ⟨q, hq⟩ := grounded_mergeAll (t := empty) Grounded.start sources
    exact fun r hr => hq.level_lt (by omega) hr
  refine ⟨fun r hr => UInt16.ne_of_lt (hlevel r hr), ?_, ?_⟩
  · intro done source rest hs i n hn
    subst hs
    simp only [List.map_append, List.sum_append, List.map_cons, List.sum_cons] at h
    obtain ⟨q, hq⟩ := grounded_mergeAll (t := empty) Grounded.start done
    obtain ⟨rules, hrules⟩ := grounded_progressAt hq source i
    obtain ⟨r, hr, rfl⟩ := hrules.previous n hn
    exact toNat_succ_of_lt (hrules.level_lt (by omega) hr)
  · intro buffer r hr
    have hmem := mem_rules_of_evaluated (reachable_mergeAll .empty sources) hlevel hr
    exact toNat_succ_of_lt (hlevel r hmem)

def deepText : List UInt8 :=
  Byte.ascii "0 string AB text/x-ab\n>2 byte 0x58 text/x-abx\n>>3 byte 0x59 text/x-abxy\n"

def deeperText : List UInt8 :=
  Byte.ascii ">>>4 byte 0x5a text/x-abxyz\n"

/-- The second source goes on below the last rule of the first one. -/
theorem next_level_exact_continued :
    ([deepText, deeperText].map List.length).sum < 2147450880 ∧
      ((empty.mergeAll [deepText]).progressAt deeperText 0).previous = some 2 ∧
      ((2 : UInt16) + 1).toNat = (2 : UInt16).toNat + 1 ∧
      (∀ r ∈ (empty.mergeAll [deepText, deeperText]).rules, r.level ≠ 65535) ∧
      ∀ r ∈ ((empty.mergeAll [deepText, deeperText]).search (Byte.ascii "ABXYZ")).evaluated,
        (r.level + 1).toNat = r.level.toNat + 1 := by
  have hbytes : ([deepText, deeperText].map List.length).sum < 2147450880 := by decide +kernel
  have hprevious : ((empty.mergeAll [deepText]).progressAt deeperText 0).previous = some 2 := by
    decide +kernel
  obtain ⟨hlevels, hloader, hsearch⟩ := next_level_exact [deepText, deeperText] hbytes
  exact ⟨hbytes, hprevious, hloader [deepText] deeperText [] rfl 0 2 hprevious, hlevels,
    hsearch (Byte.ascii "ABXYZ")⟩

end RuleTable

end ContentType
