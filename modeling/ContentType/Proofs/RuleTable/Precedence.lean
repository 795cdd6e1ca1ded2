import ContentType.Proofs.RuleTable.Answer
import ContentType.Proofs.RuleTable.Concatenation

namespace ContentType
open ContentType.Span

namespace RuleTable

/-- The span of a rule goes on as long as the rules are deeper. -/
theorem lt_spanEnd_iff_deeper {t : RuleTable} {a i : Nat} (ha : a < i) (hi : i < t.size) :
    i < t.spanEnd a ↔ ∀ k, a < k → k ≤ i → levelAt t.rules a < levelAt t.rules k := by
  have hend := t.spanEnd_isEnd (Nat.lt_trans ha hi)
  constructor
  · intro h k hak hki
    exact hend.deeper k hak (Nat.lt_of_le_of_lt hki h)
  · intro h
    apply Nat.lt_of_not_le
    intro hle
    exact absurd hend.stop (Nat.not_le.mpr (h _ hend.later hle))

section Extended

variable {t u : RuleTable} {buffer : List UInt8} {a i root : Nat} {title : String}

theorem getElem_extended (h : t.rules <+: u.rules) (hi : i < t.size) :
    u.rules[i]? = t.rules[i]? := by
  obtain ⟨more, he⟩ := h
  rw [← he, List.getElem?_append_left hi]

theorem levelAt_extended (h : t.rules <+: u.rules) (hi : i < t.size) :
    levelAt u.rules i = levelAt t.rules i := by
  simp only [levelAt, getElem_extended h hi]

theorem lt_spanEnd_extended (h : t.rules <+: u.rules) (ha : a < i) (hi : i < t.size) :
    i < u.spanEnd a ↔ i < t.spanEnd a := by
  have hu : i < u.size := Nat.lt_of_lt_of_le hi h.length_le
  rw [lt_spanEnd_iff_deeper ha hu, lt_spanEnd_iff_deeper ha hi]
  refine forall_congr' fun k => imp_congr_right fun _ => imp_congr_right fun hk => ?_
  rw [levelAt_extended h (Nat.lt_trans ha hi), levelAt_extended h (Nat.lt_of_le_of_lt hk hi)]

/-- Whether one rule lies below another does not depend on what follows both. -/
theorem ancestor_extended (h : t.rules <+: u.rules) (hi : i < t.size) :
    u.Ancestor a i ↔ t.Ancestor a i := by
  rw [ancestor_iff, ancestor_iff]
  exact and_congr_right fun ha => lt_spanEnd_extended h ha hi

theorem topLevel_extended (h : t.rules <+: u.rules) (hroot : root < t.size) :
    u.TopLevel root ↔ t.TopLevel root := by
  have hu : root < u.size := Nat.lt_of_lt_of_le hroot h.length_le
  rw [topLevel_iff, topLevel_iff, levelAt_extended h hroot]
  exact and_congr_left fun _ => iff_of_true hu hroot

theorem inTree_extended (h : t.rules <+: u.rules) (hi : i < t.size) :
    u.InTree root i ↔ t.InTree root i := by
  rw [inTree_iff, inTree_iff]
  by_cases hle : root ≤ i
  · rw [topLevel_extended h (Nat.lt_of_le_of_lt hle hi)]
    refine and_congr_right fun _ => and_congr_right fun _ => ?_
    rcases Nat.lt_or_eq_of_le hle with hlt | rfl
    · exact lt_spanEnd_extended h hlt hi
    · exact iff_of_true (u.lt_spanEnd (Nat.lt_of_lt_of_le hi h.length_le)) (t.lt_spanEnd hi)
  · exact iff_of_false (fun hx => hle hx.2.1) (fun hx => hle hx.2.1)

theorem holds_extended (h : t.rules <+: u.rules) (hi : i < t.size) :
    u.Holds buffer i ↔ t.Holds buffer i := by
  unfold Holds
  rw [getElem_extended h hi]

theorem named_extended (h : t.rules <+: u.rules) (hi : i < t.size) :
    u.Named buffer i title ↔ t.Named buffer i title := by
  have hreached : u.Reached buffer i ↔ t.Reached buffer i := by
    refine forall_congr' fun a => ?_
    rw [ancestor_extended h hi]
    refine imp_congr_right fun ha => ?_
    exact holds_extended h (Nat.lt_trans (ancestor_iff.mp ha).1 hi)
  unfold Named Active
  rw [holds_extended h hi, hreached, getElem_extended h hi]

/-- The first tree with a named rule stays the first one, however the last tree goes on. -/
theorem FirstTree.extend (h : t.rules <+: u.rules) (hf : t.FirstTree buffer root) :
    u.FirstTree buffer root := by
  obtain ⟨i, title, hi, hn⟩ := hf.named
  have hsize := Nat.lt_of_lt_of_le (inTree_iff.mp hi).2.2 (t.spanEnd_le_size root)
  have hu := (inTree_extended h hsize).mpr hi
  refine ⟨⟨i, title, hu, (named_extended h hsize).mpr hn⟩, fun other j s hj hm => ?_⟩
  apply Nat.le_of_not_lt
  intro hlt
  -- An earlier tree ends before this one begins, so all of it lies among the old rules.
  have hend := hu.1.spanEnd_le hlt
  have hjend := (inTree_iff.mp hj).2.2
  have hroot := (inTree_iff.mp hi).2.1
  have hold : j < t.size := by omega
  have := hf.first other j s ((inTree_extended h hold).mp hj) ((named_extended h hold).mp hm)
  omega

end Extended

/-- The rule that gives a tree its name. -/
structure LastNamed (t : RuleTable) (buffer : List UInt8) (root i : Nat) (title : String) :
    Prop where
  tree : t.InTree root i
  named : t.Named buffer i title
  last : ∀ j s, t.InTree root j → t.Named buffer j s → j ≤ i

theorem LastNamed.unique {t : RuleTable} {buffer : List UInt8} {root i j : Nat}
    {title other : String} (h : t.LastNamed buffer root i title)
    (h' : t.LastNamed buffer root j other) : i = j ∧ title = other := by
  obtain rfl := Nat.le_antisymm (h'.last i title h.tree h.named) (h.last j other h'.tree h'.named)
  exact ⟨rfl, h.named.unique h'.named⟩

theorem answer_iff_lastNamed {t : RuleTable} {buffer : List UInt8} {title : String} :
    t.Answer buffer title ↔
      ∃ root i, t.FirstTree buffer root ∧ t.LastNamed buffer root i title := by
  constructor
  · intro hx
    obtain ⟨root, i, hroot, htree, hn, hlast⟩ := hx
    exact ⟨root, i, hroot, htree, hn, hlast⟩
  · intro hx
    obtain ⟨root, i, hroot, htree, hn, hlast⟩ := hx
    exact ⟨root, i, hroot, htree, hn, hlast⟩

section Find

variable {t u : RuleTable} {buffer : List UInt8} {root i : Nat} {title : String} {v : Verdict}

theorem lastNamed_of_find (h : Reachable t) (hl : ∀ r ∈ t.rules, r.level < 65535)
    (hv : t.find buffer = some v) :
    ∃ root i, t.FirstTree buffer root ∧ t.LastNamed buffer root i v.mime ∧
      v = .certain v.mime := by
  unfold find at hv
  rcases search_answer h hl buffer with ⟨ha, _⟩ | ⟨title, ha, hans⟩
  · rw [ha] at hv
    cases hv
  · rw [ha] at hv
    obtain rfl : Verdict.certain title = v := Option.some.inj hv
    obtain ⟨root, i, hroot, hlast⟩ := answer_iff_lastNamed.mp hans
    exact ⟨root, i, hroot, hlast, rfl⟩

theorem find_of_firstTree (h : Reachable t) (hl : ∀ r ∈ t.rules, r.level < 65535)
    (hroot : t.FirstTree buffer root) :
    ∃ i title, t.LastNamed buffer root i title ∧ t.find buffer = some (.certain title) := by
  unfold find
  rcases search_answer h hl buffer with ⟨_, hu⟩ | ⟨title, ha, hans⟩
  · obtain ⟨i, title, _, hn⟩ := hroot.named
    exact absurd hn (hu i title)
  · obtain ⟨other, i, hother, hlast⟩ := answer_iff_lastNamed.mp hans
    obtain rfl := hroot.unique hother
    exact ⟨i, title, hlast, by rw [ha]; rfl⟩

/-- A last name among the old rules was the last one before. -/
theorem LastNamed.restrict (hp : t.rules <+: u.rules) (h : u.LastNamed buffer root i title)
    (hi : i < t.size) : t.LastNamed buffer root i title := by
  refine ⟨(inTree_extended hp hi).mp h.tree, (named_extended hp hi).mp h.named, ?_⟩
  intro j s hj hm
  have hsize := Nat.lt_of_lt_of_le (inTree_iff.mp hj).2.2 (t.spanEnd_le_size root)
  exact h.last j s ((inTree_extended hp hsize).mpr hj) ((named_extended hp hsize).mpr hm)

end Find

variable {t : RuleTable} {buffer : List UInt8} {v : Verdict}

/-- An answer is never lost. It is kept when the source opens with an unmarked line; and in general
exactly when no added rule is the last one with a name in the answering tree, or that name is the
same. -/
theorem find_merge_iff (h : Reachable t) (source : List UInt8) (hv : t.find buffer = some v) :
    (OpensUnmarked (Byte.lines source) → (t.merge source).1.find buffer = some v) ∧
    ((∀ r ∈ (t.merge source).1.rules, r.level < 65535) →
      (∃ w, (t.merge source).1.find buffer = some w) ∧
      ((t.merge source).1.find buffer = some v ↔
        ∀ root i title, t.FirstTree buffer root → t.size ≤ i →
          (t.merge source).1.LastNamed buffer root i title → title = v.mime)) := by
  refine ⟨fun ho => by rw [t.find_merge_of_opensUnmarked ho, hv, Option.some_or], fun hl => ?_⟩
  have hp : t.rules <+: (t.merge source).1.rules := List.prefix_append _ _
  have hlt : ∀ r ∈ t.rules, r.level < 65535 := fun r hr => hl r (List.mem_append_left _ hr)
  obtain ⟨root, k, hroot, hold, hcertain⟩ := lastNamed_of_find h hlt hv
  obtain ⟨i, title, hnew, hfind⟩ := find_of_firstTree (h.merge source) hl (hroot.extend hp)
  rw [hfind]
  refine ⟨⟨_, rfl⟩, ?_⟩
  constructor
  · intro he other j s hother _ hlast
    obtain rfl := hroot.unique hother
    rw [(hlast.unique hnew).2]
    exact congrArg Verdict.mime (Option.some.inj he)
  · intro hall
    have he : title = v.mime := by
      rcases Nat.lt_or_ge i t.size with hi | hi
      · exact ((hnew.restrict hp hi).unique hold).2
      · exact hall root i title hroot hi hnew
    rw [he, ← hcertain]

/-- A source that goes on with the tree of an earlier one, and names what that one has named. -/
def continuedTree : RuleTable :=
  ofSource (Byte.ascii "0 string AB text/x-ab\n")

def continuingSource : List UInt8 :=
  Byte.ascii ">2 byte 0x58 text/x-abx\n"

theorem find_merge_iff_continued_tree :
    Reachable continuedTree ∧
      continuedTree.find (Byte.ascii "ABX") = some ⟨"text/x-ab", 100⟩ ∧
      (∀ r ∈ (continuedTree.merge continuingSource).1.rules, r.level < 65535) ∧
      ¬ ∀ root i title, continuedTree.FirstTree (Byte.ascii "ABX") root →
        continuedTree.size ≤ i →
        (continuedTree.merge continuingSource).1.LastNamed (Byte.ascii "ABX") root i title →
        title = "text/x-ab" := by
  have hreach : Reachable continuedTree := .merge _ .empty
  have hv : continuedTree.find (Byte.ascii "ABX") = some ⟨"text/x-ab", 100⟩ := by decide +kernel
  have hl : ∀ r ∈ (continuedTree.merge continuingSource).1.rules, r.level < 65535 := by
    decide +kernel
  refine ⟨hreach, hv, hl, fun hall => ?_⟩
  have hkept := ((find_merge_iff hreach continuingSource hv).2 hl).2.mpr hall
  have hchanged : (continuedTree.merge continuingSource).1.find (Byte.ascii "ABX") ≠
      some ⟨"text/x-ab", 100⟩ := by decide +kernel
  exact hchanged hkept

/-- The rule of a merged source takes the place of an answer that was there before. -/
theorem find_merge_overridden :
    Reachable continuedTree ∧
      continuedTree.find (Byte.ascii "ABX") = some ⟨"text/x-ab", 100⟩ ∧
      (continuedTree.merge continuingSource).1.find (Byte.ascii "ABX") =
        some ⟨"text/x-abx", 100⟩ :=
  ⟨.merge _ .empty, by decide +kernel, by decide +kernel⟩

end RuleTable

end ContentType
