import ContentType.RuleTable.Span

namespace ContentType

/-- Rules in the order in which they were read. The continuations of a rule follow it, each deeper
than the rule itself. -/
structure RuleTable where
  rules : List Rule
  /-- Where each rule's continuations end, found when the rules were read. -/
  spanEnds : List Nat
  swept : spanEnds = Span.ends rules
deriving DecidableEq, Repr

structure TableStats where
  rules : Nat
  topLevel : Nat
  maxLevel : UInt16
deriving DecidableEq, Repr

namespace RuleTable

def ofRules (rules : List Rule) : RuleTable :=
  ⟨rules, Span.ends rules, rfl⟩

def empty : RuleTable :=
  ofRules []

def size (t : RuleTable) : Nat :=
  t.rules.length

/-- Index of the first rule after the continuations of rule `i`; the table's size when rule `i` is
not there. -/
def spanEnd (t : RuleTable) (i : Nat) : Nat :=
  t.spanEnds[i]?.getD t.size

def stats (t : RuleTable) : TableStats where
  rules := t.size
  topLevel := t.rules.countP (fun r => r.level == 0)
  maxLevel := t.rules.foldl (fun n r => max n r.level) 0

theorem length_spanEnds (t : RuleTable) : t.spanEnds.length = t.size := by
  rw [t.swept, Span.length_ends, size]

theorem spanEnd_isEnd (t : RuleTable) {i : Nat} (hi : i < t.size) :
    Span.IsEnd t.rules i (t.spanEnd i) := by
  obtain ⟨e, he, hend⟩ := Span.ends_isEnd hi
  simpa [spanEnd, t.swept, he] using hend

theorem lt_spanEnd (t : RuleTable) {i : Nat} (hi : i < t.size) : i < t.spanEnd i :=
  (t.spanEnd_isEnd hi).later

theorem spanEnd_past (t : RuleTable) {i : Nat} (hi : t.size ≤ i) : t.spanEnd i = t.size := by
  simp [spanEnd, List.getElem?_eq_none (t.length_spanEnds ▸ hi)]

theorem spanEnd_le_size (t : RuleTable) (i : Nat) : t.spanEnd i ≤ t.size := by
  by_cases hi : i < t.size
  · exact (t.spanEnd_isEnd hi).bounded
  · exact Nat.le_of_eq (t.spanEnd_past (Nat.le_of_not_lt hi))

end RuleTable

end ContentType
