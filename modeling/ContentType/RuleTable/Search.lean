import ContentType.RuleTable.Basic
import ContentType.Rule.Evaluate
import ContentType.Text.Blank
import ContentType.Verdict

namespace ContentType

/-- A rule's description without blanks at its ends, if anything is left. -/
def Rule.title? (r : Rule) : Option String :=
  let d := Text.trim r.description
  if d = "" then none else some d

/-- What a search did: the rules it evaluated and those it passed over as too deep, each in order,
and the description it ended with. -/
structure Trace where
  evaluated : List Rule
  passed : List Rule
  answer : Option String
deriving DecidableEq, Repr

namespace Trace

def ending (answer : Option String) : Trace :=
  ⟨[], [], answer⟩

def evaluating (r : Rule) (t : Trace) : Trace :=
  { t with evaluated := r :: t.evaluated }

def passing (r : Rule) (t : Trace) : Trace :=
  { t with passed := r :: t.passed }

/-- A second search after a first one that found nothing. -/
def followedBy (t u : Trace) : Trace :=
  ⟨t.evaluated ++ u.evaluated, t.passed ++ u.passed, u.answer⟩

end Trace

namespace RuleTable

/-- Walk the continuations of a rule that holds, from index `i` to the end of its span. A rule is
evaluated when it is no deeper than one level below the last rule evaluated that held; one that
fails is left at the end of its own span. -/
def walk (t : RuleTable) (buffer : List UInt8) (stop : Nat) (within : stop ≤ t.rules.length)
    (eligible : UInt16) (answer : Option String) (i : Nat) : Trace :=
  if h : i < stop then
    have bound : i < t.rules.length := Nat.lt_of_lt_of_le h within
    let r := t.rules[i]
    if eligible < r.level then (t.walk buffer stop within eligible answer (i + 1)).passing r
    else if r.evaluate buffer then
      (t.walk buffer stop within (r.level + 1) (r.title?.or answer) (i + 1)).evaluating r
    else (t.walk buffer stop within r.level answer (t.spanEnd i)).evaluating r
  else .ending answer
termination_by stop - i
decreasing_by
  · omega
  · omega
  · have := t.lt_spanEnd bound; omega

/-- Search from a top-level rule on. -/
def searchFrom (t : RuleTable) (buffer : List UInt8) (top : Nat) : Trace :=
  if h : top < t.rules.length then
    let r := t.rules[top]
    if r.evaluate buffer then
      let chain := (t.walk buffer (t.spanEnd top) (t.spanEnd_le_size top) 1 r.title?
        (top + 1)).evaluating r
      match chain.answer with
      | some _ => chain
      | none => chain.followedBy (t.searchFrom buffer (t.spanEnd top))
    else (t.searchFrom buffer (t.spanEnd top)).evaluating r
  else .ending none
termination_by t.rules.length - top
decreasing_by
  all_goals have := t.lt_spanEnd h; omega

def search (t : RuleTable) (buffer : List UInt8) : Trace :=
  t.searchFrom buffer 0

/-- The verdict of the rules on a buffer. -/
def find (t : RuleTable) (buffer : List UInt8) : Option Verdict :=
  (t.search buffer).answer.map Verdict.certain

end RuleTable

end ContentType
