import ContentType.Rule.Line
import ContentType.RuleTable.Basic

namespace ContentType

structure Warning where
  line : Nat
  fault : Fault
deriving DecidableEq, Repr

/-- What became of one line. -/
inductive LineOutcome
  | blank
  | added (rule : Rule)
  | rejected (warning : Warning)
deriving DecidableEq, Repr

namespace LineOutcome

def rule? : LineOutcome → Option Rule
  | added r => some r
  | _ => none

def warning? : LineOutcome → Option Warning
  | rejected w => some w
  | _ => none

end LineOutcome

/-- What the lines read so far leave behind: the level of the last rule of the table and, right
after a rejected line, the level whose continuations are rejected too. -/
structure Progress where
  previous : Option UInt16
  dropped : Option UInt16
deriving DecidableEq, Repr

namespace Progress

/-- Why a rule cannot come next. Levels grow by one at most. -/
def obstacle? (p : Progress) (r : Rule) : Option Fault :=
  match p.previous with
  | none => if 0 < r.level then some .orphanContinuation else none
  | some n => if n + 1 < r.level then some (.levelSkip n r.level) else none

/-- A line of this level is rejected. Among lines rejected in a row the lowest level counts. -/
def drop (p : Progress) (level : UInt16) : Progress :=
  { p with dropped := some (match p.dropped with | none => level | some n => min n level) }

/-- A readable rule below a rejected one is an orphan; any other one ends the rejection. -/
def place (p : Progress) (number : Nat) (r : Rule) : LineOutcome × Progress :=
  if p.dropped.any (fun n => n < r.level) then
    (.rejected ⟨number, .orphanContinuation⟩, p)
  else
    match p.obstacle? r with
    | some fault => (.rejected ⟨number, fault⟩, { p with dropped := some r.level })
    | none => (.added { r with line := number }, ⟨some r.level, none⟩)

/-- Read one line. An unreadable line is rejected at the level its marks give it. -/
def step (p : Progress) (number : Nat) (line : List UInt8) : LineOutcome × Progress :=
  match Line.read line with
  | .ok none => (.blank, p)
  | .ok (some r) => p.place number r
  | .error fault => (.rejected ⟨number, fault⟩, p.drop (Line.depth line))

/-- Read lines in order, numbering them. -/
def run : Progress → Nat → List (List UInt8) → List LineOutcome
  | _, _, [] => []
  | p, number, line :: rest =>
    let (outcome, next) := p.step number line
    outcome :: next.run (number + 1) rest

end Progress

structure Report where
  /-- Lines read, blank ones and comments among them. -/
  lines : Nat
  loaded : Nat
  errors : Nat
  warnings : List Warning
deriving DecidableEq, Repr

namespace Report

def isClean (r : Report) : Bool :=
  r.errors == 0

/-- A rejected line is an error and leaves a warning. -/
def reject (r : Report) (warning : Warning) : Report :=
  { r with errors := r.errors + 1, warnings := warning :: r.warnings }

/-- The report when one more line stands in front. -/
def count (r : Report) (outcome : LineOutcome) : Report :=
  let r := { r with lines := r.lines + 1 }
  match outcome with
  | .blank => r
  | .added _ => { r with loaded := r.loaded + 1 }
  | .rejected warning => r.reject warning

/-- The report on lines, by what became of each. -/
def ofOutcomes : List LineOutcome → Report
  | [] => ⟨0, 0, 0, []⟩
  | outcome :: rest => (ofOutcomes rest).count outcome

end Report

namespace RuleTable

/-- What becomes of the lines of a source read after the rules of a table. -/
def outcomes (t : RuleTable) (source : List UInt8) : List LineOutcome :=
  Progress.run ⟨t.rules.getLast?.map Rule.level, none⟩ 1 (Byte.lines source)

/-- The table with a source's rules after its own, and the report on the source. -/
def merge (t : RuleTable) (source : List UInt8) : RuleTable × Report :=
  let outcomes := t.outcomes source
  (ofRules (t.rules ++ outcomes.filterMap LineOutcome.rule?), .ofOutcomes outcomes)

end RuleTable

end ContentType
