import ContentType.LoadError
import ContentType.RuleTable.Merge

namespace ContentType

/-- The content of a rule file no larger than a limit. -/
def FileSystem.ruleSource (fs : FileSystem) (path : Path) (limit : Nat) :
    Except LoadError (List UInt8) :=
  match fs.openFile path with
  | .error e => .error (.ruleFile path e)
  | .ok f =>
    if limit < f.size then .error (.ruleFileTooLarge path f.size limit)
    else
      match f.readAll limit with
      | .error e => .error (.ruleFile path e)
      | .ok source => .ok source

namespace RuleTable

/-- The table after a rule file, and the report or the reason why there is none. -/
def mergeFile (t : RuleTable) (fs : FileSystem) (path : Path) (limit : Nat) :
    RuleTable × Except LoadError Report :=
  match fs.ruleSource path limit with
  | .error e => (t, .error e)
  | .ok source =>
    let (t, report) := t.merge source
    (t, .ok report)

/-- Merge rule files in order, whether each can be read or not. -/
def mergeFiles (t : RuleTable) (fs : FileSystem) (paths : List Path) (limit : Nat) : RuleTable :=
  paths.foldl (fun t path => (t.mergeFile fs path limit).1) t

end RuleTable

end ContentType
