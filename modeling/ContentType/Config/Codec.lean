import ContentType.Config.Basic
import ContentType.Json.Decode

namespace ContentType

namespace Limits

def toJson (l : Limits) : Json :=
  .record [("max_window", .nat l.window.toNat), ("max_rule_file_size", .nat l.ruleFile.toNat)]

end Limits

namespace Json

/-- A field's value, or a default for a field that is missing. -/
def field? (value : Json → Option α) (default : α) : Option Json → Option α
  | none => some default
  | some v => value v

end Json

namespace Path

/-- Only a path that is text can be written. -/
def toJson? (path : Path) : Option Json :=
  (Utf8.decode? path.bytes).map Json.text

def ofJson? (v : Json) : Option Path :=
  v.text?.map ofText

end Path

/-- A limit that is not written keeps its default. -/
def Limits.ofJson? (v : Json) : Option Limits := do
  match ← v.record? ["max_window", "max_rule_file_size"] with
  | [window, ruleFile] =>
    return {
      window := ← Json.field? Json.uint64? Limits.default.window window
      ruleFile := ← Json.field? Json.uint64? Limits.default.ruleFile ruleFile }
  | _ => none

namespace Config

def toJson? (c : Config) : Option Json := do
  let timeDirs ← c.timeDirs.mapM Path.toJson?
  let ruleFiles ← c.ruleFiles.mapM Path.toJson?
  return .record
    [("io", c.limits.toJson),
      ("follow_links", .bool c.followLinks),
      ("atime_dirs", .array timeDirs),
      ("rule_files", .array ruleFiles)]

/-- A setting that is not written keeps its default, one of which the system says. -/
def ofJson? (temporary : Path) (v : Json) : Option Config := do
  match ← v.record? ["io", "follow_links", "atime_dirs", "rule_files"] with
  | [limits, followLinks, timeDirs, ruleFiles] =>
    let basis := default temporary
    return {
      limits := ← Json.field? Limits.ofJson? basis.limits limits
      followLinks := ← Json.field? Json.bool? basis.followLinks followLinks
      timeDirs := ← Json.field? (Json.list? Path.ofJson?) basis.timeDirs timeDirs
      ruleFiles := ← Json.field? (Json.list? Path.ofJson?) basis.ruleFiles ruleFiles }
  | _ => none

end Config

end ContentType
