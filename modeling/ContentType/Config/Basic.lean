import ContentType.Path

namespace ContentType

structure Limits where
  /-- Bytes of a file or a buffer that are looked at. -/
  window : UInt64
  /-- Bytes that a rule file may have. -/
  ruleFile : UInt64
deriving DecidableEq, Repr

def Limits.default : Limits :=
  ⟨4000, 16777216⟩

structure Config where
  limits : Limits
  /-- Whether a link is judged by what it leads to. -/
  followLinks : Bool
  /-- Files directly in these directories keep their access times. -/
  timeDirs : List Path
  /-- Read after the rules that a detector starts with. -/
  ruleFiles : List Path
deriving DecidableEq, Repr

namespace Config

/-- The settings where nothing is set. The system says which directory is for temporary files. -/
def default (temporary : Path) : Config where
  limits := .default
  followLinks := false
  timeDirs := [temporary]
  ruleFiles := []

/-- Whether the directory that holds a file is one of the time directories. -/
def restoresTimes (c : Config) (path : Path) : Bool :=
  path.parent?.any (fun p => c.timeDirs.any p.same)

end Config

end ContentType
