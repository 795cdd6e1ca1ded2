import ContentType.FileSystem.Basic

namespace ContentType

/-- Why rules or settings could not be loaded from a file. -/
inductive LoadError
  | file (cause : FileError)
  | ruleFile (path : Path) (cause : FileError)
  | ruleFileTooLarge (path : Path) (size limit : Nat)
  | config
deriving DecidableEq, Repr

def LoadError.message : LoadError → String
  | file cause => "I/O error: " ++ cause.message
  | ruleFile path cause => "can't read magic file " ++ path.shown ++ ": " ++ cause.message
  | ruleFileTooLarge path size limit =>
    "magic file " ++ path.shown ++ " is " ++ Nat.repr size ++ " bytes, limit is " ++
      Nat.repr limit
  | config => "Configuration error"

end ContentType
