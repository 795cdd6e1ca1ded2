import ContentType.Verdict

namespace ContentType

namespace FileName

def endsWith (name ending : String) : Bool :=
  ending.toList.isSuffixOf name.toList

def contains (part : List Char) : List Char → Bool
  | [] => part.isEmpty
  | c :: s => part.isPrefixOf (c :: s) || contains part s

/-- No dot among the last four characters: headers are often written without an ending. -/
def lacksEnding (name : String) : Bool :=
  !(name.toList.drop (name.length - 4)).contains '.'

end FileName

namespace Verdict

def headerOrSource (isHeader : Bool) : String :=
  if isHeader then "hdr" else "src"

/-- The type that a file's name makes of a type. -/
def namedType (mime name : String) : String :=
  if mime = "text/x-c" ∨ mime = "text/x-objc" then
    mime ++ headerOrSource (FileName.endsWith name ".h")
  else if mime = "text/x-c++" then
    mime ++ headerOrSource (FileName.endsWith name ".h" || FileName.endsWith name ".hh" ||
      FileName.endsWith name ".H" || FileName.lacksEnding name)
  else if mime = "application/x-sharedlib" then
    if FileName.contains ".so".toList name.toList then mime else "application/x-executable"
  else mime

def named (v : Verdict) (name : String) : Verdict :=
  { v with mime := namedType v.mime name }

end Verdict

end ContentType
