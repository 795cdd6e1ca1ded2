import ContentType.Json.Decode

namespace ContentType

/-- A content type and how sure it is, in percent. -/
structure Verdict where
  mime : String
  accuracy : UInt8
deriving DecidableEq, Repr

namespace Verdict

/-- No verdict is made more than certain. -/
def make (mime : String) (accuracy : UInt8) : Verdict :=
  ⟨mime, min accuracy 100⟩

def certain (mime : String) : Verdict :=
  make mime 100

def isText (v : Verdict) : Bool :=
  "text/".toList.isPrefixOf v.mime.toList

def text (v : Verdict) : String :=
  v.mime ++ " (" ++ Nat.repr v.accuracy.toNat ++ "%)"

def toJson (v : Verdict) : Json :=
  .record [("mime_type", .text v.mime), ("accuracy", .nat v.accuracy.toNat)]

def ofJson? (v : Json) : Option Verdict := do
  match ← v.record? ["mime_type", "accuracy"] with
  | [some mime, some accuracy] => return ⟨← mime.text?, ← accuracy.uint8?⟩
  | _ => none

end Verdict

end ContentType
