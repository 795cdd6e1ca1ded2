namespace ContentType

/-- A document as it is written: members keep their order and may repeat, and a number that is not
written as an integer stays a text. -/
inductive Json
  | null
  | bool (b : Bool)
  | int (n : Int)
  /-- A number with a fraction or an exponent, or minus zero, as written. -/
  | real (literal : String)
  /-- `none` when the literal's escapes name half of a surrogate pair, which is no text. -/
  | string (text : Option String)
  | array (items : List Json)
  | object (members : List (Option String × Json))

namespace Json

def text (s : String) : Json :=
  .string (some s)

def nat (n : Nat) : Json :=
  .int (Int.ofNat n)

/-- An object whose members all have names. -/
def record (members : List (String × Json)) : Json :=
  .object (members.map (fun (name, value) => (some name, value)))

def isBlank (c : Char) : Bool :=
  c == ' ' || c == '\n' || c == '\t' || c == '\r'

end Json

end ContentType
