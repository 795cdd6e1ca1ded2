import ContentType.Rule.Basic
import ContentType.Text.Decimal

namespace ContentType

/-- A literal's byte, escaped unless it is a printable ASCII character other than a quote or a
backslash. -/
def escapedByte (b : UInt8) : List Char :=
  if b = 0x09 then ['\\', 't']
  else if b = 0x0d then ['\\', 'r']
  else if b = 0x0a then ['\\', 'n']
  else if b = '\''.toUInt8 then ['\\', '\'']
  else if b = '"'.toUInt8 then ['\\', '"']
  else if b = '\\'.toUInt8 then ['\\', '\\']
  else if 0x20 ≤ b && b ≤ 0x7e then [Char.ofNat b.toNat]
  else ['\\', 'x', Nat.digitChar (b.toNat / 16), Nat.digitChar (b.toNat % 16)]

def hexNumber (n : UInt64) : List Char :=
  '0' :: 'x' :: Nat.toDigits 16 n.toNat

/-- A number that always shows its sign. -/
def signedDecimal (z : Int) : List Char :=
  if 0 ≤ z then '+' :: Text.decimal z else Text.decimal z

def Expected.chars : Expected → List Char
  | number n => hexNumber n
  | bytes literal => literal.flatMap escapedByte
  | none => []

namespace Rule

def place (r : Rule) : List Char :=
  match r.pointer with
  | none => Text.decimal r.offset.toInt
  | some p =>
    '(' :: Text.decimal r.offset.toInt ++
      '.' :: p.width.letter :: signedDecimal p.adjust.toInt ++ [')']

def chars (r : Rule) : List Char :=
  List.replicate r.level.toNat '>' ++ r.place ++ ' ' :: (if r.unsigned then ['u'] else []) ++
    r.type.keyword.toList ++ (if r.mask = -1 then [] else '&' :: hexNumber r.mask) ++
    ' ' :: r.relation.symbol :: r.expected.chars ++
    (if r.description = "" then [] else ' ' :: r.description.toList)

def text (r : Rule) : String :=
  String.ofList r.chars

end Rule

end ContentType
