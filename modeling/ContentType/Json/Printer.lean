import ContentType.Json.Basic
import ContentType.Text.Decimal

namespace ContentType.Json

/-- A code unit by its number, in four lower-case hex digits. -/
def unitEscape (n : Nat) : List Char :=
  ['\\', 'u', Nat.digitChar (n / 4096 % 16), Nat.digitChar (n / 256 % 16),
    Nat.digitChar (n / 16 % 16), Nat.digitChar (n % 16)]

/-- Quotes, backslashes and controls are escaped, the common controls by a letter. -/
def escaped (c : Char) : List Char :=
  if c = '"' then ['\\', '"']
  else if c = '\\' then ['\\', '\\']
  else if c = '\x08' then ['\\', 'b']
  else if c = '\x0c' then ['\\', 'f']
  else if c = '\n' then ['\\', 'n']
  else if c = '\r' then ['\\', 'r']
  else if c = '\t' then ['\\', 't']
  else if c.toNat < 0x20 then unitEscape c.toNat
  else [c]

/-- A string that is no text is written as half of a surrogate pair. -/
def quoted : Option String → List Char
  | some s => '"' :: s.toList.flatMap escaped ++ ['"']
  | none => '"' :: unitEscape 0xd800 ++ ['"']

mutual
def chars : Json → List Char
  | .null => ['n', 'u', 'l', 'l']
  | .bool true => ['t', 'r', 'u', 'e']
  | .bool false => ['f', 'a', 'l', 's', 'e']
  | .int n => Text.decimal n
  | .real literal => literal.toList
  | .string text => quoted text
  | .array items => '[' :: itemChars items
  | .object members => '\x7b' :: memberChars members
/-- Items up to the closing bracket. -/
def itemChars : List Json → List Char
  | [] => [']']
  | [v] => v.chars ++ [']']
  | v :: w :: rest => v.chars ++ ',' :: itemChars (w :: rest)
/-- Members up to the closing brace. -/
def memberChars : List (Option String × Json) → List Char
  | [] => ['\x7d']
  | [(name, v)] => quoted name ++ ':' :: v.chars ++ ['\x7d']
  | (name, v) :: m :: rest => quoted name ++ ':' :: v.chars ++ ',' :: memberChars (m :: rest)
end

def print (v : Json) : String :=
  String.ofList v.chars

end ContentType.Json
