import ContentType.Json.Basic

namespace ContentType.Json

/-- A character of a string literal: itself, or a code unit by number. -/
inductive Piece
  | char (c : Char)
  | unit (n : Nat)
deriving DecidableEq, Repr

def hexValue? (c : Char) : Option Nat :=
  if '0' ≤ c ∧ c ≤ '9' then some (c.toNat - '0'.toNat)
  else if 'a' ≤ c ∧ c ≤ 'f' then some (c.toNat - 'a'.toNat + 10)
  else if 'A' ≤ c ∧ c ≤ 'F' then some (c.toNat - 'A'.toNat + 10)
  else none

def hexUnit? (a b c d : Char) : Option Nat := do
  let a ← hexValue? a
  let b ← hexValue? b
  let c ← hexValue? c
  let d ← hexValue? d
  return ((a * 16 + b) * 16 + c) * 16 + d

/-- The character after a backslash, when it is escaped by a single letter. -/
def simpleEscape? (c : Char) : Option Char :=
  if c = '"' ∨ c = '\\' ∨ c = '/' then some c
  else if c = 'b' then some '\x08'
  else if c = 'f' then some '\x0c'
  else if c = 'n' then some '\n'
  else if c = 'r' then some '\r'
  else if c = 't' then some '\t'
  else none

/-- A string literal after its opening quote. -/
def readPieces : List Char → Option (List Piece × List Char)
  | [] => none
  | c :: s =>
    if c = '"' then some ([], s)
    else if c = '\\' then
      match s with
      | [] => none
      | e :: s =>
        if e = 'u' then
          match s with
          | h₁ :: h₂ :: h₃ :: h₄ :: s => do
            let n ← hexUnit? h₁ h₂ h₃ h₄
            let (ps, rest) ← readPieces s
            return (.unit n :: ps, rest)
          | _ => none
        else do
          let c ← simpleEscape? e
          let (ps, rest) ← readPieces s
          return (.char c :: ps, rest)
    else if c.toNat < 0x20 then none
    else do
      let (ps, rest) ← readPieces s
      return (.char c :: ps, rest)

/-- The text of a literal. Units from the surrogate range count only in pairs, the high one
first. -/
def assemble? : List Piece → Option (List Char)
  | [] => some []
  | .char c :: ps => (assemble? ps).map (c :: ·)
  | .unit n :: ps =>
    if 0xdc00 ≤ n ∧ n ≤ 0xdfff then none
    else if 0xd800 ≤ n ∧ n ≤ 0xdbff then
      match ps with
      | .unit m :: ps =>
        if 0xdc00 ≤ m ∧ m ≤ 0xdfff then
          (assemble? ps).map (Char.ofNat (0x10000 + (n - 0xd800) * 0x400 + (m - 0xdc00)) :: ·)
        else none
      | _ => none
    else (assemble? ps).map (Char.ofNat n :: ·)

def readString (s : List Char) : Option (Option String × List Char) := do
  let (ps, rest) ← readPieces s
  return ((assemble? ps).map String.ofList, rest)

def isDigit (c : Char) : Bool :=
  '0' ≤ c && c ≤ '9'

/-- A dot and at least one digit, or nothing. -/
def readFraction : List Char → Option (List Char × List Char)
  | '.' :: s =>
    let digits := s.takeWhile isDigit
    if digits = [] then none else some ('.' :: digits, s.dropWhile isDigit)
  | s => some ([], s)

/-- A mark, an optional sign and at least one digit, or nothing. -/
def readExponent : List Char → Option (List Char × List Char)
  | c :: s =>
    if c = 'e' ∨ c = 'E' then
      let (sign, s) :=
        match s with
        | '+' :: s => (['+'], s)
        | '-' :: s => (['-'], s)
        | s => ([], s)
      let digits := s.takeWhile isDigit
      if digits = [] then none else some (c :: sign ++ digits, s.dropWhile isDigit)
    else some ([], c :: s)
  | [] => some ([], [])

/-- A number. Its digits before the dot have no needless zero in front, and minus zero is not an
integer. -/
def readNumber (s : List Char) : Option (Json × List Char) := do
  let (sign, s) :=
    match s with
    | '-' :: s => (['-'], s)
    | s => ([], s)
  let digits := s.takeWhile isDigit
  if digits = [] ∨ (digits.head? = some '0' ∧ digits.length ≠ 1) then none
  else
    let (fraction, s) ← readFraction (s.dropWhile isDigit)
    let (exponent, s) ← readExponent s
    let n := Nat.ofDigitChars 10 digits 0
    let value :=
      if fraction = [] ∧ exponent = [] ∧ ¬ (sign ≠ [] ∧ n = 0) then
        if sign = [] then .int n else .int (-n)
      else .real (String.ofList (sign ++ digits ++ fraction ++ exponent))
    return (value, s)

mutual
/-- A value and the text after it. Each step spends fuel. -/
def readValue : Nat → List Char → Option (Json × List Char)
  | 0, _ => none
  | fuel + 1, s =>
    match s.dropWhile isBlank with
    | [] => none
    | '"' :: s => (readString s).map (fun (text, rest) => (.string text, rest))
    | '[' :: s =>
      match s.dropWhile isBlank with
      | ']' :: rest => some (.array [], rest)
      | s => (readItems fuel s).map (fun (items, rest) => (.array items, rest))
    | '\x7b' :: s =>
      match s.dropWhile isBlank with
      | '\x7d' :: rest => some (.object [], rest)
      | s => (readMembers fuel s).map (fun (members, rest) => (.object members, rest))
    | 'n' :: 'u' :: 'l' :: 'l' :: s => some (.null, s)
    | 't' :: 'r' :: 'u' :: 'e' :: s => some (.bool true, s)
    | 'f' :: 'a' :: 'l' :: 's' :: 'e' :: s => some (.bool false, s)
    | s => readNumber s
/-- At least one item, up to the closing bracket. -/
def readItems : Nat → List Char → Option (List Json × List Char)
  | 0, _ => none
  | fuel + 1, s => do
    let (v, s) ← readValue fuel s
    match s.dropWhile isBlank with
    | ',' :: s => do
      let (items, rest) ← readItems fuel s
      return (v :: items, rest)
    | ']' :: rest => return ([v], rest)
    | _ => none
/-- At least one member, up to the closing brace. -/
def readMembers : Nat → List Char → Option (List (Option String × Json) × List Char)
  | 0, _ => none
  | fuel + 1, s =>
    match s.dropWhile isBlank with
    | '"' :: s => do
      let (name, s) ← readString s
      match s.dropWhile isBlank with
      | ':' :: s => do
        let (v, s) ← readValue fuel s
        match s.dropWhile isBlank with
        | ',' :: s => do
          let (members, rest) ← readMembers fuel s
          return ((name, v) :: members, rest)
        | '\x7d' :: rest => return ([(name, v)], rest)
        | _ => none
      | _ => none
    | _ => none
end

/-- The document that a text holds, with nothing but blanks around it. -/
def parse? (s : String) : Option Json := do
  let text := s.toList
  let (v, rest) ← readValue (2 * text.length + 2) text
  if rest.dropWhile isBlank = [] then return v else none

end ContentType.Json
