import ContentType.Rule.Basic
import ContentType.Rule.Fault
import ContentType.Rule.Field
import ContentType.Rule.Literal
import ContentType.Rule.Numeral
import ContentType.Text.Utf8

namespace ContentType.Line
open Byte

def isMark (b : UInt8) : Bool := b == '>'.toUInt8

/-- How many continuation marks stand in front of a line. -/
def marks (line : List UInt8) : Nat :=
  ((skipSpace line).takeWhile isMark).length

/-- The level at which a line is rejected, its marks counted modulo 2^16. -/
def depth (line : List UInt8) : UInt16 :=
  UInt16.ofNat (marks line)

/-- The line without the newlines and carriage returns at its end. -/
def strip (line : List UInt8) : List UInt8 :=
  (line.reverse.dropWhile (fun b => b == 0x0a || b == 0x0d)).reverse

/-- What a rule's line settles before its test. -/
structure Head where
  level : UInt16
  pointer : Option Pointer
  offset : Int64
  unsigned : Bool
  type : FieldType
deriving DecidableEq, Repr

def token (s : List UInt8) : String :=
  Utf8.decodeLossy (word s)

/-- An offset keeps its low 32 bits, read as a signed number. -/
def readOffset (s : List UInt8) : Except Fault (Int64 × List UInt8) :=
  match Numeral.read? s with
  | none => .error (.invalidOffset (token s))
  | some (n, rest) => .ok (n.toInt32.toInt64, rest)

/-- An optional letter after a dot gives the pointer's width. -/
def readWidth : List UInt8 → Except Fault (PointerWidth × List UInt8)
  | [] => .ok (.long, [])
  | dot :: s =>
    if dot = '.'.toUInt8 then
      match s with
      | [] => .error .missingParenthesis
      | c :: rest =>
        if c = 'l'.toUInt8 then .ok (.long, rest)
        else if c = 's'.toUInt8 then .ok (.short, rest)
        else if c = 'b'.toUInt8 then .ok (.byte, rest)
        else .error (.invalidPointerWidth (Char.ofNat c.toNat))
    else .ok (.long, dot :: s)

/-- An optional sign and an optional unsigned number; a number needs no sign, nor a sign a
number. -/
def readAdjust (s : List UInt8) : Int64 × List UInt8 :=
  let signed := Numeral.sign s
  match signed.2 with
  | [] => (0, [])
  | c :: _ =>
    if isDigit c then
      match Numeral.read? signed.2 with
      | none => (0, signed.2)
      | some (n, rest) => (if signed.1 then -n else n, rest)
    else (0, signed.2)

/-- What follows the number inside the parentheses of an indirect offset. -/
def readPointer (s : List UInt8) : Except Fault (Pointer × List UInt8) := do
  let (width, s) ← readWidth s
  let (adjust, s) := readAdjust s
  match s with
  | [] => .error .missingParenthesis
  | c :: rest =>
    if c = ')'.toUInt8 then .ok (⟨width, adjust⟩, rest) else .error .missingParenthesis

/-- An optional `u` and the first keyword that the text starts with. -/
def readType (s : List UInt8) : Except Fault (Bool × FieldType × List UInt8) :=
  let (unsigned, s) :=
    match s with
    | [] => (false, [])
    | c :: rest => if c = 'u'.toUInt8 then (true, rest) else (false, c :: rest)
  match FieldType.all.find? (fun t => (ascii t.keyword).isPrefixOf s) with
  | none => .error (.unknownType (token s))
  | some t => .ok (unsigned, t, s.drop (ascii t.keyword).length)

/-- An offset or, in parentheses and only behind a mark, an indirect one. -/
def readPlace (marked : Bool) : List UInt8 → Except Fault (Option Pointer × Int64 × List UInt8)
  | [] => do
    let (offset, s) ← readOffset []
    pure (none, offset, s)
  | c :: inner =>
    if c = '('.toUInt8 then
      if marked then do
        let (offset, s) ← readOffset inner
        let (pointer, s) ← readPointer s
        pure (some pointer, offset, s)
      else .error .indirectOnTopLevel
    else do
      let (offset, s) ← readOffset (c :: inner)
      pure (none, offset, s)

/-- Marks, the offset and the type. Digits left over after the offset are passed over. -/
def readHead (s : List UInt8) : Except Fault (Head × List UInt8) := do
  let marks := s.takeWhile isMark
  let level := UInt16.ofNat (min marks.length 65535)
  let (pointer, offset, s) ← readPlace (!marks.isEmpty) (s.dropWhile isMark)
  let (unsigned, type, s) ← readType (skipSpace (s.dropWhile isDigit))
  pure (⟨level, pointer, offset, unsigned, type⟩, s)

/-- A constant of the rule's width; zero when no number is written. -/
def readConstant (type : FieldType) (unsigned : Bool) (s : List UInt8) : UInt64 × List UInt8 :=
  match Numeral.read? s with
  | none => (signExtend type unsigned 0, s)
  | some (n, rest) => (signExtend type unsigned n.toUInt64, rest)

def readMask (type : FieldType) (unsigned : Bool) : List UInt8 → UInt64 × List UInt8
  | [] => (-1, [])
  | c :: s => if c = '&'.toUInt8 then readConstant type unsigned s else (-1, c :: s)

/-- The relation's symbol, equality when there is none. A string is never compared by `!`, and `x`
is the wildcard only as a word of its own. -/
def readRelation (type : FieldType) : List UInt8 → Relation × List UInt8
  | [] => (.equal, [])
  | c :: s =>
    match Relation.ofByte? c with
    | none => (.equal, c :: s)
    | some .notEqual => if type = .string then (.equal, c :: s) else (.notEqual, s)
    | some .any => if s.head?.all isSpace then (.any, s) else (.equal, c :: s)
    | some r => (r, s)

def readExpected (type : FieldType) (unsigned : Bool) (relation : Relation) (s : List UInt8) :
    Expected × List UInt8 :=
  if relation = .any then (.none, s)
  else
    match type with
    | .string =>
      let (literal, rest) := Literal.read Literal.maxLength (skipSpace s)
      (.bytes literal, rest)
    | _ =>
      let (n, rest) := readConstant type unsigned (skipSpace s)
      (.number n, rest)

/-- A backspace in front of the description, as a byte or as an escape. -/
def readNoSpace : List UInt8 → Bool × List UInt8
  | [] => (false, [])
  | c :: s =>
    if c = 0x08 then (true, s)
    else if c = '\\'.toUInt8 && s.head? = some 'b'.toUInt8 then (true, s.tail)
    else (false, c :: s)

/-- Longest description kept, in bytes. -/
def maxDescription : Nat := 49

/-- Up to so many bytes of description, which ends at a `#` that no backslash precedes. -/
def descriptionBytes : Nat → List UInt8 → List UInt8
  | 0, _ => []
  | _ + 1, [] => []
  | room + 1, c :: s =>
    if c = '#'.toUInt8 then []
    else if c = '\\'.toUInt8 && s.head? = some '#'.toUInt8 then
      '#'.toUInt8 :: descriptionBytes room s.tail
    else c :: descriptionBytes room s

def description (s : List UInt8) : String :=
  Utf8.decodeLossy ((descriptionBytes maxDescription s).reverse.dropWhile isSpace).reverse

/-- The part of a rule after its head. -/
def readTest (head : Head) (s : List UInt8) : Rule :=
  let (mask, s) := readMask head.type head.unsigned s
  let (relation, s) := readRelation head.type (skipSpace s)
  let (expected, s) := readExpected head.type head.unsigned relation s
  let (noSpace, s) := readNoSpace (skipSpace s)
  { level := head.level, pointer := head.pointer, offset := head.offset, type := head.type,
    mask, relation, expected, unsigned := head.unsigned,
    description := description s, noSpace, line := 0 }

/-- The rule on a line, `none` for a blank line or a comment. -/
def read (line : List UInt8) : Except Fault (Option Rule) :=
  match skipSpace (strip line) with
  | [] => .ok none
  | c :: s =>
    if c = '#'.toUInt8 then .ok none
    else do
      let (head, rest) ← readHead (c :: s)
      pure (some (readTest head rest))

end ContentType.Line
