namespace ContentType

inductive ByteOrder
  | big
  | little
  /-- The order of the machine that runs the test. -/
  | native
deriving DecidableEq, Repr

/-- What the bytes at a rule's offset are taken for. -/
inductive FieldType
  | byte | short | long | string | date
  | beShort | beLong | beDate
  | leShort | leLong | leDate
deriving DecidableEq, Repr

namespace FieldType

/-- In the order in which keywords are tried. -/
def all : List FieldType :=
  [byte, short, long, string, date, beShort, beLong, beDate, leShort, leLong, leDate]

def keyword : FieldType → String
  | byte => "byte"
  | short => "short"
  | long => "long"
  | string => "string"
  | date => "date"
  | beShort => "beshort"
  | beLong => "belong"
  | beDate => "bedate"
  | leShort => "leshort"
  | leLong => "lelong"
  | leDate => "ledate"

/-- Bytes of a number of this type, none for a string. -/
def width : FieldType → Nat
  | byte => 1
  | short | beShort | leShort => 2
  | long | beLong | leLong | date | beDate | leDate => 4
  | string => 0

def order : FieldType → ByteOrder
  | beShort | beLong | beDate => .big
  | leShort | leLong | leDate => .little
  | _ => .native

end FieldType

/-- How the field is compared with the expected value. -/
inductive Relation
  | equal
  | notEqual
  | greater
  | less
  /-- Every bit of the expected value is set. -/
  | allSet
  /-- Some bit of the expected value is clear. -/
  | notAllSet
  /-- Holds of every field. -/
  | any
deriving DecidableEq, Repr

namespace Relation

def all : List Relation :=
  [equal, notEqual, greater, less, allSet, notAllSet, any]

def symbol : Relation → Char
  | equal => '='
  | notEqual => '!'
  | greater => '>'
  | less => '<'
  | allSet => '&'
  | notAllSet => '^'
  | any => 'x'

def ofByte? (b : UInt8) : Option Relation :=
  all.find? (fun r => r.symbol.toUInt8 == b)

end Relation

inductive PointerWidth
  | byte
  | short
  | long
deriving DecidableEq, Repr

namespace PointerWidth

def bytes : PointerWidth → Nat
  | byte => 1
  | short => 2
  | long => 4

def letter : PointerWidth → Char
  | byte => 'b'
  | short => 's'
  | long => 'l'

end PointerWidth

/-- The field is not at the rule's offset: a number there, plus `adjust`, says where it is. -/
structure Pointer where
  width : PointerWidth
  adjust : Int64
deriving DecidableEq, Repr

inductive Expected
  /-- Already cut or extended to the type's width. -/
  | number (n : UInt64)
  /-- As many bytes are compared as the literal has. -/
  | bytes (literal : List UInt8)
  /-- Nothing to compare with: the relation holds of every field. -/
  | none
deriving DecidableEq, Repr

/-- One positional test of a buffer, with the type reported when this test and those that it
continues all hold. -/
structure Rule where
  /-- Depth below the top-level rule that this one continues, zero for a top-level rule. -/
  level : UInt16
  pointer : Option Pointer
  offset : Int64
  type : FieldType
  /-- Keeps some bits of the field, after sign extension. -/
  mask : UInt64
  relation : Relation
  expected : Expected
  unsigned : Bool
  /-- Empty when the rule only guards its continuations. -/
  description : String
  /-- The description joins what precedes it without a blank. -/
  noSpace : Bool
  /-- Counted from one in the source the rule was read from, zero before it is placed. -/
  line : Nat
deriving DecidableEq, Repr

def Rule.isContinuation (r : Rule) : Bool :=
  0 < r.level

end ContentType
