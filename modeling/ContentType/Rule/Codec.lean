import ContentType.Json.Decode
import ContentType.Rule.Basic

namespace ContentType

def FieldType.tag : FieldType → String
  | byte => "Byte"
  | short => "Short"
  | long => "Long"
  | string => "String"
  | date => "Date"
  | beShort => "BeShort"
  | beLong => "BeLong"
  | beDate => "BeDate"
  | leShort => "LeShort"
  | leLong => "LeLong"
  | leDate => "LeDate"

def Relation.tag : Relation → String
  | equal => "Equal"
  | notEqual => "NotEqual"
  | greater => "Greater"
  | less => "Less"
  | allSet => "AllSet"
  | notAllSet => "NotAllSet"
  | any => "Any"

def PointerWidth.tag : PointerWidth → String
  | byte => "Byte"
  | short => "Short"
  | long => "Long"

def PointerWidth.all : List PointerWidth :=
  [.byte, .short, .long]

def Pointer.toJson (p : Pointer) : Json :=
  .record [("width", .text p.width.tag), ("offset", .int p.adjust.toInt)]

def Pointer.ofJson? (v : Json) : Option Pointer := do
  match ← v.record? ["width", "offset"] with
  | [some width, some offset] =>
    return ⟨← width.constant? PointerWidth.tag PointerWidth.all, ← offset.int64?⟩
  | _ => none

def Expected.toJson : Expected → Json
  | number n => .record [("Number", .nat n.toNat)]
  | bytes literal => .record [("Bytes", .array (literal.map (fun b => .nat b.toNat)))]
  | none => .text "None"

def Expected.ofJson? (v : Json) : Option Expected :=
  match v.variant? with
  | some ("Number", n) => n.uint64?.map .number
  | some ("Bytes", literal) => (literal.list? Json.uint8?).map .bytes
  | some ("None", .null) => some .none
  | _ => Option.none

namespace Rule

def toJson (r : Rule) : Json :=
  .record
    [("level", .nat r.level.toNat),
      ("indirect", match r.pointer with | none => .null | some p => p.toJson),
      ("offset", .int r.offset.toInt),
      ("value_type", .text r.type.tag),
      ("mask", .nat r.mask.toNat),
      ("relation", .text r.relation.tag),
      ("value", r.expected.toJson),
      ("unsigned", .bool r.unsigned),
      ("description", .text r.description),
      ("no_space", .bool r.noSpace),
      ("line", .nat r.line)]

def fieldNames : List String :=
  ["level", "indirect", "offset", "value_type", "mask", "relation", "value", "unsigned",
    "description", "no_space", "line"]

/-- Only the pointer may be missing. -/
def ofJson? (v : Json) : Option Rule := do
  match ← v.record? fieldNames with
  | [some level, pointer, some offset, some type, some mask, some relation, some expected,
      some unsigned, some description, some noSpace, some line] =>
    return {
      level := ← level.uint16?
      pointer := ← Json.optional? Pointer.ofJson? pointer
      offset := ← offset.int64?
      type := ← type.constant? FieldType.tag FieldType.all
      mask := ← mask.uint64?
      relation := ← relation.constant? Relation.tag Relation.all
      expected := ← Expected.ofJson? expected
      unsigned := ← unsigned.bool?
      description := ← description.text?
      noSpace := ← noSpace.bool?
      line := ← line.natBelow? UInt64.size }
  | _ => none

end Rule

end ContentType
