import ContentType.Rule.Field

namespace ContentType

/-- Bytes seen at once; past the end of the buffer they are zero. -/
def windowWidth : Nat := 64

def windowAt (buffer : List UInt8) (offset : Nat) : List UInt8 :=
  let seen := (buffer.drop offset).take windowWidth
  seen ++ List.replicate (windowWidth - seen.length) 0

/-- What was read at a rule's offset. -/
inductive Field
  | number (n : UInt64)
  | window (bytes : List UInt8)
deriving DecidableEq, Repr

namespace Rule

/-- Bytes that must be present behind a pointer. -/
def needed (r : Rule) : Nat :=
  match r.expected, r.type with
  | .bytes literal, .string => literal.length
  | _, t => t.width

/-- Whether `width` bytes at an offset end inside the buffer, and before addresses run out. -/
def reaches (buffer : List UInt8) (offset width : Nat) : Bool :=
  offset + width < UInt64.size && offset + width ≤ buffer.length

/-- Where a pointer that holds `n` leads, unless the sum leaves the signed 64-bit range or is
negative. -/
def target? (n : Nat) (adjust : Int64) : Option Nat :=
  let sum : Int := n + adjust.toInt
  if 0 ≤ sum ∧ sum ≤ Int64.maxValue.toInt then some sum.toNat else none

/-- Where the field a rule tests begins. -/
def locate? (r : Rule) (buffer : List UInt8) : Option Nat :=
  if r.offset < 0 then none
  else
    let offset := r.offset.toInt.toNat
    match r.pointer with
    | none => if reaches buffer offset r.type.width then some offset else none
    | some p =>
      if reaches buffer offset p.width.bytes then
        let n := r.type.order.number ((windowAt buffer offset).take p.width.bytes)
        (target? n p.adjust).filter (fun target => reaches buffer target r.needed)
      else none

def fieldIn (r : Rule) (window : List UInt8) : Field :=
  match r.type with
  | .string => .window window
  | t => .number (UInt64.ofNat (t.order.number (window.take t.width)))

/-- The field a rule tests. -/
def field? (r : Rule) (buffer : List UInt8) : Option Field :=
  (r.locate? buffer).map (fun offset => r.fieldIn (windowAt buffer offset))

/-- Difference at the first byte where a window departs from a literal, zero when it never does. -/
def difference (window literal : List UInt8) : Int :=
  match (List.zipWith (fun (want got : UInt8) => (got.toNat : Int) - want.toNat)
      literal window).find? (fun d => d ≠ 0) with
  | none => 0
  | some d => d

end Rule

/-- A relation between two words, ordered as signed or as unsigned numbers. -/
def Relation.holds (relation : Relation) (unsigned : Bool) (v l : UInt64) : Bool :=
  match relation with
  | equal => v == l
  | notEqual => v != l
  | greater => if unsigned then l < v else l.toInt64 < v.toInt64
  | less => if unsigned then v < l else v.toInt64 < l.toInt64
  | allSet => v &&& l == l
  | notAllSet => v &&& l != l
  | any => true

namespace Rule

/-- Compare a field with what the rule expects, `none` when the two are of different kinds. A string
is compared by its difference from the literal. -/
def compare? (r : Rule) (field : Field) : Option Bool :=
  if r.relation = .any then some true
  else
    match field, r.expected with
    | .number raw, .number n =>
      some (r.relation.holds r.unsigned (signExtend r.type r.unsigned raw &&& r.mask) n)
    | .window window, .bytes literal =>
      let d := (Int64.ofInt (difference window literal)).toUInt64
      some (r.relation.holds r.unsigned (d &&& r.mask) 0)
    | _, _ => none

/-- A field of another kind than the expected value matches nothing but the wildcard. -/
def matchesField (r : Rule) (field : Field) : Bool :=
  (r.compare? field).getD false

def evaluate (r : Rule) (buffer : List UInt8) : Bool :=
  match r.field? buffer with
  | none => false
  | some field => r.matchesField field

end Rule

end ContentType
