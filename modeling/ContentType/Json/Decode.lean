import ContentType.Json.Basic

namespace ContentType.Json

def bool? : Json → Option Bool
  | .bool b => some b
  | _ => none

def text? : Json → Option String
  | .string text => text
  | _ => none

/-- An integer from zero up to a bound, the bound left out. -/
def natBelow? (bound : Nat) : Json → Option Nat
  | .int n => if 0 ≤ n ∧ n < bound then some n.toNat else none
  | _ => none

def uint8? (v : Json) : Option UInt8 :=
  (v.natBelow? UInt8.size).map UInt8.ofNat

def uint16? (v : Json) : Option UInt16 :=
  (v.natBelow? UInt16.size).map UInt16.ofNat

def uint64? (v : Json) : Option UInt64 :=
  (v.natBelow? UInt64.size).map UInt64.ofNat

def int64? : Json → Option Int64
  | .int n =>
    if Int64.minValue.toInt ≤ n ∧ n ≤ Int64.maxValue.toInt then some (Int64.ofInt n) else none
  | _ => none

def list? (item : Json → Option α) : Json → Option (List α)
  | .array items => items.mapM item
  | _ => none

/-- Absent and null are the same. -/
def optional? (value : Json → Option α) : Option Json → Option (Option α)
  | none | some .null => some none
  | some v => (value v).map some

/-- The values of a record's fields, in the order of their names; a field may be missing. An object
may hold other members too but no field twice, an array holds the first fields in order. -/
def record? (names : List String) : Json → Option (List (Option Json))
  | .array items =>
    if items.length ≤ names.length then
      some (items.map some ++ List.replicate (names.length - items.length) none)
    else none
  | .object members =>
    if members.all (fun m => m.1.isSome) &&
        names.all (fun name => members.countP (fun m => m.1 == some name) ≤ 1) then
      some (names.map (fun name => (members.find? (fun m => m.1 == some name)).map Prod.snd))
    else none
  | _ => none

/-- A constructor and its argument: an object of one member, or the bare name when there is no
argument. -/
def variant? : Json → Option (String × Json)
  | .string (some name) => some (name, .null)
  | .object [(some name, argument)] => some (name, argument)
  | _ => none

/-- A constructor without an argument, out of a list of them. -/
def constant? (name : α → String) (all : List α) (v : Json) : Option α := do
  let (n, argument) ← v.variant?
  match argument with
  | .null => all.find? (fun a => name a == n)
  | _ => none

end ContentType.Json
