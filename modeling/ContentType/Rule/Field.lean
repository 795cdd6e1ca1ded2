import ContentType.Rule.Basic

namespace ContentType

/-- The high bits of a word that a field of the type has no bits for. -/
def FieldType.spare (type : FieldType) : Nat :=
  64 - 8 * type.width

/-- A shift by the spare bits is shorter than a word. -/
theorem FieldType.spare_lt {type : FieldType} (h : type.width ≠ 0) : type.spare < 64 := by
  unfold spare
  omega

/-- Extend the low bits of a word, as many as the type has, by their sign; or by zeros when the
field is unsigned. A word tested against strings stays as it is. -/
def signExtend (type : FieldType) (unsigned : Bool) (raw : UInt64) : UInt64 :=
  if type.width = 0 then raw
  else
    let spare := UInt64.ofNat type.spare
    if unsigned then raw &&& ((-1 : UInt64) >>> spare)
    else ((raw <<< spare).toInt64 >>> spare.toInt64).toUInt64

/-- The number that bytes spell. The machine's own order is the little end first. -/
def ByteOrder.number : ByteOrder → List UInt8 → Nat
  | .big, s => s.foldl (fun n b => n * 256 + b.toNat) 0
  | .little, s | .native, s => s.foldr (fun b n => b.toNat + 256 * n) 0

end ContentType
