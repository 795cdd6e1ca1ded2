import ContentType.Proofs.Rule.Extension
import Mathlib.Tactic.NormNum

namespace ContentType

namespace FieldType

/-- The numbers that so many bytes can hold, signed or unsigned. -/
def Holds (type : FieldType) (unsigned : Bool) (z : Int) : Prop :=
  if unsigned then 0 ≤ z ∧ z < 2 ^ (8 * type.width)
  else -2 ^ (8 * type.width - 1) ≤ z ∧ z < 2 ^ (8 * type.width - 1)

variable {type : FieldType} {unsigned : Bool}

/-- The signed numbers are those next to zero that a balanced remainder may be. -/
theorem holds_signed_iff (h : type ≠ .string) {z : Int} :
    type.Holds false z ↔ -((2 ^ (8 * type.width) : Nat) / 2 : Int) ≤ z ∧
      z < ((2 ^ (8 * type.width) : Nat) + 1 : Int) / 2 := by
  have hbits : 8 * type.width = 8 * type.width - 1 + 1 := by
    cases type <;> simp [width] at h ⊢
  have hsize : ((2 ^ (8 * type.width) : Nat) : Int) = 2 ^ (8 * type.width - 1) * 2 := by
    rw [hbits, pow_succ]
    push_cast
    simp
  simp only [Holds, Bool.false_eq_true, if_false, hsize]
  generalize (2 : Int) ^ (8 * type.width - 1) = half
  omega

theorem wrap_holds (h : type ≠ .string) (z : Int) : type.Holds unsigned (type.wrap unsigned z) := by
  cases unsigned with
  | true =>
    have hpos : (0 : Int) < 2 ^ (8 * type.width) := Int.pow_pos (by decide)
    exact ⟨Int.emod_nonneg z hpos.ne', Int.emod_lt_of_pos z hpos⟩
  | false =>
    have hpos : 0 < 2 ^ (8 * type.width) := Nat.two_pow_pos _
    exact (holds_signed_iff h).mpr ⟨Int.le_bmod hpos, Int.bmod_lt hpos⟩

theorem wrap_of_holds (h : type ≠ .string) {z : Int} (hz : type.Holds unsigned z) :
    type.wrap unsigned z = z := by
  cases unsigned with
  | true => exact Int.emod_eq_of_lt hz.1 hz.2
  | false =>
    obtain ⟨hlow, hhigh⟩ := (holds_signed_iff h).mp hz
    exact Int.bmod_eq_of_le hlow hhigh

theorem wrap_modEq (z : Int) : type.wrap unsigned z ≡ z [ZMOD 2 ^ (8 * type.width)] := by
  cases unsigned with
  | true => exact Int.mod_modEq z _
  | false =>
    have hmod : z.bmod (2 ^ (8 * type.width)) % (2 ^ (8 * type.width) : Nat) =
        z % (2 ^ (8 * type.width) : Nat) := Int.bmod_emod
    exact_mod_cast hmod

/-- A number in the range is the remainder of all that differ from it by multiples of its size. -/
theorem eq_wrap_iff (h : type ≠ .string) {y z : Int} :
    y = type.wrap unsigned z ↔ type.Holds unsigned y ∧ y ≡ z [ZMOD 2 ^ (8 * type.width)] := by
  constructor
  · rintro rfl
    exact ⟨wrap_holds h z, wrap_modEq z⟩
  · rintro ⟨hy, hmod⟩
    rw [← wrap_of_holds h hy]
    exact wrap_congr unsigned hmod

end FieldType

section Shifts

/-- A shift by the size of a word or more has no result. -/
def shift? (shift : UInt64 → UInt64 → UInt64) (word : UInt64) (n : Nat) : Option UInt64 :=
  if n < 64 then some (shift word (UInt64.ofNat n)) else none

/-- Extension by shifts that may have no result. -/
def signExtend? (type : FieldType) (unsigned : Bool) (raw : UInt64) : Option UInt64 :=
  if type.width = 0 then some raw
  else if unsigned then (shift? (· >>> ·) (-1) type.spare).map (raw &&& ·)
  else
    (shift? (· <<< ·) raw type.spare).bind fun raised =>
      shift? (fun word n => (word.toInt64 >>> n.toInt64).toUInt64) raised type.spare

/-- Extension has a result for every type, and it is that of shifts by the same numbers. -/
theorem signExtend_checked (type : FieldType) (unsigned : Bool) (raw : UInt64) :
    signExtend? type unsigned raw = some (signExtend type unsigned raw) := by
  unfold signExtend? signExtend
  by_cases hw : type.width = 0
  · simp [hw]
  · have hspare := FieldType.spare_lt hw
    cases unsigned <;> simp [hw, shift?, hspare]

end Shifts

/-- An extended word is the one word which reads as a number that the width can hold and differs
from the given word by a multiple of the size of the width's range. So only as many low bits count
as the width has, extending again changes nothing, and no shift is as long as a word. -/
theorem signExtend_only_reading (type : FieldType) (unsigned : Bool) (raw : UInt64) :
    signExtend? type unsigned raw = some (signExtend type unsigned raw) ∧
    (type ≠ .string →
      (∀ word, word = signExtend type unsigned raw ↔
        type.Holds unsigned (wordInt unsigned word) ∧
          wordInt unsigned word ≡ raw.toNat [ZMOD 2 ^ (8 * type.width)]) ∧
      (∀ other : UInt64, signExtend type unsigned other = signExtend type unsigned raw ↔
        other.toNat % 2 ^ (8 * type.width) = raw.toNat % 2 ^ (8 * type.width)) ∧
      signExtend type unsigned (signExtend type unsigned raw) = signExtend type unsigned raw) := by
  refine ⟨signExtend_checked type unsigned raw, fun h => ⟨fun word => ?_,
    fun other => signExtend_eq_iff unsigned h, signExtend_signExtend unsigned raw⟩⟩
  rw [← FieldType.eq_wrap_iff h, ← wordInt_signExtend h, wordInt_inj]

/-- Only the two low bytes of a word are extended here, and they are negative. -/
theorem signExtend_only_reading_short :
    FieldType.beShort ≠ .string ∧
      FieldType.beShort.Holds false (wordInt false 0xffffffffffff8001) ∧
      wordInt false 0xffffffffffff8001 ≡ (0x1238001 : UInt64).toNat [ZMOD 2 ^ 16] ∧
      0xffffffffffff8001 = signExtend .beShort false 0x1238001 := by
  have hstring : FieldType.beShort ≠ .string := nofun
  have hholds : FieldType.beShort.Holds false (wordInt false 0xffffffffffff8001) := by
    unfold FieldType.Holds
    decide
  have hmod : wordInt false 0xffffffffffff8001 ≡ (0x1238001 : UInt64).toNat [ZMOD 2 ^ 16] := by
    decide
  obtain ⟨honly, _, _⟩ := (signExtend_only_reading .beShort false 0x1238001).2 hstring
  exact ⟨hstring, hholds, hmod, (honly _).mpr ⟨hholds, hmod⟩⟩

end ContentType
