import ContentType.Rule.Field
import Mathlib.Algebra.Group.Nat.Defs
import Mathlib.Data.Int.ModEq

namespace ContentType

theorem FieldType.width_cases {type : FieldType} (h : type ≠ .string) :
    type.width = 1 ∨ type.width = 2 ∨ type.width = 4 := by
  cases type <;> simp [width] at h ⊢

theorem FieldType.bits_le (type : FieldType) : 8 * type.width ≤ 64 := by
  cases type <;> simp [width]

section Bits

variable {w : Nat} (x : BitVec 64)

/-- Shifting the low bits up and back extends them by their sign. -/
theorem sshiftRight_shiftLeft (hw : 0 < w) (hw' : w ≤ 64) :
    (x <<< (64 - w)).sshiftRight (64 - w) = (x.setWidth w).signExtend 64 := by
  apply BitVec.eq_of_getLsbD_eq
  intro i hi
  have hle : ¬ 64 ≤ i := Nat.not_le.mpr hi
  rw [BitVec.getLsbD_sshiftRight, BitVec.getLsbD_signExtend, BitVec.msb_eq_getLsbD_last,
    BitVec.msb_eq_getLsbD_last]
  simp only [BitVec.getLsbD_shiftLeft, BitVec.getLsbD_setWidth]
  by_cases hiw : i < w
  · have hin : 64 - w + i < 64 := by omega
    simp [hi, hle, hiw, hin]
  · -- Past the width every bit is the sign, which the shift has moved to the top.
    have hout : ¬ 64 - w + i < 64 := by omega
    have htop : ¬ 64 - 1 < 64 - w := by omega
    have hsign : 64 - 1 - (64 - w) = w - 1 := by omega
    have hlast : w - 1 < w := by omega
    simp only [hi, hle, hiw, hout, htop, hsign, hlast]
    simp

/-- Masking keeps the low bits and puts zeros above them. -/
theorem and_lowBits (hw' : w ≤ 64) :
    x &&& BitVec.ofNat 64 (2 ^ w - 1) = (x.setWidth w).setWidth 64 := by
  have hpos : 0 < 2 ^ w := Nat.two_pow_pos w
  have hle : 2 ^ w ≤ 2 ^ 64 := Nat.pow_le_pow_right (by decide) hw'
  have hlow : x.toNat % 2 ^ w < 2 ^ 64 := Nat.lt_of_lt_of_le (Nat.mod_lt _ hpos) hle
  apply BitVec.eq_of_toNat_eq
  rw [BitVec.toNat_and, BitVec.toNat_ofNat, Nat.mod_eq_of_lt (by omega),
    Nat.and_two_pow_sub_one_eq_mod, BitVec.toNat_setWidth, BitVec.toNat_setWidth,
    Nat.mod_eq_of_lt hlow]

theorem setWidth_signExtend (y : BitVec w) (hw' : w ≤ 64) : (y.signExtend 64).setWidth w = y := by
  apply BitVec.eq_of_getLsbD_eq
  intro i hi
  have hi' : i < 64 := Nat.lt_of_lt_of_le hi hw'
  simp only [BitVec.getLsbD_setWidth, BitVec.getLsbD_signExtend, hi, hi', decide_true,
    Bool.true_and, if_true]

end Bits

section Extend

variable {type : FieldType} (unsigned : Bool) (raw : UInt64)

theorem signExtend_string : signExtend .string unsigned raw = raw := rfl

/-- An extended number is its low bits, padded by zeros or by their sign. -/
theorem toBitVec_signExtend (h : type ≠ .string) :
    (signExtend type unsigned raw).toBitVec =
      if unsigned then (raw.toBitVec.setWidth (8 * type.width)).setWidth 64
      else (raw.toBitVec.setWidth (8 * type.width)).signExtend 64 := by
  unfold signExtend FieldType.spare
  cases unsigned with
  | true =>
    rcases FieldType.width_cases h with hw | hw | hw <;>
      rw [hw, ← and_lowBits _ (by decide)] <;> rfl
  | false =>
    rcases FieldType.width_cases h with hw | hw | hw <;>
      rw [hw, ← sshiftRight_shiftLeft _ (by decide) (by decide)] <;> rfl

/-- Extending keeps the low bits. -/
theorem lowBits_signExtend :
    (signExtend type unsigned raw).toBitVec.setWidth (8 * type.width) =
      raw.toBitVec.setWidth (8 * type.width) := by
  by_cases h : type = .string
  · rw [h, signExtend_string]
  · have hle := type.bits_le
    rw [toBitVec_signExtend unsigned raw h]
    cases unsigned with
    | true => rw [if_pos rfl, BitVec.setWidth_setWidth_of_le _ hle, BitVec.setWidth_eq]
    | false => exact setWidth_signExtend _ hle

/-- Only the low bits count. -/
theorem signExtend_congr (h : type ≠ .string) {raw other : UInt64}
    (hl : raw.toBitVec.setWidth (8 * type.width) = other.toBitVec.setWidth (8 * type.width)) :
    signExtend type unsigned raw = signExtend type unsigned other := by
  apply UInt64.toBitVec_inj.mp
  rw [toBitVec_signExtend unsigned raw h, toBitVec_signExtend unsigned other h, hl]

theorem signExtend_signExtend :
    signExtend type unsigned (signExtend type unsigned raw) = signExtend type unsigned raw := by
  by_cases h : type = .string
  · rw [h, signExtend_string]
  · exact signExtend_congr unsigned h (lowBits_signExtend unsigned raw)

/-- Extended words are equal when their low bits are. -/
theorem signExtend_eq_iff (h : type ≠ .string) {raw other : UInt64} :
    signExtend type unsigned raw = signExtend type unsigned other ↔
      raw.toNat % 2 ^ (8 * type.width) = other.toNat % 2 ^ (8 * type.width) := by
  have hlow : raw.toBitVec.setWidth (8 * type.width) = other.toBitVec.setWidth (8 * type.width) ↔
      raw.toNat % 2 ^ (8 * type.width) = other.toNat % 2 ^ (8 * type.width) := by
    rw [← BitVec.toNat_inj, BitVec.toNat_setWidth, BitVec.toNat_setWidth]
    rfl
  rw [← hlow]
  constructor
  · intro he
    rw [← lowBits_signExtend unsigned raw, he, lowBits_signExtend]
  · exact signExtend_congr unsigned h

/-- Masking by an extended mask is extending what the mask keeps. -/
theorem signExtend_and (other : UInt64) :
    signExtend type unsigned (raw &&& other) =
      signExtend type unsigned raw &&& signExtend type unsigned other := by
  by_cases h : type = .string
  · simp only [h, signExtend_string]
  · apply UInt64.toBitVec_inj.mp
    rw [UInt64.toBitVec_and]
    simp only [toBitVec_signExtend unsigned _ h, UInt64.toBitVec_and, BitVec.setWidth_and]
    cases unsigned with
    | true => simp only [if_true]
    | false => simp only [Bool.false_eq_true, if_false, BitVec.signExtend_and]

end Extend

section Integers

/-- The number that a word stands for. -/
def wordInt (unsigned : Bool) (word : UInt64) : Int :=
  if unsigned then word.toNat else word.toInt64.toInt

/-- A number reduced to a type's width: the one number in the range of so many bits, signed or
unsigned, from which it differs by a multiple of the size of that range. -/
def FieldType.wrap (type : FieldType) (unsigned : Bool) (z : Int) : Int :=
  if unsigned then z % 2 ^ (8 * type.width) else z.bmod (2 ^ (8 * type.width))

variable {type : FieldType} {unsigned : Bool}

theorem wordInt_inj {v w : UInt64} : wordInt unsigned v = wordInt unsigned w ↔ v = w := by
  cases unsigned with
  | true => simp only [wordInt, if_true, Int.natCast_inj, UInt64.toNat_inj]
  | false =>
    simp only [wordInt, Bool.false_eq_true, if_false, Int64.toInt_inj]
    refine ⟨fun h => ?_, fun h => congrArg UInt64.toInt64 h⟩
    rw [← UInt64.toUInt64_toInt64 v, h, UInt64.toUInt64_toInt64]

theorem wordInt_signExtend (h : type ≠ .string) (raw : UInt64) :
    wordInt unsigned (signExtend type unsigned raw) = type.wrap unsigned raw.toNat := by
  have hle := type.bits_le
  cases unsigned with
  | true =>
    have hpow : 2 ^ (8 * type.width) ≤ 2 ^ 64 := Nat.pow_le_pow_right (by decide) hle
    have hlow : raw.toNat % 2 ^ (8 * type.width) < 2 ^ 64 :=
      Nat.lt_of_lt_of_le (Nat.mod_lt _ (Nat.two_pow_pos _)) hpow
    have hword : (signExtend type true raw).toNat = raw.toNat % 2 ^ (8 * type.width) := by
      rw [← UInt64.toNat_toBitVec, toBitVec_signExtend true raw h, if_pos rfl,
        BitVec.toNat_setWidth, BitVec.toNat_setWidth]
      exact Nat.mod_eq_of_lt hlow
    simp only [wordInt, FieldType.wrap, if_true, hword]
    norm_cast
  | false =>
    have hword : (signExtend type false raw).toInt64.toInt =
        (raw.toNat : Int).bmod (2 ^ (8 * type.width)) := by
      rw [← Int64.toInt_toBitVec, UInt64.toBitVec_toInt64, toBitVec_signExtend false raw h,
        if_neg Bool.false_ne_true, BitVec.toInt_signExtend_of_le hle, BitVec.toInt_setWidth]
      rfl
    simp only [wordInt, FieldType.wrap, Bool.false_eq_true, if_false, hword]

theorem FieldType.wrap_congr (unsigned : Bool) {y z : Int} (h : y ≡ z [ZMOD 2 ^ (8 * type.width)]) :
    type.wrap unsigned y = type.wrap unsigned z := by
  cases unsigned with
  | true => exact h
  | false =>
    have hmod : y % (2 ^ (8 * type.width) : Nat) = z % (2 ^ (8 * type.width) : Nat) := by
      exact_mod_cast h
    simp only [wrap, Bool.false_eq_true, if_false]
    rw [← Int.emod_bmod, hmod, Int.emod_bmod]

/-- As far as any width goes, a signed word and its bits are the same number. -/
theorem toNat_toUInt64_modEq (type : FieldType) (n : Int64) :
    (n.toUInt64.toNat : Int) ≡ n.toInt [ZMOD 2 ^ (8 * type.width)] := by
  have hword : (n.toUInt64.toNat : Int) ≡ n.toInt [ZMOD 2 ^ 64] := by
    have hbits : n.toInt = (n.toUInt64.toNat : Int).bmod (2 ^ 64) :=
      BitVec.toInt_eq_toNat_bmod n.toBitVec
    rw [hbits]
    exact (Int.bmod_emod (m := 2 ^ 64)).symm
  exact hword.of_dvd (pow_dvd_pow 2 type.bits_le)

end Integers

end ContentType
