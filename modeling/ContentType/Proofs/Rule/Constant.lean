import ContentType.Proofs.Rule.WellFormed

namespace ContentType

namespace Line
open Byte

/-- The number at the front of a text, zero where there is none, and what follows it. -/
def constant (s : List UInt8) : Int64 × List UInt8 :=
  (Numeral.read? s).getD (0, s)

/-- The number behind an ampersand and what follows it. -/
def maskConstant : List UInt8 → Option Int64 × List UInt8
  | [] => (none, [])
  | c :: s => if c = '&'.toUInt8 then (some (constant s).1, (constant s).2) else (none, c :: s)

/-- The relation of a test and what follows it. -/
def testRelation (type : FieldType) (test : List UInt8) : Relation × List UInt8 :=
  readRelation type (skipSpace (maskConstant test).2)

end Line

/-- The mask, if any, and the value that a test on numbers is written with. -/
structure Constants where
  mask : Option Int64
  value : Int64
deriving DecidableEq, Repr

namespace Constants

/-- A test is what stands behind the type on a line. -/
def ofTest (type : FieldType) (test : List UInt8) : Constants where
  mask := (Line.maskConstant test).1
  value := (Line.constant (Byte.skipSpace (Line.testRelation type test).2)).1

/-- What the mask keeps of a field, all of it when there is no mask. -/
def kept (c : Constants) (field : UInt64) : UInt64 :=
  match c.mask with
  | none => field
  | some m => field &&& m.toUInt64

def fittedMask (c : Constants) (type : FieldType) (unsigned : Bool) : UInt64 :=
  match c.mask with
  | none => -1
  | some m => signExtend type unsigned m.toUInt64

def fittedValue (c : Constants) (type : FieldType) (unsigned : Bool) : UInt64 :=
  signExtend type unsigned c.value.toUInt64

/-- Masking an extended field by the fitted mask is extending what the mask keeps. -/
theorem and_fittedMask (c : Constants) (type : FieldType) (unsigned : Bool) (field : UInt64) :
    signExtend type unsigned field &&& c.fittedMask type unsigned =
      signExtend type unsigned (c.kept field) := by
  unfold fittedMask kept
  cases c.mask with
  | none => exact UInt64.and_neg_one
  | some m => exact (signExtend_and unsigned field m.toUInt64).symm

end Constants

namespace Line
open Byte

section Readers

variable (type : FieldType) (unsigned : Bool)

theorem readConstant_eq (s : List UInt8) :
    readConstant type unsigned s =
      (signExtend type unsigned (constant s).1.toUInt64, (constant s).2) := by
  unfold readConstant constant
  cases Numeral.read? s <;> rfl

theorem readMask_eq (test : List UInt8) :
    readMask type unsigned test =
      ((Constants.ofTest type test).fittedMask type unsigned, (maskConstant test).2) := by
  unfold Constants.fittedMask Constants.ofTest
  cases test with
  | nil => rfl
  | cons c s =>
    by_cases hc : c = '&'.toUInt8
    · simp only [readMask, maskConstant, if_pos hc, readConstant_eq]
    · simp only [readMask, maskConstant, if_neg hc]

end Readers

/-- The rule of a line by the constants of its test. The rest of the line does not depend on the
head. -/
theorem readTest_constants {type : FieldType} (ht : type ≠ .string) (test : List UInt8) :
    ∃ noSpace description, ∀ head : Head, head.type = type →
      readTest head test =
        { level := head.level, pointer := head.pointer, offset := head.offset, type,
          mask := (Constants.ofTest type test).fittedMask type head.unsigned,
          relation := (testRelation type test).1,
          expected :=
            if (testRelation type test).1 = .any then .none
            else .number ((Constants.ofTest type test).fittedValue type head.unsigned),
          unsigned := head.unsigned, description, noSpace, line := 0 } := by
  obtain ⟨rest, hrest⟩ : ∃ rest, ∀ unsigned,
      readExpected type unsigned (testRelation type test).1 (testRelation type test).2 =
        (if (testRelation type test).1 = .any then .none
          else .number ((Constants.ofTest type test).fittedValue type unsigned), rest) := by
    by_cases hany : (testRelation type test).1 = .any
    · refine ⟨(testRelation type test).2, fun unsigned => ?_⟩
      unfold readExpected
      rw [if_pos hany, if_pos hany]
    · refine ⟨(constant (skipSpace (testRelation type test).2)).2, fun unsigned => ?_⟩
      rw [readExpected_of_ne_string _ _ hany ht, readConstant_eq, if_neg hany]
      rfl
  refine ⟨(readNoSpace (skipSpace rest)).1, description (readNoSpace (skipSpace rest)).2, ?_⟩
  intro head hhead
  subst hhead
  have hread := hrest head.unsigned
  unfold testRelation at hread
  simp only [readTest, readMask_eq, hread]
  rfl

end Line

end ContentType
