import ContentType.Byte

namespace ContentType.Numeral
open Byte

/-- A sign in front, true for minus, and what follows it. -/
def sign : List UInt8 → Bool × List UInt8
  | b :: s =>
    if b = '-'.toUInt8 then (true, s)
    else if b = '+'.toUInt8 then (false, s)
    else (false, b :: s)
  | [] => (false, [])

/-- The hex mark counts only in front of a hex digit, and the zero of an octal number is itself its
first digit. -/
def radix (s : List UInt8) : Nat × List UInt8 :=
  match s with
  | z :: x :: d :: rest =>
    if z = '0'.toUInt8 then
      if (x = 'x'.toUInt8 ∨ x = 'X'.toUInt8) ∧ (digit? 16 d).isSome then (16, d :: rest) else (8, s)
    else (10, s)
  | z :: _ => if z = '0'.toUInt8 then (8, s) else (10, s)
  | [] => (10, s)

/-- What digits spell, gathered in one word. Once the number is too large for a word, only this is
remembered, and the word stays as it was. -/
structure Magnitude where
  word : UInt64
  overflow : Bool
deriving DecidableEq, Repr

namespace Magnitude

def push (radix : Nat) (m : Magnitude) (b : UInt8) : Magnitude :=
  let n := m.word.toNat * radix + (digit? radix b).getD 0
  if n < UInt64.size then { m with word := UInt64.ofNat n } else { m with overflow := true }

def ofDigits (radix : Nat) (digits : List UInt8) : Magnitude :=
  digits.foldl (push radix) ⟨0, false⟩

/-- The number with its sign, or the end of the signed 64-bit range that it lies beyond. The least
number has no positive counterpart: its magnitude is the one that negation leaves as it is. -/
def signed (m : Magnitude) (negative : Bool) : Int64 :=
  if negative then
    if m.overflow || Int64.maxValue.toUInt64 + 1 < m.word then Int64.minValue else -m.word.toInt64
  else if m.overflow || Int64.maxValue.toUInt64 < m.word then Int64.maxValue
  else m.word.toInt64

end Magnitude

/-- The number at the front, as long as it can be, and the rest; `none` when no digit is there. -/
def read? (s : List UInt8) : Option (Int64 × List UInt8) :=
  let signed := sign (skipSpace s)
  let based := radix signed.2
  let isDigit := fun b => (digit? based.1 b).isSome
  let digits := based.2.takeWhile isDigit
  if digits = [] then none
  else
    some ((Magnitude.ofDigits based.1 digits).signed signed.1, based.2.dropWhile isDigit)

end ContentType.Numeral
