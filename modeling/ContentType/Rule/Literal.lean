import ContentType.Byte

namespace ContentType.Literal
open Byte

/-- Longest literal kept: one byte less than the window it is compared with. -/
def maxLength : Nat := 63

def isOctal (b : UInt8) : Bool := (digit? 8 b).isSome

def isHex (b : UInt8) : Bool := (digit? 16 b).isSome

/-- The byte written after a backslash and what follows it, `none` at the end of the line. Octal and
hex numbers have up to three digits and are taken modulo 256. -/
def escape : List UInt8 → Option (UInt8 × List UInt8)
  | [] => none
  | c :: s =>
    if c = 'n'.toUInt8 then some (0x0a, s)
    else if c = 'r'.toUInt8 then some (0x0d, s)
    else if c = 'b'.toUInt8 then some (0x08, s)
    else if c = 't'.toUInt8 then some (0x09, s)
    else if c = 'f'.toUInt8 then some (0x0c, s)
    else if c = 'v'.toUInt8 then some (0x0b, s)
    else if isOctal c then
      let more := (s.take 2).takeWhile isOctal
      some (UInt8.ofNat (ofDigits 8 (c :: more)), s.drop more.length)
    else if c = 'x'.toUInt8 then
      let digits := (s.take 3).takeWhile isHex
      if digits = [] then some (c, s)
      else some (UInt8.ofNat (ofDigits 16 digits), s.drop digits.length)
    else some (c, s)

/-- Read a literal with room for so many bytes. When the room is used up the rest of the word is
passed over, whatever it escapes. -/
def read : Nat → List UInt8 → List UInt8 × List UInt8
  | 0, s => ([], s.dropWhile (fun b => !isSpace b))
  | _ + 1, [] => ([], [])
  | room + 1, c :: s =>
    if isSpace c then ([], c :: s)
    else if c = '\\'.toUInt8 then
      match escape s with
      | none => ([], [])
      | some (b, s) => let (bs, rest) := read room s; (b :: bs, rest)
    else let (bs, rest) := read room s; (c :: bs, rest)

end ContentType.Literal
