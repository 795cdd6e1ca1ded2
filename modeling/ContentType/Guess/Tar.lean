import ContentType.Byte

namespace ContentType

/-- Archives, told by the checksum in their first header. -/
inductive TarKind
  | none
  /-- The layout before the standard one. -/
  | old
  | posix
deriving DecidableEq, Repr

namespace Tar
open Byte

def headerSize : Nat := 512

def checksumAt : Nat := 148

def checksumSize : Nat := 8

def magicAt : Nat := 257

def gnuMagic : List UInt8 :=
  ascii "ustar  \x00"

/-- An octal number after blanks, closed by a blank, a zero byte or the end of its field. A field of
blanks holds no number. -/
def octal? (field : List UInt8) : Option Nat :=
  match skipSpace field with
  | [] => none
  | b :: s =>
    let isOctal := fun c => (digit? 8 c).isSome
    let n := ofDigits 8 ((b :: s).takeWhile isOctal)
    match (b :: s).dropWhile isOctal with
    | [] => some n
    | c :: _ => if c = 0 || isSpace c then some n else none

def sum (s : List UInt8) : Nat :=
  s.foldl (fun n b => n + b.toNat) 0

/-- Where a header keeps its checksum. -/
def checksumField (header : List UInt8) : List UInt8 :=
  (header.drop checksumAt).take checksumSize

/-- Sum of a header's bytes, its checksum taken for blanks. -/
def checksum (header : List UInt8) : Nat :=
  sum header - sum (checksumField header) + checksumSize * 0x20

def kind (buffer : List UInt8) : TarKind :=
  if buffer.length < headerSize then .none
  else
    let header := buffer.take headerSize
    if octal? (checksumField header) = some (checksum header) then
      if (header.drop magicAt).take gnuMagic.length = gnuMagic then .posix else .old
    else .none

end Tar

end ContentType
