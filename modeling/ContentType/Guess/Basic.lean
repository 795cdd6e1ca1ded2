import ContentType.Guess.PlainText
import ContentType.Guess.Score
import ContentType.Guess.Tar
import ContentType.Verdict

namespace ContentType.Guess
open Byte

/-- What the keywords and the structure tell. -/
inductive TextGuess
  | settled (verdict : Verdict)
  /-- Nothing, save how sure to be if the buffer is plain text. -/
  | undecided (accuracy : UInt8)
deriving DecidableEq, Repr

/-- Manual pages and programs in the old column layout, by their first line. -/
def opening? : List UInt8 → Option String
  | [] => none
  | b :: s =>
    if b = '.'.toUInt8 then
      match skipSpace s with
      | x :: y :: _ =>
        if (isLetter x || isDigit x || x == '\\'.toUInt8) && (isLetter y || isDigit y) then
          some "application/x-troff"
        else none
      | _ => none
    else if b = 'c'.toUInt8 || b = 'C'.toUInt8 then
      if s.head?.any isSpace then some "text/x-fortran" else none
    else none

def isAscii (s : List UInt8) : Bool :=
  s.all (fun b => b < 0x80)

/-- After the keywords: archives, then text of ASCII characters. -/
def ofStructure (buffer : List UInt8) (accuracy : UInt8) : TextGuess :=
  if Tar.kind buffer ≠ .none then .settled (.make "application/x-tar" 90)
  else if isAscii buffer then .settled (.make "text/plain" 90)
  else .undecided accuracy

def ofWeight (buffer : List UInt8) (tally : Tally) (accuracy : UInt8) : TextGuess :=
  match tally.weightedPick with
  | some (l, share) => .settled (.make l.mime share)
  | none => ofStructure buffer accuracy

/-- A buffer with keywords of the C family is less surely plain text. -/
def ofText (buffer : List UInt8) : TextGuess :=
  match opening? buffer with
  | some mime => .settled (.make mime 70)
  | none =>
    let tally := Tally.scan buffer
    if tally.hasCFamily then
      match tally.familyPick with
      | some l => .settled (.make l.mime 60)
      | none => ofWeight buffer tally 60
    else ofWeight buffer tally 70

/-- The guess, if any is made. -/
def verdict? (buffer : List UInt8) : Option Verdict :=
  match ofText buffer with
  | .settled v => some v
  | .undecided accuracy =>
    if isPlainText buffer then some (.make "text/plain" accuracy) else none

end ContentType.Guess
