namespace ContentType

namespace PlainText

def maxLine : Nat := 300

/-- Controls other than backspace, the blanks of a line's layout and escape. -/
def isBinary (b : UInt8) : Bool :=
  b < 8 || (13 < b && b < 32 && b != 27) || b == 0x7f

/-- Whether the lines are short enough in the rest of a text of so many bytes, which begins at
`start`. A line that a newline closes is measured up to it, the unfinished one at the end by how far
it begins from there. -/
def linesFit (size start : Nat) (rest : List UInt8) : Bool :=
  if start < size then
    match rest.idxOf? 0x0a with
    | some length =>
      if maxLine < length then false
      else linesFit size (start + length + 1) (rest.drop (length + 1))
    | none => size ≤ start + maxLine
  else true
termination_by size - start

end PlainText

/-- Whether a buffer reads as text. -/
def isPlainText (s : List UInt8) : Bool :=
  !s.any PlainText.isBinary && PlainText.linesFit s.length 0 s

end ContentType
