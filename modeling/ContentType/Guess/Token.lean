namespace ContentType

/-- One of the longest runs of bytes that are no delimiter. -/
structure Token where
  text : List UInt8
  /-- First token of the text, or next to a newline on either side, other bytes between the newline
  and the token being delimiters. -/
  startsLine : Bool
deriving DecidableEq, Repr

namespace Token

def isDelimiter (b : UInt8) : Bool :=
  b == '\n'.toUInt8 || b == 0 || b == '\t'.toUInt8 || b == ' '.toUInt8 || b == '\r'.toUInt8 ||
    b == 0x0c || b == ','.toUInt8 || b == ';'.toUInt8 || b == '>'.toUInt8

/-- Tokens of the rest of a text; `first` at its very beginning. A token's closing newline is left
for the next token to see too. -/
def scanFrom (first : Bool) (s : List UInt8) : List Token :=
  let gap := s.takeWhile isDelimiter
  match _h : s.dropWhile isDelimiter with
  | [] => []
  | b :: body =>
    let rest := body.dropWhile (fun c => !isDelimiter c)
    { text := b :: body.takeWhile (fun c => !isDelimiter c)
      startsLine := first || gap.contains 0x0a || rest.head? == some 0x0a } :: scanFrom false rest
termination_by s.length
decreasing_by
  have hs := (List.dropWhile_sublist isDelimiter (l := s)).length_le
  have hb := (List.dropWhile_sublist (fun c => !isDelimiter c) (l := body)).length_le
  rw [_h, List.length_cons] at hs
  omega

def scan (s : List UInt8) : List Token :=
  scanFrom true s

end Token

end ContentType
