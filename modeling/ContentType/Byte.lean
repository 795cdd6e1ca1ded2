namespace ContentType.Byte

/-- Space, tab, newline, vertical tab, form feed and carriage return. -/
def isSpace (b : UInt8) : Bool :=
  b == 0x20 || (9 ≤ b && b ≤ 13)

def isDigit (b : UInt8) : Bool :=
  0x30 ≤ b && b ≤ 0x39

def isLetter (b : UInt8) : Bool :=
  (0x41 ≤ b && b ≤ 0x5a) || (0x61 ≤ b && b ≤ 0x7a)

/-- Value of a digit, letters of either case standing for ten and above. -/
def digit? (radix : Nat) (b : UInt8) : Option Nat :=
  let value :=
    if isDigit b then b.toNat - 0x30
    else if 0x61 ≤ b && b ≤ 0x7a then b.toNat - 0x57
    else if 0x41 ≤ b && b ≤ 0x5a then b.toNat - 0x37
    else radix
  if value < radix then some value else none

/-- The number spelled by digits, the most significant first. -/
def ofDigits (radix : Nat) (digits : List UInt8) : Nat :=
  digits.foldl (fun n b => n * radix + (digit? radix b).getD 0) 0

/-- The bytes of a text of ASCII characters. -/
def ascii (s : String) : List UInt8 :=
  s.toList.map Char.toUInt8

def skipSpace (s : List UInt8) : List UInt8 :=
  s.dropWhile isSpace

/-- The bytes before the first blank. -/
def word (s : List UInt8) : List UInt8 :=
  s.takeWhile (fun b => !isSpace b)

/-- The pieces between newlines. A newline at the very end closes the last line and opens none,
so the empty text is one empty line. -/
def lines (s : List UInt8) : List (List UInt8) :=
  let pieces := s.splitOn 0x0a
  if s.getLast? = some 0x0a then pieces.dropLast else pieces

end ContentType.Byte
