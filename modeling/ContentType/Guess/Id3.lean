import ContentType.Byte

namespace ContentType.Id3

def headerSize : Nat := 10

/-- Shorter buffers are not looked at. -/
def minLength : Nat := 40

def hasFooter (flags : UInt8) : Bool :=
  flags &&& 0x10 != 0

/-- The low seven bits of each byte, the first byte first. -/
def syncsafe (s : List UInt8) : Nat :=
  s.foldl (fun n b => n * 128 + (b &&& 0x7f).toNat) 0

/-- Bytes that a tag at the start of a buffer takes, zero when there is none. -/
def tagLength (buffer : List UInt8) : Nat :=
  if buffer.length < minLength then 0
  else
    match buffer with
    | i :: d :: three :: version :: _ :: flags :: a :: b :: c :: e :: _ =>
      if [i, d, three] = Byte.ascii "ID3" && version ≤ 4 && flags &&& 0x0f == 0 then
        headerSize + syncsafe [a, b, c, e] + (if hasFooter flags then headerSize else 0)
      else 0
    | _ => 0

end ContentType.Id3
