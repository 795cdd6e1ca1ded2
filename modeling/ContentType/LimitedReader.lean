namespace ContentType

structure LimitedReader where
  /-- Bytes not read yet. -/
  source : List UInt8
  /-- Bytes handed out so far. -/
  taken : Nat
  limit : Nat
deriving DecidableEq, Repr

namespace LimitedReader

def start (source : List UInt8) (limit : Nat) : LimitedReader :=
  ⟨source, 0, limit⟩

/-- Fill a buffer of the given size as far as the source and the limit let it. -/
def read (r : LimitedReader) (size : Nat) : List UInt8 × LimitedReader :=
  if r.limit ≤ r.taken then ([], r)
  else
    let n := min size (r.limit - r.taken)
    let bytes := r.source.take n
    (bytes, { r with source := r.source.drop n, taken := r.taken + bytes.length })

/-- Size of the buffer that `readToEnd` fills again and again. -/
def chunk : Nat := 8192

/-- Everything up to the limit: read until nothing more comes. -/
def readToEnd (r : LimitedReader) : List UInt8 :=
  match _h : (r.read chunk).1 with
  | [] => []
  | b :: bytes => b :: bytes ++ readToEnd (r.read chunk).2
termination_by r.source.length
decreasing_by
  unfold read at _h ⊢
  split at _h
  · cases _h
  · rename_i hlimit
    rw [if_neg hlimit]
    have hlength := congrArg List.length _h
    simp only [List.length_take, List.length_cons, List.length_drop] at hlength ⊢
    omega

end LimitedReader

end ContentType
