namespace ContentType.Utf8

/-- What a lead byte announces: how many bytes follow, the range of the first of them, and the bits
of the character it carries itself. -/
structure Lead where
  following : Nat
  low : UInt8
  high : UInt8
  bits : Nat

/-- The narrowed ranges leave out overlong forms, surrogates and numbers past the last character. -/
def lead? (b : UInt8) : Option Lead :=
  let n := b.toNat
  if 0xc2 ≤ n ∧ n ≤ 0xdf then some ⟨1, 0x80, 0xbf, n - 0xc0⟩
  else if n = 0xe0 then some ⟨2, 0xa0, 0xbf, 0⟩
  else if n = 0xed then some ⟨2, 0x80, 0x9f, n - 0xe0⟩
  else if 0xe1 ≤ n ∧ n ≤ 0xef then some ⟨2, 0x80, 0xbf, n - 0xe0⟩
  else if n = 0xf0 then some ⟨3, 0x90, 0xbf, 0⟩
  else if 0xf1 ≤ n ∧ n ≤ 0xf3 then some ⟨3, 0x80, 0xbf, n - 0xf0⟩
  else if n = 0xf4 then some ⟨3, 0x80, 0x8f, n - 0xf0⟩
  else none

/-- Read the bytes after a lead byte. They stop short at the first one out of range, which is left
to start something else. -/
def follow : Nat → UInt8 → UInt8 → Nat → List UInt8 → Option Nat × List UInt8
  | 0, _, _, bits, s => (some bits, s)
  | _ + 1, _, _, _, [] => (none, [])
  | n + 1, low, high, bits, c :: s =>
    if low ≤ c ∧ c ≤ high then follow n 0x80 0xbf (bits * 64 + (c.toNat - 0x80)) s
    else (none, c :: s)

theorem length_follow_le (n : Nat) (low high : UInt8) (bits : Nat) (s : List UInt8) :
    (follow n low high bits s).2.length ≤ s.length := by
  induction n generalizing low high bits s with
  | zero => simp [follow]
  | succ n ih =>
    cases s with
    | nil => simp [follow]
    | cons c s =>
      simp only [follow]
      split
      · exact Nat.le_succ_of_le (ih ..)
      · exact Nat.le_refl _

/-- One character, or a gap, and what comes after it. -/
def step (b : UInt8) (s : List UInt8) : Option Char × List UInt8 :=
  if b < 0x80 then (some (Char.ofNat b.toNat), s)
  else
    match lead? b with
    | none => (none, s)
    | some l =>
      let read := follow l.following l.low l.high l.bits s
      (read.1.map Char.ofNat, read.2)

theorem length_step_le (b : UInt8) (s : List UInt8) : (step b s).2.length ≤ s.length := by
  unfold step
  split
  · exact Nat.le_refl _
  · split
    · exact Nat.le_refl _
    · exact length_follow_le ..

/-- The characters of a byte string, `none` standing for an ill-formed piece. -/
def decode : List UInt8 → List (Option Char)
  | [] => []
  | b :: s => (step b s).1 :: decode (step b s).2
termination_by s => s.length
decreasing_by exact Nat.lt_succ_of_le (length_step_le b s)

/-- The text with a replacement character for each ill-formed piece. -/
def decodeLossy (s : List UInt8) : String :=
  String.ofList ((decode s).map (fun c => c.getD '\ufffd'))

/-- The text, if all of it is well formed. -/
def decode? (s : List UInt8) : Option String :=
  ((decode s).mapM id).map String.ofList

def encode (s : String) : List UInt8 :=
  s.toList.flatMap String.utf8EncodeChar

end ContentType.Utf8
