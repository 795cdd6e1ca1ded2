import ContentType.Proofs.Rule.Printer

namespace ContentType.Numeral
open Byte

/-- The notations for an integer. The letters of hex digits are small or capital. -/
inductive Radix
  | decimal
  | octal
  | hex (capital : Bool)
deriving DecidableEq, Repr

namespace Radix

def base : Radix → Nat
  | decimal => 10
  | octal => 8
  | hex _ => 16

/-- What stands in front of the digits. -/
def mark : Radix → List Char
  | decimal => []
  | octal => ['0']
  | hex _ => ['0', 'x']

def digits (radix : Radix) (n : Nat) : List Char :=
  (Nat.toDigits radix.base n).map (if radix = hex true then Char.toUpper else id)

def write (radix : Radix) (z : Int) : List UInt8 :=
  ((if z < 0 then ['-'] else []) ++ (radix.mark ++ radix.digits z.natAbs)).map Char.toUInt8

end Radix

section Written

variable {rest : List UInt8}

/-- A capital letter is the same digit. -/
theorem map_digit_digits (radix : Radix) (n : Nat) :
    ((radix.digits n).map Char.toUInt8).map (digit? radix.base) =
      ((Nat.toDigits radix.base n).map Char.toUInt8).map (digit? radix.base) := by
  have hcapital : ∀ d < 16, digit? 16 (Nat.digitChar d).toUpper.toUInt8 =
      digit? 16 (Nat.digitChar d).toUInt8 := by decide +kernel
  unfold Radix.digits
  split
  · rename_i hradix
    subst hradix
    rw [List.map_map, List.map_map, List.map_map]
    refine List.map_congr_left fun c hc => ?_
    obtain ⟨d, hd, rfl⟩ := mem_toDigits (by decide) hc
    exact hcapital d hd
  · rw [List.map_id]

/-- Digits behind the mark of their radix are a number of this radix, save that a single zero is an
octal number of no more digits. -/
theorem unsigned_digits (radix : Radix) (n : Nat) :
    ∃ r, Unsigned ((radix.mark ++ radix.digits n).map Char.toUInt8) r n := by
  rw [List.map_append]
  cases radix with
  | decimal =>
    obtain ⟨r, hu⟩ := unsigned_toDigits n
    exact ⟨r, by simpa [Radix.mark, Radix.digits, Radix.base] using hu⟩
  | hex capital => exact ⟨16, unsigned_hex (map_digit_digits (.hex capital) n)⟩
  | octal =>
    have hsame := map_digit_digits .octal n
    have hall := (isDigits_congr hsame).mpr (isDigits_toDigits (by decide) (by decide) n)
    have hvalue := (ofDigits_congr hsame).trans (ofDigits_toDigits (by decide) (by decide) n)
    have hu := Unsigned.octal hall
    have hzero : ofDigits 8 ('0'.toUInt8 :: (Radix.octal.digits n).map Char.toUInt8) = n := hvalue
    rw [hzero] at hu
    exact ⟨8, hu⟩

theorem closes_of_stops (h : Stops (fun b => isLetter b || isDigit b) rest) (digits : List UInt8)
    (r : Nat) : Closes digits r rest := by
  cases rest with
  | nil => exact .nil digits r
  | cons b rest =>
    have hnone : (isLetter b || isDigit b) = false :=
      (stops_cons (p := fun b => isLetter b || isDigit b)).mp h
    obtain ⟨hletter, hdigit⟩ := Bool.or_eq_false_iff.mp hnone
    exact closes_symbol hdigit hletter digits r rest

theorem read_write (radix : Radix) (z : Int)
    (h : Stops (fun b => isLetter b || isDigit b) rest) :
    read? (radix.write z ++ rest) = some (clamp z, rest) := by
  have hnone := List.forall_mem_nil (fun b => isSpace b = true)
  obtain ⟨r, hu⟩ := unsigned_digits radix z.natAbs
  have hc := closes_of_stops h ((radix.mark ++ radix.digits z.natAbs).map Char.toUInt8) r
  unfold Radix.write
  rw [List.map_append, List.append_assoc]
  by_cases hz : z < 0
  · have hread := read_unsigned hnone .minus hu hc
    have hvalue : -(z.natAbs : Int) = z := by omega
    rw [if_pos rfl, hvalue] at hread
    rw [if_pos hz]
    exact hread
  · have hread := read_unsigned hnone .none hu hc
    have hvalue : (z.natAbs : Int) = z := by omega
    rw [if_neg nofun, hvalue] at hread
    rw [if_neg hz]
    exact hread

end Written

section Reading

variable {s : List UInt8}

/-- No digit stands behind blanks and a sign, wherever the sign ends. -/
theorem read_eq_none_iff_no_digit :
    read? s = none ↔ ∀ blanks signText negative rest, s = blanks ++ (signText ++ rest) →
      (∀ b ∈ blanks, isSpace b = true) → Sign signText negative → Stops isDigit rest := by
  rw [read_eq_none_iff]
  constructor
  · intro hstop blanks signText negative rest hs hb hsigned d hd
    refine Bool.eq_false_iff.mpr fun hdigit => ?_
    obtain ⟨tail, rfl⟩ := List.head?_eq_some_iff.mp hd
    rw [hs, sign_skipSpace hb hsigned hdigit, stops_cons, hdigit] at hstop
    cases hstop
  · intro hall
    obtain ⟨signText, hsigned, hsplit⟩ := sign_split (skipSpace s)
    refine hall (s.takeWhile isSpace) signText _ _ ?_ (fun b hb => mem_takeWhile hb) hsigned
    rw [← hsplit]
    exact List.takeWhile_append_dropWhile.symm

/-- The reader takes the longest number at the front of a text, and nothing when no digit is there.
It yields the nearest number of the signed 64-bit range. So an integer of any size that is written
in a radix is read to its own end, whatever follows, as long as this is no letter or digit. -/
theorem read_nearest :
    (∀ s v rest, read? s = some (v, rest) ↔
      ∃ text z, s = text ++ rest ∧ Leads text z rest ∧
        v.toInt = max (-2 ^ 63) (min z (2 ^ 63 - 1))) ∧
    (∀ s, read? s = none ↔ ∀ blanks signText negative rest, s = blanks ++ (signText ++ rest) →
      (∀ b ∈ blanks, isSpace b = true) → Sign signText negative → Stops isDigit rest) ∧
    ∀ (radix : Radix) (z : Int) rest, Stops (fun b => isLetter b || isDigit b) rest →
      ∃ v, read? (radix.write z ++ rest) = some (v, rest) ∧
        v.toInt = max (-2 ^ 63) (min z (2 ^ 63 - 1)) := by
  have hnearest : ∀ (v : Int64) (z : Int),
      v = clamp z ↔ v.toInt = max (-2 ^ 63) (min z (2 ^ 63 - 1)) := by
    intro v z
    rw [← Int64.toInt_inj, toInt_clamp]
  refine ⟨fun s v rest => ?_, fun s => read_eq_none_iff_no_digit, fun radix z rest hrest => ?_⟩
  · simp only [← hnearest]
    exact read_eq_some_iff
  · exact ⟨clamp z, read_write radix z hrest, toInt_clamp z⟩

/-- A number that no 64-bit word holds, even without its sign. -/
theorem read_nearest_beyond_word :
    Radix.write (.hex true) (-(2 ^ 64 + 15)) = ascii "-0x1000000000000000F" ∧
      Stops (fun b => isLetter b || isDigit b) (ascii ")7") ∧
      ∃ v, read? (Radix.write (.hex true) (-(2 ^ 64 + 15)) ++ ascii ")7") = some (v, ascii ")7") ∧
        v.toInt = -2 ^ 63 := by
  have hstop : Stops (fun b => isLetter b || isDigit b) (ascii ")7") :=
    stops_cons.mpr (by decide)
  exact ⟨rfl, hstop, read_nearest.2.2 (.hex true) (-(2 ^ 64 + 15)) _ hstop⟩

end Reading

end ContentType.Numeral
