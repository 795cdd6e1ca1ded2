import ContentType.Byte

namespace ContentType

section Runs

variable {α : Type} {p : α → Bool} {run rest : List α}

/-- The rest of a text does not go on with a class. -/
def Stops (p : α → Bool) (rest : List α) : Prop :=
  ∀ a, rest.head? = some a → p a = false

theorem stops_nil (p : α → Bool) : Stops p [] := fun _ h => nomatch h

theorem stops_cons {a : α} : Stops p (a :: rest) ↔ p a = false :=
  ⟨fun h => h a rfl, fun h _ hb => Option.some.inj hb ▸ h⟩

theorem Stops.cons {a : α} (h : Stops p (a :: rest)) (more : List α) : Stops p (a :: more) :=
  stops_cons.mpr (stops_cons.mp h)

theorem Stops.append (h : ∀ a ∈ run, p a = false) (hrest : Stops p rest) :
    Stops p (run ++ rest) := by
  cases run with
  | nil => exact hrest
  | cons a run => exact stops_cons.mpr (h a List.mem_cons_self)

theorem stops_dropWhile (p : α → Bool) (s : List α) : Stops p (s.dropWhile p) := by
  intro a ha
  have := List.head?_dropWhile_not p s
  rw [ha] at this
  simpa using this

theorem mem_takeWhile {s : List α} {a : α} (h : a ∈ s.takeWhile p) : p a = true :=
  List.all_eq_true.mp List.all_takeWhile a h

theorem takeWhile_of_stops (h : Stops p rest) : rest.takeWhile p = [] := by
  cases rest with
  | nil => rfl
  | cons a rest => rw [List.takeWhile_cons_of_neg (by simp [stops_cons.mp h])]

theorem dropWhile_of_stops (h : Stops p rest) : rest.dropWhile p = rest := by
  cases rest with
  | nil => rfl
  | cons a rest => rw [List.dropWhile_cons_of_neg (by simp [stops_cons.mp h])]

/-- A run that a text ends with goes no further behind it. -/
theorem takeWhile_append_of_stops (s : List α) (h : Stops p rest) :
    (s ++ rest).takeWhile p = s.takeWhile p := by
  rw [List.takeWhile_append, takeWhile_of_stops h, List.append_nil]
  split
  · rename_i hall
    exact ((List.takeWhile_sublist p).eq_of_length hall).symm
  · rfl

theorem takeWhile_run (hrun : ∀ a ∈ run, p a = true) (hrest : Stops p rest) :
    (run ++ rest).takeWhile p = run := by
  rw [List.takeWhile_append_of_pos hrun, takeWhile_of_stops hrest, List.append_nil]

theorem dropWhile_run (hrun : ∀ a ∈ run, p a = true) (hrest : Stops p rest) :
    (run ++ rest).dropWhile p = rest := by
  rw [List.dropWhile_append_of_pos hrun, dropWhile_of_stops hrest]

end Runs

namespace Byte

theorem splitOn_newline (s : List UInt8) :
    (0x0a :: s).splitOn 0x0a = [] :: s.splitOn 0x0a := by
  rw [List.splitOn_cons_eq_if_modifyHead, if_pos (by rfl)]

theorem splitOn_cons_of_ne {b : UInt8} (h : b ≠ 0x0a) (s : List UInt8) :
    (b :: s).splitOn 0x0a = (s.splitOn 0x0a).modifyHead (List.cons b) := by
  rw [List.splitOn_cons_eq_if_modifyHead, if_neg (by simpa using h)]

/-- A statement on bytes is settled by the numbers below 256. -/
theorem forall_of_lt {P : UInt8 → Prop} (h : ∀ n < 256, P (UInt8.ofNat n)) (b : UInt8) : P b := by
  simpa using h b.toNat b.toNat_lt

section Classes

variable {b : UInt8} {radix : Nat}

theorem isSpace_iff : isSpace b = true ↔ b.toNat = 0x20 ∨ 9 ≤ b.toNat ∧ b.toNat ≤ 13 := by
  simp [isSpace, UInt8.le_iff_toNat_le, ← UInt8.toNat_inj]

theorem isDigit_iff : isDigit b = true ↔ 0x30 ≤ b.toNat ∧ b.toNat ≤ 0x39 := by
  simp [isDigit, UInt8.le_iff_toNat_le]

theorem isLetter_iff : isLetter b = true ↔
    0x41 ≤ b.toNat ∧ b.toNat ≤ 0x5a ∨ 0x61 ≤ b.toNat ∧ b.toNat ≤ 0x7a := by
  simp [isLetter, UInt8.le_iff_toNat_le]

theorem lt_of_isSpace (h : isSpace b = true) : b < 0x80 := by
  have hb := isSpace_iff.mp h
  simp only [UInt8.lt_iff_toNat_lt, UInt8.reduceToNat]
  omega

theorem lt_of_isDigit (h : isDigit b = true) : b < 0x80 := by
  have hb := isDigit_iff.mp h
  simp only [UInt8.lt_iff_toNat_lt, UInt8.reduceToNat]
  omega

theorem lt_of_isLetter (h : isLetter b = true) : b < 0x80 := by
  have hb := isLetter_iff.mp h
  simp only [UInt8.lt_iff_toNat_lt, UInt8.reduceToNat]
  omega

theorem not_isSpace_of_isDigit (h : isDigit b = true) : isSpace b = false := by
  refine Bool.eq_false_iff.mpr fun hspace => ?_
  have hdigit := isDigit_iff.mp h
  have hb := isSpace_iff.mp hspace
  omega

theorem not_isSpace_of_isLetter (h : isLetter b = true) : isSpace b = false := by
  refine Bool.eq_false_iff.mpr fun hspace => ?_
  have hletter := isLetter_iff.mp h
  have hb := isSpace_iff.mp hspace
  omega

end Classes

theorem isSome_digit_ten : ∀ b, (digit? 10 b).isSome = isDigit b :=
  forall_of_lt (by decide +kernel)

/-- What is neither a digit nor a letter is no digit in any radix. -/
theorem digit_symbol {b : UInt8} (hd : isDigit b = false) (hl : isLetter b = false)
    (radix : Nat) : digit? radix b = none := by
  have hletter : (0x41 ≤ b && b ≤ 0x5a) = false ∧ (0x61 ≤ b && b ≤ 0x7a) = false := by
    simpa only [isLetter, Bool.or_eq_false_iff] using hl
  simp only [digit?, hd, hletter, Bool.false_eq_true, if_false, Nat.lt_irrefl]

theorem isDigit_or_isLetter {b : UInt8} {radix : Nat} (h : (digit? radix b).isSome = true) :
    isDigit b = true ∨ isLetter b = true := by
  by_cases hdigit : isDigit b = true
  · exact Or.inl hdigit
  · refine Or.inr (Classical.byContradiction fun hletter => ?_)
    rw [digit_symbol (Bool.eq_false_iff.mpr hdigit) (Bool.eq_false_iff.mpr hletter)] at h
    cases h

/-- A digit is no blank and no sign. -/
theorem plain_of_isDigit (b : UInt8) (h : isDigit b = true) :
    isSpace b = false ∧ b ≠ '+'.toUInt8 ∧ b ≠ '-'.toUInt8 := by
  refine ⟨not_isSpace_of_isDigit h, ?_, ?_⟩ <;> rintro rfl <;> cases h

end Byte

end ContentType
