import ContentType.Proofs.Rule.Description
import ContentType.Proofs.Rule.Head
import ContentType.Proofs.Rule.Printer

namespace ContentType
open Byte

namespace Literal

/-- A byte's number in three octal digits. -/
def octalDigits (b : UInt8) : List UInt8 :=
  [Nat.digitChar (b.toNat / 64), Nat.digitChar (b.toNat / 8 % 8),
    Nat.digitChar (b.toNat % 8)].map Char.toUInt8

def octalEscape (b : UInt8) : List UInt8 :=
  '\\'.toUInt8 :: octalDigits b

variable {rest : List UInt8}

/-- No letter of an escape is an octal digit. -/
theorem escape_of_isOctal {c : UInt8} (hc : isOctal c = true) (s : List UInt8) :
    escape (c :: s) = some (UInt8.ofNat (ofDigits 8 (c :: (s.take 2).takeWhile isOctal)),
      s.drop ((s.take 2).takeWhile isOctal).length) := by
  have hne : ∀ letter, isOctal letter = false → c ≠ letter := by
    rintro letter hletter rfl
    rw [hc] at hletter
    cases hletter
  simp only [escape, if_neg (hne 'n'.toUInt8 (by decide)), if_neg (hne 'r'.toUInt8 (by decide)),
    if_neg (hne 'b'.toUInt8 (by decide)), if_neg (hne 't'.toUInt8 (by decide)),
    if_neg (hne 'f'.toUInt8 (by decide)), if_neg (hne 'v'.toUInt8 (by decide)), if_pos hc]

/-- Three digits are as many as an escape can have, so a digit behind them is not one of them. -/
theorem escape_octalDigits (b : UInt8) (rest : List UInt8) :
    escape (octalDigits b ++ rest) = some (b, rest) := by
  have hb := b.toNat_lt
  have hhigh := digit_digitChar (by omega : b.toNat / 64 < 8) (by decide)
  have hmiddle := digit_digitChar (by omega : b.toNat / 8 % 8 < 8) (by decide)
  have hlow := digit_digitChar (by omega : b.toNat % 8 < 8) (by decide)
  simp only [octalDigits, List.map_cons, List.map_nil, List.cons_append, List.nil_append]
  generalize (Nat.digitChar (b.toNat / 64)).toUInt8 = h at *
  generalize (Nat.digitChar (b.toNat / 8 % 8)).toUInt8 = m at *
  generalize (Nat.digitChar (b.toNat % 8)).toUInt8 = l at *
  have hmore : ((m :: l :: rest).take 2).takeWhile isOctal = [m, l] := by
    rw [List.take_succ_cons, List.take_succ_cons, List.take_zero,
      List.takeWhile_cons_of_pos (by rw [isOctal, hmiddle]; rfl),
      List.takeWhile_cons_of_pos (by rw [isOctal, hlow]; rfl), List.takeWhile_nil]
  have hvalue : ofDigits 8 [h, m, l] = b.toNat := by
    simp only [ofDigits, List.foldl_cons, List.foldl_nil, hhigh, hmiddle, hlow, Option.getD_some]
    omega
  rw [escape_of_isOctal (by rw [isOctal, hhigh]; rfl), hmore, hvalue, UInt8.ofNat_toNat]
  rfl

/-- No blank is written, so the word of a literal goes on to its last escape. -/
theorem word_octalEscape (b : UInt8) : ∀ c ∈ octalEscape b, (!isSpace c) = true := by
  have hb := b.toNat_lt
  have hdigit : ∀ d < 8, (!isSpace (Nat.digitChar d).toUInt8) = true := by decide
  simp only [octalEscape, octalDigits, List.map_cons, List.map_nil, List.forall_mem_cons]
  exact ⟨by decide, hdigit _ (by omega), hdigit _ (by omega), hdigit _ (by omega),
    List.forall_mem_nil _⟩

/-- What is written in octal is read as itself, as far as there is room for it. -/
theorem read_octal (room : Nat) (w : List UInt8) (hrest : Stops (fun b => !isSpace b) rest) :
    read room (w.flatMap octalEscape ++ rest) = (w.take room, rest) := by
  induction w generalizing room with
  | nil => rw [List.flatMap_nil, List.nil_append, read_of_stops room hrest, List.take_nil]
  | cons b w ih =>
    cases room with
    | zero =>
      have hword : ∀ c ∈ (b :: w).flatMap octalEscape, (!isSpace c) = true := by
        intro c hc
        obtain ⟨a, _, hmem⟩ := List.mem_flatMap.mp hc
        exact word_octalEscape a c hmem
      rw [read, dropWhile_run hword hrest, List.take_zero]
    | succ room =>
      have hescape := escape_octalDigits b (w.flatMap octalEscape ++ rest)
      rw [List.flatMap_cons, List.append_assoc, octalEscape, List.cons_append,
        read_backslash hescape, ih room, List.take_succ_cons]

end Literal

namespace Line

variable {d : String}

/-- A line that compares with a literal written in octal, and a description behind it. -/
def octalLine (w : List UInt8) (d : String) : List UInt8 :=
  ascii "0 string =" ++ (w.flatMap Literal.octalEscape ++ 0x20 :: Utf8.encode d)

def literalRule (literal : List UInt8) (d : String) : Rule where
  level := 0
  pointer := none
  offset := 0
  type := .string
  mask := -1
  relation := .equal
  expected := .bytes literal
  unsigned := false
  description := d
  noSpace := false
  line := 0

theorem readTest_octal {w : List UInt8} (hw : w ≠ []) (h : IsDescription d) :
    readTest ⟨0, none, 0, false, .string⟩
        (0x20 :: '='.toUInt8 :: (w.flatMap Literal.octalEscape ++ 0x20 :: Utf8.encode d)) =
      literalRule (w.take Literal.maxLength) d := by
  have hrest : Stops (fun b => !isSpace b) (0x20 :: Utf8.encode d) := stops_cons.mpr (by decide)
  have hmask : ∀ s, readMask .string false (0x20 :: s) = (-1, 0x20 :: s) := fun _ => rfl
  have hblank : ∀ s, skipSpace (0x20 :: '='.toUInt8 :: s) = '='.toUInt8 :: s := fun _ => rfl
  have hrelation : ∀ s, readRelation .string ('='.toUInt8 :: s) = (.equal, s) := fun _ => rfl
  have hword : skipSpace (w.flatMap Literal.octalEscape ++ 0x20 :: Utf8.encode d) =
      w.flatMap Literal.octalEscape ++ 0x20 :: Utf8.encode d := by
    obtain ⟨b, w, rfl⟩ := List.exists_cons_of_ne_nil hw
    exact dropWhile_of_stops (stops_cons.mpr (by decide))
  have hexpected : ∀ s, readExpected .string false .equal s =
      (.bytes (Literal.read Literal.maxLength (skipSpace s)).1,
        (Literal.read Literal.maxLength (skipSpace s)).2) := fun _ => rfl
  simp only [readTest, hmask, hblank, hrelation, hexpected, hword, Literal.read_octal _ w hrest,
    h.readNoSpace, h.kept, literalRule]

/-- Any bytes can be written as a literal, of which at most 63 are kept. Nothing of them is taken
for a blank, a relation or a comment, and none of them gets into the description. -/
theorem read_octal_literal {w : List UInt8} {d : String} (hw : w ≠ []) (hd : PlainDescription d) :
    read (octalLine w d) = .ok (some (literalRule (w.take 63) d)) := by
  have hline : ascii "0 string =" =
      ascii "0 " ++ typeText false .string ++ [0x20, '='.toUInt8] := by rfl
  have hdescription := hd.isDescription
  rw [octalLine, hline, List.append_assoc, ← List.append_assoc [_, _],
    read_headText (headText_zero false .string), hdescription.strip]
  exact congrArg (fun r => Except.ok (some r)) (readTest_octal hw hdescription)

/-- Bytes that would be a blank, a comment, an escape, a digit and a line end, and more than are
kept. -/
def awkwardBytes : List UInt8 :=
  [0x20, 0x23, 0x5c, 0x37, 0x0a, 0, 0xff] ++ List.replicate 60 '1'.toUInt8

theorem read_octal_literal_awkward :
    awkwardBytes ≠ [] ∧ PlainDescription "a x/b" ∧
      read (ascii "0 string =\\040\\043\\134\\067\\012\\000\\377" ++
        ((List.replicate 60 (ascii "\\061")).flatten ++ ascii " a x/b")) =
          .ok (some (literalRule ([0x20, 0x23, 0x5c, 0x37, 0x0a, 0, 0xff] ++
            List.replicate 56 '1'.toUInt8) "a x/b")) := by
  have hprintable : "a x/b".toList.all (fun c => 0x20 ≤ c.toNat) = true := by decide
  have hplain : PlainDescription "a x/b" :=
    ⟨by decide, by decide, by decide,
      fun c hc => by simpa using List.all_eq_true.mp hprintable c hc, by decide, by decide⟩
  have hones : (List.replicate 60 '1'.toUInt8).flatMap Literal.octalEscape =
      (List.replicate 60 (ascii "\\061")).flatten := by
    rw [List.flatMap_def, List.map_replicate]
    rfl
  have hline : octalLine awkwardBytes "a x/b" =
      ascii "0 string =\\040\\043\\134\\067\\012\\000\\377" ++
        ((List.replicate 60 (ascii "\\061")).flatten ++ ascii " a x/b") := by
    rw [octalLine, awkwardBytes, List.flatMap_append, hones, List.append_assoc,
      ← List.append_assoc (ascii "0 string =")]
    rfl
  have hkept : awkwardBytes.take 63 =
      [0x20, 0x23, 0x5c, 0x37, 0x0a, 0, 0xff] ++ List.replicate 56 '1'.toUInt8 := by rfl
  rw [← hline, ← hkept]
  exact ⟨List.cons_ne_nil _ _, hplain, read_octal_literal (List.cons_ne_nil _ _) hplain⟩

end Line

end ContentType
