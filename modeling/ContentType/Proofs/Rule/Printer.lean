import ContentType.Proofs.Rule.Numeral
import ContentType.Proofs.Text.Utf8
import ContentType.Rule.Literal
import ContentType.Rule.Printer
import Mathlib.Data.List.Chain

namespace ContentType
open Byte Numeral

/-- Characters that a word on a line consists of. -/
def IsGraphic (c : Char) : Prop :=
  0x20 < c.toNat ∧ c.toNat < 0x7f

section Graphic

variable {c : Char}

theorem IsGraphic.isSpace (h : IsGraphic c) : isSpace c.toUInt8 = false := by
  obtain ⟨hlow, hhigh⟩ := h
  refine Bool.eq_false_iff.mpr fun hspace => ?_
  have hb := isSpace_iff.mp hspace
  rw [Utf8.toNat_toUInt8 (by omega)] at hb
  omega

theorem IsGraphic.ascii (h : IsGraphic c) : c.toNat < 0x80 :=
  Nat.lt_trans h.2 (by decide)

theorem skipSpace_graphic {cs : List Char} (hne : cs ≠ []) (h : ∀ c ∈ cs, IsGraphic c)
    (rest : List UInt8) :
    skipSpace (cs.map Char.toUInt8 ++ rest) = cs.map Char.toUInt8 ++ rest := by
  obtain ⟨c, cs, rfl⟩ := List.exists_cons_of_ne_nil hne
  exact dropWhile_of_stops (stops_cons.mpr (h c List.mem_cons_self).isSpace)

end Graphic

section Numbers

theorem digit_digitChar {radix d : Nat} (hd : d < radix) (hr : radix ≤ 16) :
    digit? radix (Nat.digitChar d).toUInt8 = some d := by
  have hall : ∀ r ≤ 16, ∀ d < r, digit? r (Nat.digitChar d).toUInt8 = some d := by
    decide +kernel
  exact hall radix hr d hd

theorem ofDigits_append (radix : Nat) (s : List UInt8) (b : UInt8) :
    ofDigits radix (s ++ [b]) = ofDigits radix s * radix + (digit? radix b).getD 0 := by
  simp only [ofDigits, List.foldl_append, List.foldl_cons, List.foldl_nil]

/-- Digits of the same values spell the same number. -/
theorem ofDigits_congr {radix : Nat} {s t : List UInt8}
    (h : s.map (digit? radix) = t.map (digit? radix)) : ofDigits radix s = ofDigits radix t := by
  have hvalues : ∀ s, ofDigits radix s =
      (s.map (digit? radix)).foldl (fun n d => n * radix + d.getD 0) 0 :=
    fun s => by rw [List.foldl_map]; rfl
  rw [hvalues, hvalues, h]

theorem isDigits_congr {radix : Nat} {s t : List UInt8}
    (h : s.map (digit? radix) = t.map (digit? radix)) : IsDigits radix s ↔ IsDigits radix t := by
  have hvalues : ∀ s, IsDigits radix s ↔ ∀ d ∈ s.map (digit? radix), d.isSome = true :=
    fun s => by rw [List.forall_mem_map]; rfl
  rw [hvalues, hvalues, h]

variable {radix : Nat} (hone : 1 < radix) (hr : radix ≤ 16)
include hone

theorem mem_toDigits {n : Nat} {c : Char} (h : c ∈ Nat.toDigits radix n) :
    ∃ d < radix, c = Nat.digitChar d := by
  induction n using Nat.strongRecOn with
  | ind n ih =>
    by_cases hlt : n < radix
    · rw [Nat.toDigits_of_lt_base hlt, List.mem_singleton] at h
      exact ⟨n, hlt, h⟩
    · rw [Nat.toDigits_of_base_le hone (Nat.le_of_not_lt hlt), List.mem_append,
        List.mem_singleton] at h
      rcases h with h | h
      · exact ih (n / radix) (Nat.div_lt_self (by omega) hone) h
      · exact ⟨n % radix, Nat.mod_lt n (Nat.lt_of_succ_lt hone), h⟩

include hr

theorem isDigits_toDigits (n : Nat) : IsDigits radix ((Nat.toDigits radix n).map Char.toUInt8) := by
  intro b hb
  obtain ⟨c, hc, rfl⟩ := List.mem_map.mp hb
  obtain ⟨d, hd, rfl⟩ := mem_toDigits hone hc
  rw [digit_digitChar hd hr]
  rfl

theorem isGraphic_toDigits {n : Nat} {c : Char} (h : c ∈ Nat.toDigits radix n) : IsGraphic c := by
  obtain ⟨d, hd, rfl⟩ := mem_toDigits hone h
  have hall : ∀ d < 16, 0x20 < (Nat.digitChar d).toNat ∧ (Nat.digitChar d).toNat < 0x7f := by
    decide
  exact hall d (Nat.lt_of_lt_of_le hd hr)

/-- Printed digits are read as the number that they were printed from. -/
theorem ofDigits_toDigits (n : Nat) :
    ofDigits radix ((Nat.toDigits radix n).map Char.toUInt8) = n := by
  induction n using Nat.strongRecOn with
  | ind n ih =>
    by_cases hlt : n < radix
    · have hvalue := ofDigits_append radix [] (Nat.digitChar n).toUInt8
      rw [digit_digitChar hlt hr] at hvalue
      rw [Nat.toDigits_of_lt_base hlt]
      simpa [ofDigits] using hvalue
    · have hdigit := digit_digitChar (Nat.mod_lt n (Nat.lt_of_succ_lt hone)) hr
      rw [Nat.toDigits_of_base_le hone (Nat.le_of_not_lt hlt), List.map_append, List.map_singleton,
        ofDigits_append, ih (n / radix) (Nat.div_lt_self (by omega) hone), hdigit,
        Option.getD_some]
      exact Nat.div_add_mod' n radix

omit hone hr

/-- No zero stands in front of a printed number. -/
theorem toDigits_cons {n : Nat} (hn : n ≠ 0) :
    ∃ d ds, (Nat.toDigits 10 n).map Char.toUInt8 = d :: ds ∧ d ≠ '0'.toUInt8 := by
  have hzero : ∀ n < 10, n ≠ 0 → (Nat.digitChar n).toUInt8 ≠ '0'.toUInt8 := by decide
  induction n using Nat.strongRecOn with
  | ind n ih =>
    by_cases hlt : n < 10
    · exact ⟨_, [], by rw [Nat.toDigits_of_lt_base hlt, List.map_singleton], hzero n hlt hn⟩
    · obtain ⟨d, ds, hd, hne⟩ := ih (n / 10) (by omega) (by omega)
      refine ⟨d, ds ++ [(Nat.digitChar (n % 10)).toUInt8], ?_, hne⟩
      rw [Nat.toDigits_of_base_le (by decide) (Nat.le_of_not_lt hlt), List.map_append, hd,
        List.cons_append, List.map_singleton]

theorem unsigned_toDigits (n : Nat) :
    ∃ radix, Unsigned ((Nat.toDigits 10 n).map Char.toUInt8) radix n := by
  by_cases hn : n = 0
  · subst hn
    exact ⟨8, .octal (List.forall_mem_nil _)⟩
  · have hall := isDigits_toDigits (by decide) (by decide : 10 ≤ 16) n
    have hvalue := ofDigits_toDigits (by decide) (by decide : 10 ≤ 16) n
    obtain ⟨d, ds, hd, hne⟩ := toDigits_cons hn
    rw [hd] at hall hvalue ⊢
    have hu := Unsigned.decimal hne hall
    rw [hvalue] at hu
    exact ⟨10, hu⟩

/-- Letters of either case may stand in a hex number. -/
theorem unsigned_hex {n : Nat} {s : List UInt8}
    (h : s.map (digit? 16) = ((Nat.toDigits 16 n).map Char.toUInt8).map (digit? 16)) :
    Unsigned ('0'.toUInt8 :: 'x'.toUInt8 :: s) 16 n := by
  have hall : IsDigits 16 s :=
    (isDigits_congr h).mpr (isDigits_toDigits (by decide) (Nat.le_refl 16) n)
  have hvalue : ofDigits 16 s = n :=
    (ofDigits_congr h).trans (ofDigits_toDigits (by decide) (Nat.le_refl 16) n)
  have hne : s ≠ [] := by
    rintro rfl
    rw [List.map_nil, eq_comm, List.map_eq_nil_iff, List.map_eq_nil_iff] at h
    exact Nat.toDigits_ne_nil h
  have hu := Unsigned.hex (Or.inl rfl) hne hall
  rw [hvalue] at hu
  exact hu

theorem unsigned_hexNumber (n : UInt64) :
    Unsigned ((hexNumber n).map Char.toUInt8) 16 n.toNat :=
  unsigned_hex rfl

theorem isGraphic_hexNumber {n : UInt64} {c : Char} (h : c ∈ hexNumber n) : IsGraphic c := by
  rw [hexNumber, List.mem_cons, List.mem_cons] at h
  rcases h with rfl | rfl | h
  · exact ⟨by decide, by decide⟩
  · exact ⟨by decide, by decide⟩
  · exact isGraphic_toDigits (by decide) (Nat.le_refl 16) h

/-- A printed number in front of a symbol is the longest one there. -/
theorem leads_decimal {b : UInt8} (hd : isDigit b = false) (hl : isLetter b = false) (z : Int)
    (rest : List UInt8) : Leads ((Text.decimal z).map Char.toUInt8) z (b :: rest) := by
  have hnone := List.forall_mem_nil (fun b => isSpace b = true)
  cases z with
  | ofNat n =>
    obtain ⟨r, hu⟩ := unsigned_toDigits n
    exact leads_of_closes hnone .none hu (closes_symbol hd hl _ r rest)
  | negSucc n =>
    obtain ⟨r, hu⟩ := unsigned_toDigits (n + 1)
    exact leads_of_closes hnone .minus hu (closes_symbol hd hl _ r rest)

theorem isGraphic_decimal {z : Int} {c : Char} (h : c ∈ Text.decimal z) : IsGraphic c := by
  cases z with
  | ofNat n => exact isGraphic_toDigits (by decide) (by decide) h
  | negSucc n =>
    rcases List.mem_cons.mp h with rfl | h
    · exact ⟨by decide, by decide⟩
    · exact isGraphic_toDigits (by decide) (by decide) h

theorem isGraphic_signedDecimal {z : Int} {c : Char} (h : c ∈ signedDecimal z) : IsGraphic c := by
  unfold signedDecimal at h
  split at h
  · rcases List.mem_cons.mp h with rfl | h
    · exact ⟨by decide, by decide⟩
    · exact isGraphic_decimal h
  · exact isGraphic_decimal h

/-- A hex number in the signed range is read as itself. -/
theorem read_hexNumber {n : UInt64} (hn : n.toNat < 2 ^ 63) {rest : List UInt8}
    (hc : Closes ((hexNumber n).map Char.toUInt8) 16 rest) :
    read? ((hexNumber n).map Char.toUInt8 ++ rest) = some (n.toInt64, rest) := by
  have hclamp : clamp (n.toNat : Int) = n.toInt64 := by
    apply Int64.toInt_inj.mp
    rw [clamp_of_range (by omega) (by omega)]
    exact (BitVec.toInt_eq_toNat_of_lt (x := n.toBitVec) (by simpa using by omega)).symm
  rw [read_digits (unsigned_hexNumber n) hc, hclamp]

end Numbers

section Literals

/-- Bytes that are written by their numbers, which a hex digit behind them would go on with. -/
def WrittenHex (b : UInt8) : Prop :=
  ['\\', 'x'] <+: escapedByte b

instance : DecidablePred WrittenHex :=
  fun b => inferInstanceAs (Decidable (['\\', 'x'] <+: escapedByte b))

/-- An escape is a letter, or the number of the byte; any other byte stands for itself. -/
theorem escapedByte_cases (b : UInt8) :
    (∃ c, escapedByte b = ['\\', c] ∧
      ∀ rest, Literal.escape (c.toUInt8 :: rest) = some (b, rest)) ∨
    (escapedByte b = [Char.ofNat b.toNat] ∧ b ≠ '\\'.toUInt8 ∧ 0x20 ≤ b ∧ b ≤ 0x7e) ∨
    escapedByte b = ['\\', 'x', Nat.digitChar (b.toNat / 16), Nat.digitChar (b.toNat % 16)] := by
  unfold escapedByte
  by_cases htab : b = 0x09
  · exact Or.inl ⟨'t', if_pos htab, fun _ => by rw [htab]; rfl⟩
  rw [if_neg htab]
  by_cases hcr : b = 0x0d
  · exact Or.inl ⟨'r', if_pos hcr, fun _ => by rw [hcr]; rfl⟩
  rw [if_neg hcr]
  by_cases hnl : b = 0x0a
  · exact Or.inl ⟨'n', if_pos hnl, fun _ => by rw [hnl]; rfl⟩
  rw [if_neg hnl]
  by_cases hquote : b = '\''.toUInt8
  · exact Or.inl ⟨'\'', if_pos hquote, fun _ => by rw [hquote]; rfl⟩
  rw [if_neg hquote]
  by_cases hdouble : b = '"'.toUInt8
  · exact Or.inl ⟨'"', if_pos hdouble, fun _ => by rw [hdouble]; rfl⟩
  rw [if_neg hdouble]
  by_cases hslash : b = '\\'.toUInt8
  · exact Or.inl ⟨'\\', if_pos hslash, fun _ => by rw [hslash]; rfl⟩
  rw [if_neg hslash]
  by_cases hplain : 0x20 ≤ b ∧ b ≤ 0x7e
  · exact Or.inr (Or.inl ⟨if_pos (by simpa using hplain), hslash, hplain⟩)
  · exact Or.inr (Or.inr (if_neg (by simpa using hplain)))

theorem escapedByte_ne_nil (b : UInt8) : escapedByte b ≠ [] := by
  rcases escapedByte_cases b with ⟨c, he, _⟩ | ⟨he, _⟩ | he
  all_goals rw [he]
  all_goals exact List.cons_ne_nil _ _

theorem isGraphic_escapedByte {b : UInt8} (hb : b ≠ 0x20) {c : Char} (h : c ∈ escapedByte b) :
    IsGraphic c := by
  have hall : ∀ b : UInt8, b ≠ 0x20 →
      (escapedByte b).all (fun c => 0x20 < c.toNat && c.toNat < 0x7f) = true :=
    forall_of_lt (by decide +kernel)
  simpa only [IsGraphic, Bool.and_eq_true, decide_eq_true_eq] using
    List.all_eq_true.mp (hall b hb) c h

variable {room : Nat} {b : UInt8} {rest : List UInt8}

theorem read_backslash {s : List UInt8} (h : Literal.escape s = some (b, rest)) :
    Literal.read (room + 1) ('\\'.toUInt8 :: s) =
      (b :: (Literal.read room rest).1, (Literal.read room rest).2) := by
  have hspace : isSpace '\\'.toUInt8 = false := by decide
  simp only [Literal.read, hspace, Bool.false_eq_true, if_false, if_true, h]

/-- Two hex digits are a byte's number, when no third one follows. -/
theorem escape_hex (b : UInt8) (hrest : Stops Literal.isHex rest) :
    Literal.escape ('x'.toUInt8 :: (Nat.digitChar (b.toNat / 16)).toUInt8 ::
      (Nat.digitChar (b.toNat % 16)).toUInt8 :: rest) = some (b, rest) := by
  have hb := b.toNat_lt
  have hhigh := digit_digitChar (by omega : b.toNat / 16 < 16) (Nat.le_refl 16)
  have hlow := digit_digitChar (by omega : b.toNat % 16 < 16) (Nat.le_refl 16)
  generalize (Nat.digitChar (b.toNat / 16)).toUInt8 = h at *
  generalize (Nat.digitChar (b.toNat % 16)).toUInt8 = l at *
  have htake : (rest.take 1).takeWhile Literal.isHex = [] := by
    apply takeWhile_of_stops
    cases rest with
    | nil => exact stops_nil _
    | cons a rest => exact hrest.cons []
  have hdigits : ((h :: l :: rest).take 3).takeWhile Literal.isHex = [h, l] := by
    rw [List.take_succ_cons, List.take_succ_cons,
      List.takeWhile_cons_of_pos (by rw [Literal.isHex, hhigh]; rfl),
      List.takeWhile_cons_of_pos (by rw [Literal.isHex, hlow]; rfl), htake]
  have hvalue : ofDigits 16 [h, l] = b.toNat := by
    simp only [ofDigits, List.foldl_cons, List.foldl_nil, hhigh, hlow, Option.getD_some]
    omega
  have hescape : ∀ s, Literal.escape ('x'.toUInt8 :: s) =
      if (s.take 3).takeWhile Literal.isHex = [] then some ('x'.toUInt8, s)
      else some (UInt8.ofNat (ofDigits 16 ((s.take 3).takeWhile Literal.isHex)),
        s.drop ((s.take 3).takeWhile Literal.isHex).length) := fun _ => rfl
  rw [hescape, hdigits, if_neg (List.cons_ne_nil _ _), hvalue, UInt8.ofNat_toNat]
  rfl

/-- A printed byte is read back, if what follows it does not go on with its number. -/
theorem read_escapedByte (hb : b ≠ 0x20) (hrest : WrittenHex b → Stops Literal.isHex rest) :
    Literal.read (room + 1) ((escapedByte b).map Char.toUInt8 ++ rest) =
      (b :: (Literal.read room rest).1, (Literal.read room rest).2) := by
  rcases escapedByte_cases b with ⟨c, he, hescape⟩ | ⟨he, hslash, hlow, hhigh⟩ | he
  · rw [he]
    exact read_backslash (hescape rest)
  · have hspace : ∀ b, b ≠ 0x20 → 0x20 ≤ b → isSpace b = false := forall_of_lt (by decide +kernel)
    have hascii : b < 0x80 := UInt8.lt_of_le_of_lt hhigh (by decide)
    rw [he, List.map_singleton, Utf8.toUInt8_charOfNat hascii, List.singleton_append]
    simp only [Literal.read, hspace b hb hlow, Bool.false_eq_true, if_false, if_neg hslash]
  · have hhex : WrittenHex b := ⟨_, he.symm⟩
    rw [he]
    exact read_backslash (escape_hex b (hrest hhex))

/-- What is printed for a byte does not begin with a hex digit, unless the byte is one. -/
theorem stops_escapedByte (hb : digit? 16 b = none) :
    Stops Literal.isHex ((escapedByte b).map Char.toUInt8 ++ rest) := by
  have hhex : Literal.isHex '\\'.toUInt8 = false := by decide
  rcases escapedByte_cases b with ⟨c, he, _⟩ | ⟨he, _, _, hhigh⟩ | he
  · rw [he]
    exact stops_cons.mpr hhex
  · rw [he, List.map_singleton, Utf8.toUInt8_charOfNat (UInt8.lt_of_le_of_lt hhigh (by decide))]
    exact stops_cons.mpr (by rw [Literal.isHex, hb]; rfl)
  · rw [he]
    exact stops_cons.mpr hhex

/-- Literals that are printed without loss: no blank is inside, and no byte goes on with the number
of the byte in front of it. -/
structure Literal.Printable (literal : List UInt8) : Prop where
  solid : 0x20 ∉ literal
  apart : literal.IsChain fun b c => WrittenHex b → digit? 16 c = none

theorem isGraphic_literal {literal : List UInt8} (h : Literal.Printable literal) :
    ∀ c ∈ literal.flatMap escapedByte, IsGraphic c := by
  intro c hc
  obtain ⟨b, hb, hmem⟩ := List.mem_flatMap.mp hc
  exact isGraphic_escapedByte (fun he => h.solid (he ▸ hb)) hmem

/-- Nothing is read where a literal ends. -/
theorem read_of_stops (room : Nat) (hrest : Stops (fun b => !isSpace b) rest) :
    Literal.read room rest = ([], rest) := by
  cases rest with
  | nil => cases room <;> rfl
  | cons b rest =>
    have hb : isSpace b = true := by simpa using stops_cons.mp hrest
    cases room with
    | zero => rw [Literal.read, dropWhile_of_stops hrest]
    | succ room => rw [Literal.read, if_pos hb]

/-- A printed literal is read back up to the blank behind it. -/
theorem read_literal {literal : List UInt8} (h : Literal.Printable literal)
    (hroom : literal.length ≤ room) (hrest : Stops (fun b => !isSpace b) rest) :
    Literal.read room ((literal.flatMap escapedByte).map Char.toUInt8 ++ rest) =
      (literal, rest) := by
  induction literal generalizing room with
  | nil => rw [List.flatMap_nil, List.map_nil, List.nil_append, read_of_stops room hrest]
  | cons b literal ih =>
    obtain ⟨hb, hsolid⟩ : b ≠ 0x20 ∧ 0x20 ∉ literal := by
      have hsolid := h.solid
      rw [List.mem_cons, not_or] at hsolid
      exact ⟨Ne.symm hsolid.1, hsolid.2⟩
    have hnext : WrittenHex b →
        Stops Literal.isHex ((literal.flatMap escapedByte).map Char.toUInt8 ++ rest) := by
      intro hhex
      cases literal with
      | nil =>
        have hspace : ∀ a, Literal.isHex a = true → isSpace a = false := fun a ha =>
          (isDigit_or_isLetter ha).elim not_isSpace_of_isDigit not_isSpace_of_isLetter
        intro a ha
        have hblank : isSpace a = true := by simpa using hrest a ha
        refine Bool.eq_false_iff.mpr fun hhex => ?_
        rw [hspace a hhex] at hblank
        cases hblank
      | cons c literal =>
        have hc := (List.isChain_cons_cons.mp h.apart).1 hhex
        rw [List.flatMap_cons, List.map_append, List.append_assoc]
        exact stops_escapedByte hc
    cases room with
    | zero => simp at hroom
    | succ room =>
      have hread := ih ⟨hsolid, List.isChain_of_isChain_cons h.apart⟩ (Nat.le_of_succ_le_succ hroom)
      rw [List.flatMap_cons, List.map_append, List.append_assoc, read_escapedByte hb hnext, hread]

end Literals

section Rules

/-- What a rule expects is printed without loss. -/
structure Expected.Legible (expected : Expected) : Prop where
  number : ∀ n, expected = .number n → n.toNat < 2 ^ 63
  literal : ∀ bytes, expected = .bytes bytes → Literal.Printable bytes

theorem Expected.Legible.isGraphic {expected : Expected} (h : expected.Legible) :
    ∀ c ∈ expected.chars, IsGraphic c := by
  cases expected with
  | number n => exact fun c hc => isGraphic_hexNumber hc
  | bytes literal => exact isGraphic_literal (h.literal literal rfl)
  | none => exact List.forall_mem_nil _

theorem isGraphic_symbol (relation : Relation) : IsGraphic relation.symbol := by
  cases relation <;> exact ⟨by decide, by decide⟩

namespace Rule

/-- The printed head, a place and a type behind the marks. -/
def headChars (r : Rule) : List Char :=
  List.replicate r.level.toNat '>' ++ r.place ++ ' ' :: (if r.unsigned then ['u'] else []) ++
    r.type.keyword.toList

def maskChars (r : Rule) : List Char :=
  if r.mask = -1 then [] else '&' :: hexNumber r.mask

/-- The printed test, up to the description. -/
def testChars (r : Rule) : List Char :=
  r.maskChars ++ ' ' :: r.relation.symbol :: r.expected.chars

/-- The bytes of the description, with a blank in front unless there is none. -/
def described (r : Rule) : List UInt8 :=
  if r.description = "" then [] else 0x20 :: Utf8.encode r.description

variable {r : Rule}

theorem ascii_place (r : Rule) : ∀ c ∈ r.place, c.toNat < 0x80 := by
  unfold place
  split
  · exact fun c hc => (isGraphic_decimal hc).ascii
  · rename_i p _
    have hletter : p.width.letter.toNat < 0x80 := by
      cases p.width <;> decide
    simp only [List.forall_mem_append, List.forall_mem_cons]
    exact ⟨⟨⟨by decide, fun c hc => (isGraphic_decimal hc).ascii⟩, by decide, hletter,
      fun c hc => (isGraphic_signedDecimal hc).ascii⟩, by decide, List.forall_mem_nil _⟩

theorem ascii_headChars (r : Rule) : ∀ c ∈ r.headChars, c.toNat < 0x80 := by
  have hkeyword : ∀ c ∈ r.type.keyword.toList, c.toNat < 0x80 := by
    have hall : r.type.keyword.toList.all (fun c => c.toNat < 0x80) = true := by
      cases r.type <;> decide +kernel
    exact fun c hc => by simpa using List.all_eq_true.mp hall c hc
  have hunsigned : ∀ c ∈ (if r.unsigned then ['u'] else []), c.toNat < 0x80 := by
    cases r.unsigned with
    | false => exact List.forall_mem_nil _
    | true => exact List.forall_mem_singleton.mpr (by decide)
  have hmark : ∀ c ∈ List.replicate r.level.toNat '>', c.toNat < 0x80 := by
    intro c hc
    rw [List.eq_of_mem_replicate hc]
    decide
  simp only [headChars, List.forall_mem_append, List.forall_mem_cons]
  exact ⟨⟨⟨hmark, ascii_place r⟩, by decide, hunsigned⟩, hkeyword⟩

theorem ascii_testChars (h : r.expected.Legible) : ∀ c ∈ r.testChars, c.toNat < 0x80 := by
  have hmask : ∀ c ∈ r.maskChars, c.toNat < 0x80 := by
    unfold maskChars
    split
    · exact List.forall_mem_nil _
    · exact List.forall_mem_cons.mpr ⟨by decide, fun c hc => (isGraphic_hexNumber hc).ascii⟩
  simp only [testChars, List.forall_mem_append, List.forall_mem_cons]
  exact ⟨hmask, by decide, (isGraphic_symbol r.relation).ascii,
    fun c hc => (h.isGraphic c hc).ascii⟩

/-- A printed rule is a head, a test and a description. -/
theorem encode_text (h : r.expected.Legible) :
    Utf8.encode r.text =
      r.headChars.map Char.toUInt8 ++ (r.testChars.map Char.toUInt8 ++ r.described) := by
  have hchars : r.chars = r.headChars ++ (r.testChars ++
      (if r.description = "" then [] else ' ' :: r.description.toList)) := by
    simp only [chars, headChars, testChars, maskChars, List.append_assoc,
      List.cons_append]
  have hdescribed : (if r.description = "" then [] else ' ' :: r.description.toList).flatMap
      String.utf8EncodeChar = r.described := by
    unfold described
    split
    · rfl
    · rw [List.flatMap_cons, Utf8.utf8EncodeChar_ascii (by decide)]
      rfl
  rw [Utf8.encode, text, String.toList_ofList, hchars, List.flatMap_append,
    List.flatMap_append, hdescribed, Utf8.flatMap_ascii (ascii_headChars r),
    Utf8.flatMap_ascii (ascii_testChars h)]

end Rule

end Rules

end ContentType
