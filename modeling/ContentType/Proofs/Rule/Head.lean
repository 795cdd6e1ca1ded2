import ContentType.Proofs.Rule.Numeral
import ContentType.Proofs.Rule.WellFormed
import Mathlib.Data.List.TakeWhile

namespace ContentType

/-- The part of a rule that its line settles before the test. -/
def Rule.head (r : Rule) : Line.Head where
  level := r.level
  pointer := r.pointer
  offset := r.offset
  unsigned := r.unsigned
  type := r.type

namespace Line
open Byte Numeral

/-- The letter of a pointer's width behind a dot, or nothing for a long pointer. -/
inductive WidthText : List UInt8 → PointerWidth → Prop
  | none : WidthText [] .long
  | letter (width : PointerWidth) : WidthText ['.'.toUInt8, width.letter.toUInt8] width

/-- A sign, a number without blanks or a sign of its own, both or neither. -/
inductive AdjustText : List UInt8 → Int64 → Prop
  | sign {text : List UInt8} {negative : Bool} (signed : Sign text negative) : AdjustText text 0
  | number {signText digits : List UInt8} {negative : Bool} {radix n : Nat}
      (signed : Sign signText negative) (unsigned : Unsigned digits radix n) :
      AdjustText (signText ++ digits) (if negative then -clamp n else clamp n)

/-- An offset in front of what follows it in a head, or behind a mark an indirect one. The number
that an offset is made of is as long as it can be. -/
inductive PlaceText (marked : Bool) (following : List UInt8) :
    List UInt8 → Option Pointer → Int → Prop
  | direct {text : List UInt8} {z : Int} (number : Leads text z following) :
      PlaceText marked following text none z
  | indirect {text width adjust : List UInt8} {z : Int} {w : PointerWidth} {a : Int64}
      (behind : marked = true) (number : Leads text z (width ++ (adjust ++ [')'.toUInt8])))
      (hw : WidthText width w) (ha : AdjustText adjust a) :
      PlaceText marked following ('('.toUInt8 :: (text ++ (width ++ (adjust ++ [')'.toUInt8]))))
        (some ⟨w, a⟩) z

def typeText (unsigned : Bool) (type : FieldType) : List UInt8 :=
  (if unsigned then ['u'.toUInt8] else []) ++ ascii type.keyword

/-- Blanks, marks, an offset, digits left over after it, blanks, and a type. -/
inductive HeadText : List UInt8 → Head → Prop
  | mk {blanks place digits gap : List UInt8} {marks : Nat} {pointer : Option Pointer} {z : Int}
      {offset : Int64} {unsigned : Bool} {type : FieldType}
      (blank : ∀ b ∈ blanks, isSpace b = true)
      (placed : PlaceText (decide (0 < marks)) (digits ++ (gap ++ typeText unsigned type)) place
        pointer z)
      (left : ∀ b ∈ digits, isDigit b = true) (between : ∀ b ∈ gap, isSpace b = true)
      (truncated : offset.toInt = (clamp z).toInt.bmod (2 ^ 32)) :
      HeadText
        (blanks ++ (List.replicate marks '>'.toUInt8 ++
          (place ++ (digits ++ (gap ++ typeText unsigned type)))))
        ⟨UInt16.ofNat (min marks 65535), pointer, offset, unsigned, type⟩

section Types

theorem typeText_cons (unsigned : Bool) (type : FieldType) :
    ∃ b tail, typeText unsigned type = b :: tail ∧ ¬ IsHexMark b ∧ isDigit b = false ∧
      isSpace b = false := by
  cases unsigned <;> cases type <;> exact ⟨_, _, rfl, by decide, by decide, by decide⟩

/-- No keyword begins another one, so the first that fits is the one that is written. -/
theorem find_keyword (type : FieldType) (rest : List UInt8) :
    FieldType.all.find? (fun t => (ascii t.keyword).isPrefixOf (ascii type.keyword ++ rest)) =
      some type := by
  cases type <;> rfl

theorem readType_typeText (unsigned : Bool) (type : FieldType) (rest : List UInt8) :
    readType (typeText unsigned type ++ rest) = .ok (unsigned, type, rest) := by
  cases unsigned with
  | true =>
    have hfind := find_keyword type rest
    simp only [typeText, if_true, List.cons_append, List.nil_append, readType, hfind,
      List.drop_left]
  | false =>
    have hfind := find_keyword type rest
    obtain ⟨b, tail, hb, hne⟩ : ∃ b tail, ascii type.keyword = b :: tail ∧ b ≠ 'u'.toUInt8 := by
      cases type <;> exact ⟨_, _, rfl, by decide⟩
    rw [hb, List.cons_append] at hfind
    have hdrop : (b :: (tail ++ rest)).drop (ascii type.keyword).length = rest := by
      rw [← List.cons_append, ← hb, List.drop_left]
    simp only [typeText, Bool.false_eq_true, if_false, List.nil_append, hb, List.cons_append,
      readType, if_neg hne, hfind]
    rw [hb] at hdrop
    rw [hdrop]

theorem eq_append_of_find {s : List UInt8} {type : FieldType}
    (h : FieldType.all.find? (fun t => (ascii t.keyword).isPrefixOf s) = some type) :
    s = ascii type.keyword ++ s.drop (ascii type.keyword).length := by
  have hprefix := List.find?_some (p := fun t : FieldType => (ascii t.keyword).isPrefixOf s) h
  obtain ⟨more, rfl⟩ := List.isPrefixOf_iff_prefix.mp hprefix
  rw [List.drop_left]

theorem typeText_of_readType {s rest : List UInt8} {unsigned : Bool} {type : FieldType}
    (h : readType s = .ok (unsigned, type, rest)) : s = typeText unsigned type ++ rest := by
  cases s with
  | nil => cases h
  | cons c tail =>
    unfold readType at h
    dsimp only at h
    by_cases hc : c = 'u'.toUInt8
    · rw [if_pos hc] at h
      split at h
      · cases h
      · rename_i t ht
        cases h
        exact congrArg₂ List.cons hc (eq_append_of_find ht)
    · rw [if_neg hc] at h
      split at h
      · cases h
      · rename_i t ht
        cases h
        exact eq_append_of_find ht

end Types

section Places

theorem readOffset_of_leads {text rest : List UInt8} {z : Int} (h : Leads text z rest) :
    readOffset (text ++ rest) = .ok ((clamp z).toInt32.toInt64, rest) := by
  have hread := read_eq_some_iff.mpr ⟨text, z, rfl, h, rfl⟩
  simp only [readOffset, hread]

theorem leads_of_readOffset {s rest : List UInt8} {offset : Int64}
    (h : readOffset s = .ok (offset, rest)) :
    ∃ text z, s = text ++ rest ∧ Leads text z rest ∧ offset = (clamp z).toInt32.toInt64 := by
  unfold readOffset at h
  split at h
  · cases h
  · rename_i n rest' hread
    cases h
    obtain ⟨text, z, rfl, hleads, rfl⟩ := read_eq_some_iff.mp hread
    exact ⟨text, z, rfl, hleads, rfl⟩

theorem readOffset_skipSpace (s : List UInt8) {offset : Int64} {rest : List UInt8} :
    readOffset (skipSpace s) = .ok (offset, rest) ↔ readOffset s = .ok (offset, rest) := by
  unfold readOffset
  rw [read_skipSpace]
  split <;> simp

theorem readWidth_widthText {text rest : List UInt8} {width : PointerWidth}
    (h : WidthText text width) (hrest : Stops (fun b => b == '.'.toUInt8) rest) :
    readWidth (text ++ rest) = .ok (width, rest) := by
  cases h with
  | none =>
    cases rest with
    | nil => rfl
    | cons b rest =>
      have hb : b ≠ '.'.toUInt8 := by simpa using stops_cons.mp hrest
      simp only [List.nil_append, readWidth, if_neg hb]
  | letter width => cases width <;> rfl

theorem widthText_of_readWidth {s rest : List UInt8} {width : PointerWidth}
    (h : readWidth s = .ok (width, rest)) : ∃ text, s = text ++ rest ∧ WidthText text width := by
  unfold readWidth at h
  split at h
  · cases h
    exact ⟨[], rfl, .none⟩
  · rename_i dot s
    split at h
    · rename_i hdot
      subst hdot
      split at h
      · cases h
      · rename_i c rest'
        split at h
        · rename_i hc
          cases h
          exact ⟨_, by rw [hc]; rfl, .letter .long⟩
        · split at h
          · rename_i hc
            cases h
            exact ⟨_, by rw [hc]; rfl, .letter .short⟩
          · split at h
            · rename_i hc
              cases h
              exact ⟨_, by rw [hc]; rfl, .letter .byte⟩
            · cases h
    · cases h
      exact ⟨[], rfl, .none⟩

theorem readAdjust_adjustText {text : List UInt8} {adjust : Int64} (h : AdjustText text adjust)
    (rest : List UInt8) :
    readAdjust (text ++ ')'.toUInt8 :: rest) = (adjust, ')'.toUInt8 :: rest) := by
  have hparen : isDigit ')'.toUInt8 = false := by decide
  cases h with
  | @sign _ negative signed =>
    have hsign : Numeral.sign (text ++ ')'.toUInt8 :: rest) = (negative, ')'.toUInt8 :: rest) :=
      signed.append (stops_cons.mpr (by decide))
    simp only [readAdjust, hsign, hparen, Bool.false_eq_true, if_false]
  | @number signText digits negative radix n signed unsigned =>
    obtain ⟨d, ds, rfl, hd⟩ := unsigned.head
    obtain ⟨_, hplus, hminus⟩ := plain_of_isDigit d hd
    have hsign : Numeral.sign (signText ++ (d :: (ds ++ ')'.toUInt8 :: rest))) =
        (negative, d :: (ds ++ ')'.toUInt8 :: rest)) :=
      signed.append (stops_cons.mpr (by simp [hplus, hminus]))
    have hread := read_digits unsigned (closes_symbol hparen (by decide) _ _ rest)
    rw [List.cons_append] at hread
    simp only [readAdjust, List.append_assoc, List.cons_append, hsign, hd, if_true, hread]

theorem adjustText_of_readAdjust (s : List UInt8) :
    ∃ text, s = text ++ (readAdjust s).2 ∧ AdjustText text (readAdjust s).1 := by
  obtain ⟨signText, hsigned, hs⟩ := sign_split s
  unfold readAdjust
  dsimp only
  split
  · rename_i hend
    exact ⟨signText, by rw [← hend]; exact hs, .sign hsigned⟩
  · rename_i c tail hc
    split
    · rename_i hdigit
      split
      · exact ⟨signText, hs, .sign hsigned⟩
      · rename_i n rest hread
        obtain ⟨blanks, inner, digits, negative, r, m, hsplit, hb, hinner, hu, _, rfl⟩ :=
          Numeral.read_cases hread
        -- In front of a digit the number has neither blanks nor a sign of its own.
        obtain ⟨hspace, hplus, hminus⟩ := plain_of_isDigit c hdigit
        rw [hc] at hsplit
        cases blanks with
        | cons b blanks =>
          obtain rfl := (List.cons.inj hsplit).1
          exact absurd (hb c List.mem_cons_self) (by simp [hspace])
        | nil =>
          cases hinner with
          | plus => exact absurd (List.cons.inj hsplit).1 hplus
          | minus => exact absurd (List.cons.inj hsplit).1 hminus
          | none =>
            refine ⟨signText ++ digits, ?_, .number hsigned hu⟩
            rw [hc, hsplit] at hs
            rw [hs, List.append_assoc]
            rfl
    · exact ⟨signText, hs, .sign hsigned⟩

variable {width adjust : List UInt8} {w : PointerWidth} {a : Int64}

theorem AdjustText.cons (h : AdjustText adjust a) :
    ∃ b tail, adjust ++ [')'.toUInt8] = b :: tail ∧ b ≠ '.'.toUInt8 ∧ ¬ IsHexMark b := by
  have hdigit : ∀ d, isDigit d = true → d ≠ '.'.toUInt8 ∧ ¬ IsHexMark d := by
    intro d hd
    constructor
    · rintro rfl
      cases hd
    · rintro (rfl | rfl) <;> cases hd
  cases h with
  | sign signed => cases signed <;> exact ⟨_, _, rfl, by decide, by decide⟩
  | number signed unsigned =>
    obtain ⟨d, ds, rfl, hd⟩ := unsigned.head
    cases signed with
    | none => exact ⟨d, _, rfl, hdigit d hd⟩
    | plus | minus => exact ⟨_, _, rfl, by decide, by decide⟩

theorem WidthText.cons (hw : WidthText width w) (ha : AdjustText adjust a) :
    ∃ b tail, width ++ (adjust ++ [')'.toUInt8]) = b :: tail ∧ ¬ IsHexMark b := by
  cases hw with
  | none =>
    obtain ⟨b, tail, hb, _, hmark⟩ := ha.cons
    exact ⟨b, tail, hb, hmark⟩
  | letter w => exact ⟨_, _, rfl, by decide⟩

theorem readPointer_of_text (hw : WidthText width w) (ha : AdjustText adjust a)
    (rest : List UInt8) :
    readPointer (width ++ (adjust ++ [')'.toUInt8]) ++ rest) = .ok (⟨w, a⟩, rest) := by
  have hwidth : readWidth (width ++ (adjust ++ ')'.toUInt8 :: rest)) =
      .ok (w, adjust ++ ')'.toUInt8 :: rest) := by
    apply readWidth_widthText hw
    obtain ⟨b, tail, hb, hdot, _⟩ := ha.cons
    rw [← List.singleton_append, ← List.append_assoc, hb]
    exact stops_cons.mpr (by simpa using hdot)
  rw [List.append_assoc, List.append_assoc, List.singleton_append]
  simp only [readPointer, hwidth, readAdjust_adjustText ha, bind, Except.bind, if_true]

theorem text_of_readPointer {s rest : List UInt8} {p : Pointer}
    (h : readPointer s = .ok (p, rest)) :
    ∃ width adjust, s = width ++ (adjust ++ [')'.toUInt8]) ++ rest ∧ WidthText width p.width ∧
      AdjustText adjust p.adjust := by
  obtain ⟨⟨w, tail⟩, hwidth, hclose⟩ := bind_ok h
  obtain ⟨width, rfl, hw⟩ := widthText_of_readWidth hwidth
  obtain ⟨adjust, htail, ha⟩ := adjustText_of_readAdjust tail
  dsimp only at hclose
  split at hclose
  · cases hclose
  · rename_i c rest' hc
    split at hclose
    · rename_i hparen
      cases hclose
      refine ⟨width, adjust, ?_, hw, ha⟩
      rw [hc, hparen] at htail
      rw [htail, List.append_assoc, List.append_assoc, List.singleton_append]
    · cases hclose

/-- The bytes that a number may begin with begin nothing else. -/
theorem plain_of_start (b : UInt8)
    (h : isSpace b = true ∨ b = '+'.toUInt8 ∨ b = '-'.toUInt8 ∨ isDigit b = true) :
    b ≠ '('.toUInt8 ∧ b ≠ '#'.toUInt8 ∧ isMark b = false := by
  have hne : ∀ c, isSpace c = false → isDigit c = false → c ≠ '+'.toUInt8 → c ≠ '-'.toUInt8 →
      b ≠ c := by
    rintro c hspace hdigit hplus hminus rfl
    simp only [hspace, hdigit, hplus, hminus, Bool.false_eq_true, or_self] at h
  exact ⟨hne _ (by decide) (by decide) (by decide) (by decide),
    hne _ (by decide) (by decide) (by decide) (by decide),
    beq_eq_false_iff_ne.mpr (hne _ (by decide) (by decide) (by decide) (by decide))⟩

/-- An offset is read where there is neither a mark nor a parenthesis. -/
theorem readOffset_cons {s rest : List UInt8} {offset : Int64}
    (h : readOffset s = .ok (offset, rest)) :
    ∃ b tail, s = b :: tail ∧ b ≠ '('.toUInt8 ∧ b ≠ '#'.toUInt8 ∧ isMark b = false := by
  obtain ⟨text, z, rfl, hleads, _⟩ := leads_of_readOffset h
  obtain ⟨b, tail, rfl, hb⟩ := hleads.spells.head
  exact ⟨b, tail ++ rest, rfl, plain_of_start b hb⟩

theorem readPlace_of_readOffset {s rest : List UInt8} {offset : Int64} (marked : Bool)
    (h : readOffset s = .ok (offset, rest)) : readPlace marked s = .ok (none, offset, rest) := by
  obtain ⟨b, tail, rfl, hb, _⟩ := readOffset_cons h
  simp only [readPlace, if_neg hb, h, bind, Except.bind, pure, Except.pure]

variable {marked : Bool} {following place : List UInt8} {pointer : Option Pointer} {z : Int}

theorem readPlace_placeText (h : PlaceText marked following place pointer z)
    {b : UInt8} {tail : List UInt8} (hfollowing : following = b :: tail) (hb : ¬ IsHexMark b)
    (rest : List UInt8) :
    readPlace marked (place ++ (following ++ rest)) =
      .ok (pointer, (clamp z).toInt32.toInt64, following ++ rest) := by
  cases h with
  | direct number =>
    subst hfollowing
    exact readPlace_of_readOffset marked (readOffset_of_leads (number.append hb rest))
  | indirect behind number hw ha =>
    obtain ⟨c, more, hc, hmark⟩ := hw.cons ha
    rw [hc] at number
    have hoffset := readOffset_of_leads (number.append hmark (following ++ rest))
    rw [← hc] at hoffset
    have hpointer := readPointer_of_text hw ha (following ++ rest)
    rw [List.cons_append, List.append_assoc]
    simp only [readPlace, behind, if_true, hoffset, hpointer, bind, Except.bind, pure,
      Except.pure]

theorem placeText_of_readPlace {s rest : List UInt8} {offset : Int64}
    (h : readPlace marked s = .ok (pointer, offset, following ++ rest)) :
    ∃ place z, s = place ++ (following ++ rest) ∧
      PlaceText marked following place pointer z ∧ offset = (clamp z).toInt32.toInt64 := by
  rcases readPlace_cases h with
    ⟨rfl, hoffset⟩ | ⟨inner, tail, p, rfl, hmarked, rfl, hoffset, hpointer⟩
  · obtain ⟨text, z, hs, number, hz⟩ := leads_of_readOffset hoffset
    exact ⟨text, z, hs, .direct number.of_append, hz⟩
  · obtain ⟨text, z, rfl, number, hz⟩ := leads_of_readOffset hoffset
    obtain ⟨width, adjust, rfl, hw, ha⟩ := text_of_readPointer hpointer
    refine ⟨_, z, ?_, .indirect hmarked number.of_append hw ha, hz⟩
    simp only [List.cons_append, List.append_assoc]

/-- A place begins with no mark. -/
theorem PlaceText.stops (h : PlaceText marked following place pointer z) (rest : List UInt8) :
    Stops isMark (place ++ rest) := by
  cases h with
  | direct number =>
    obtain ⟨b, tail, rfl, hb⟩ := number.spells.head
    exact stops_cons.mpr (plain_of_start b hb).2.2
  | indirect => exact stops_cons.mpr (by decide)

end Places

section Heads

theorem toInt_truncate (n : Int64) : n.toInt32.toInt64.toInt = n.toInt.bmod (2 ^ 32) := by
  rw [Int32.toInt_toInt64, Int64.toInt_toInt32]

theorem readHead_replicate (marks : Nat) {s tail rest : List UInt8} {pointer : Option Pointer}
    {offset : Int64} {unsigned : Bool} {type : FieldType} (hstop : Stops isMark s)
    (hplace : readPlace (decide (0 < marks)) s = .ok (pointer, offset, tail))
    (htype : readType (skipSpace (tail.dropWhile isDigit)) = .ok (unsigned, type, rest)) :
    readHead (List.replicate marks '>'.toUInt8 ++ s) =
      .ok (⟨UInt16.ofNat (min marks 65535), pointer, offset, unsigned, type⟩, rest) := by
  have hmarks : ∀ b ∈ List.replicate marks '>'.toUInt8, isMark b = true :=
    fun b hb => by rw [List.eq_of_mem_replicate hb]; decide
  have hmarked : (!(List.replicate marks '>'.toUInt8).isEmpty) = decide (0 < marks) := by
    cases marks <;> rfl
  simp only [readHead, takeWhile_run hmarks hstop, dropWhile_run hmarks hstop, hmarked,
    List.length_replicate, hplace, htype, bind, Except.bind, pure, Except.pure]

/-- Without marks, the blanks that a number may begin with are gone with those of the line. -/
theorem unmarked_skipSpace {s rest : List UInt8} {pointer : Option Pointer} {offset : Int64}
    (h : readPlace false s = .ok (pointer, offset, rest)) :
    Stops isMark (skipSpace s) ∧ readPlace false (skipSpace s) = .ok (pointer, offset, rest) := by
  rcases readPlace_cases h with ⟨rfl, hoffset⟩ | ⟨_, _, _, _, hmarked, _⟩
  · have hread := (readOffset_skipSpace s).mpr hoffset
    obtain ⟨b, tail, hs, _, _, hmark⟩ := readOffset_cons hread
    refine ⟨?_, readPlace_of_readOffset false hread⟩
    rw [hs]
    exact stops_cons.mpr hmark
  · cases hmarked

/-- Digits left over and blanks stand between a place and its type. -/
theorem readType_following {digits gap : List UInt8} (left : ∀ b ∈ digits, isDigit b = true)
    (between : ∀ b ∈ gap, isSpace b = true) (unsigned : Bool) (type : FieldType)
    (rest : List UInt8) :
    readType (skipSpace
      ((digits ++ (gap ++ typeText unsigned type) ++ rest).dropWhile isDigit)) =
      .ok (unsigned, type, rest) := by
  have hdigit : ∀ b, isSpace b = true → isDigit b = false := fun b hb =>
    Bool.eq_false_iff.mpr fun hd => by rw [not_isSpace_of_isDigit hd] at hb; cases hb
  obtain ⟨b, tail, hb, _, hnodigit, hnospace⟩ := typeText_cons unsigned type
  have hstop : Stops isDigit (gap ++ (typeText unsigned type ++ rest)) :=
    Stops.append (fun a ha => hdigit a (between a ha)) (by rw [hb]; exact stops_cons.mpr hnodigit)
  have hspace : Stops isSpace (typeText unsigned type ++ rest) := by
    rw [hb]
    exact stops_cons.mpr hnospace
  rw [List.append_assoc, List.append_assoc, dropWhile_run left hstop]
  unfold skipSpace
  rw [dropWhile_run between hspace, readType_typeText]

theorem following_cons {digits gap : List UInt8} (left : ∀ b ∈ digits, isDigit b = true)
    (between : ∀ b ∈ gap, isSpace b = true) (unsigned : Bool) (type : FieldType) :
    ∃ b tail, digits ++ (gap ++ typeText unsigned type) = b :: tail ∧ ¬ IsHexMark b := by
  have hdigit : ∀ b, isDigit b = true → ¬ IsHexMark b := by
    rintro b hb (rfl | rfl) <;> cases hb
  have hspace : ∀ b, isSpace b = true → ¬ IsHexMark b := by
    rintro b hb (rfl | rfl) <;> cases hb
  cases digits with
  | cons b digits => exact ⟨b, _, rfl, hdigit b (left b List.mem_cons_self)⟩
  | nil =>
    cases gap with
    | cons b gap => exact ⟨b, _, rfl, hspace b (between b List.mem_cons_self)⟩
    | nil =>
      obtain ⟨b, tail, hb, hmark, _⟩ := typeText_cons unsigned type
      exact ⟨b, tail, hb, hmark⟩

theorem readHead_headText {text : List UInt8} {head : Head} (h : HeadText text head)
    (rest : List UInt8) : readHead (skipSpace (text ++ rest)) = .ok (head, rest) := by
  cases h with
  | @mk blanks place digits gap marks pointer z offset unsigned type blank placed left between
      truncated =>
    have hoffset : offset = (clamp z).toInt32.toInt64 :=
      Int64.toInt_inj.mp (by rw [truncated, toInt_truncate])
    obtain ⟨b, tail, hfollowing, hmark⟩ := following_cons left between unsigned type
    have hplace := readPlace_placeText placed hfollowing hmark rest
    rw [← hoffset] at hplace
    have htype := readType_following left between unsigned type rest
    generalize digits ++ (gap ++ typeText unsigned type) = following at *
    rw [List.append_assoc, List.append_assoc, List.append_assoc]
    cases marks with
    | zero =>
      obtain ⟨hstop, hskipped⟩ := unmarked_skipSpace hplace
      have hskip : skipSpace (blanks ++ (place ++ (following ++ rest))) =
          skipSpace (place ++ (following ++ rest)) := List.dropWhile_append_of_pos blank
      rw [List.replicate_zero, List.nil_append, hskip]
      exact readHead_replicate 0 hstop hskipped htype
    | succ marks =>
      have hskip : skipSpace
          (blanks ++ (List.replicate (marks + 1) '>'.toUInt8 ++ (place ++ (following ++ rest)))) =
          List.replicate (marks + 1) '>'.toUInt8 ++ (place ++ (following ++ rest)) :=
        dropWhile_run blank (stops_cons.mpr (by decide))
      rw [hskip]
      exact readHead_replicate (marks + 1) (placed.stops (following ++ rest)) hplace htype

theorem following_of_readType {s rest : List UInt8} {unsigned : Bool} {type : FieldType}
    (h : readType (skipSpace (s.dropWhile isDigit)) = .ok (unsigned, type, rest)) :
    ∃ digits gap, s = digits ++ (gap ++ typeText unsigned type) ++ rest ∧
      (∀ b ∈ digits, isDigit b = true) ∧ ∀ b ∈ gap, isSpace b = true := by
  refine ⟨s.takeWhile isDigit, (s.dropWhile isDigit).takeWhile isSpace, ?_,
    fun b hb => mem_takeWhile hb, fun b hb => mem_takeWhile hb⟩
  rw [List.append_assoc, List.append_assoc, ← typeText_of_readType h]
  unfold skipSpace
  rw [List.takeWhile_append_dropWhile, List.takeWhile_append_dropWhile]

theorem headText_of_readHead {s rest : List UInt8} {head : Head}
    (h : readHead (skipSpace s) = .ok (head, rest)) :
    ∃ text, s = text ++ rest ∧ HeadText text head := by
  have hlevel := level_readHead h
  obtain ⟨tail, hplace, htype⟩ := readHead_cases h
  obtain ⟨digits, gap, rfl, left, between⟩ := following_of_readType htype
  obtain ⟨marks, hmarks⟩ : ∃ k, (skipSpace s).takeWhile isMark = List.replicate k '>'.toUInt8 :=
    ⟨_, List.eq_replicate_of_mem fun b hb => by simpa [isMark] using mem_takeWhile hb⟩
  have hmarked : (!(List.replicate marks '>'.toUInt8).isEmpty) = decide (0 < marks) := by
    cases marks <;> simp
  rw [hmarks, hmarked] at hplace
  rw [hmarks, List.length_replicate] at hlevel
  obtain ⟨place, z, hrest, placed, hz⟩ := placeText_of_readPlace hplace
  have htruncated : head.offset.toInt = (clamp z).toInt.bmod (2 ^ 32) := by
    rw [hz, toInt_truncate]
  refine ⟨s.takeWhile isSpace ++ (List.replicate marks '>'.toUInt8 ++
    (place ++ (digits ++ (gap ++ typeText head.unsigned head.type)))), ?_, ?_⟩
  · have hskip : skipSpace s = List.replicate marks '>'.toUInt8 ++
        (place ++ (digits ++ (gap ++ typeText head.unsigned head.type) ++ rest)) := by
      rw [← hrest, ← hmarks, List.takeWhile_append_dropWhile]
    calc s = s.takeWhile isSpace ++ skipSpace s := List.takeWhile_append_dropWhile.symm
      _ = _ := by simp only [hskip, List.append_assoc]
  · have hblank : ∀ b ∈ s.takeWhile isSpace, isSpace b = true := fun b hb => mem_takeWhile hb
    have htext := HeadText.mk hblank placed left between htruncated
    rw [← hlevel] at htext
    exact htext

theorem readHead_cons {s rest : List UInt8} {head : Head} (h : readHead s = .ok (head, rest)) :
    ∃ b tail, s = b :: tail ∧ b ≠ '#'.toUInt8 := by
  obtain ⟨tail, hplace, _⟩ := readHead_cases h
  cases s with
  | nil =>
    rcases readPlace_cases hplace with ⟨_, hoffset⟩ | ⟨_, _, _, he, _⟩
    · obtain ⟨_, _, he, _⟩ := readOffset_cons hoffset
      cases he
    · cases he
  | cons b s =>
    refine ⟨b, s, rfl, fun hb => ?_⟩
    subst hb
    rw [List.dropWhile_cons_of_neg (by decide)] at hplace
    rcases readPlace_cases hplace with ⟨_, hoffset⟩ | ⟨_, _, _, he, _⟩
    · obtain ⟨b, _, he, _, hne, _⟩ := readOffset_cons hoffset
      exact hne (List.cons.inj he).1.symm
    · exact absurd (List.cons.inj he).1 (by decide)

end Heads

section Lines

theorem read_eq_none_iff {line : List UInt8} :
    read line = .ok none ↔ (∀ b ∈ strip line, isSpace b = true) ∨
      ∃ blanks rest, (∀ b ∈ blanks, isSpace b = true) ∧
        strip line = blanks ++ '#'.toUInt8 :: rest := by
  have hblank : skipSpace (strip line) = [] ↔ ∀ b ∈ strip line, isSpace b = true :=
    List.dropWhile_eq_nil_iff
  have hcomment : (∃ rest, skipSpace (strip line) = '#'.toUInt8 :: rest) ↔
      ∃ blanks rest, (∀ b ∈ blanks, isSpace b = true) ∧
        strip line = blanks ++ '#'.toUInt8 :: rest := by
    constructor
    · intro h
      obtain ⟨rest, hrest⟩ := h
      refine ⟨(strip line).takeWhile isSpace, rest, fun b hb => mem_takeWhile hb, ?_⟩
      rw [← hrest]
      exact List.takeWhile_append_dropWhile.symm
    · intro h
      obtain ⟨blanks, rest, hb, hline⟩ := h
      exact ⟨rest, by rw [hline]; exact dropWhile_run hb (stops_cons.mpr (by decide))⟩
  rw [← isBlank_iff, isBlank, ← head_skipSpace_strip, ← hblank, ← hcomment]
  cases skipSpace (strip line) <;> simp

theorem read_of_readHead {line rest : List UInt8} {head : Head}
    (h : readHead (skipSpace (strip line)) = .ok (head, rest)) :
    read line = .ok (some (readTest head rest)) := by
  obtain ⟨b, tail, hs, hb⟩ := readHead_cons h
  rw [hs] at h
  simp only [read, hs, if_neg hb, h, bind, Except.bind, pure, Except.pure]

/-- The head of a rule is the head that its line begins with. -/
theorem read_rule_iff {line : List UInt8} {head : Head} :
    (∃ r, read line = .ok (some r) ∧ r.head = head) ↔
      ∃ text rest, strip line = text ++ rest ∧ HeadText text head := by
  constructor
  · intro h
    obtain ⟨r, hr, rfl⟩ := h
    obtain ⟨head, rest, hhead, rfl⟩ := read_cases hr
    obtain ⟨text, hline, htext⟩ := headText_of_readHead hhead
    exact ⟨text, rest, hline, htext⟩
  · intro h
    obtain ⟨text, rest, hline, htext⟩ := h
    have hhead := readHead_headText htext rest
    rw [← hline] at hhead
    exact ⟨_, read_of_readHead hhead, rfl⟩

/-- A head ends with the last letter of its type. -/
theorem HeadText.getLast {text : List UInt8} {head : Head} (h : HeadText text head) :
    ∃ b, text.getLast? = some b ∧ isLetter b = true := by
  cases h with
  | @mk blanks place digits gap marks pointer z offset unsigned type =>
    obtain ⟨b, hb, hletter⟩ : ∃ b, (typeText unsigned type).getLast? = some b ∧
        isLetter b = true := by
      cases unsigned <;> cases type <;> exact ⟨_, rfl, by decide⟩
    refine ⟨b, ?_, hletter⟩
    simp only [List.getLast?_append, hb, Option.some_or]

/-- No stripping removes a letter. -/
theorem HeadText.strip_append {text : List UInt8} {head : Head} (h : HeadText text head)
    (rest : List UInt8) : strip (text ++ rest) = text ++ strip rest := by
  obtain ⟨b, hb, hletter⟩ := h.getLast
  refine Line.strip_append_of_getLast hb ?_ ?_ rest <;> rintro rfl <;> cases hletter

/-- The line of a head has the rule that the rest of it tells. -/
theorem read_headText {text : List UInt8} {head : Head} (h : HeadText text head)
    (rest : List UInt8) : read (text ++ rest) = .ok (some (readTest head (strip rest))) := by
  have hhead := readHead_headText h (strip rest)
  rw [← h.strip_append rest] at hhead
  exact read_of_readHead hhead

/-- A line is blank, a comment, or a rule whose head it begins with; every other line is refused.
Whatever follows a head on a line, the line has a rule with that head. -/
theorem read_accepts_heads :
    (∀ line, read line = .ok none ↔ (∀ b ∈ strip line, isSpace b = true) ∨
      ∃ blanks rest, (∀ b ∈ blanks, isSpace b = true) ∧
        strip line = blanks ++ '#'.toUInt8 :: rest) ∧
    (∀ line head, (∃ r, read line = .ok (some r) ∧ r.head = head) ↔
      ∃ text rest, strip line = text ++ rest ∧ HeadText text head) ∧
    ∀ text head, HeadText text head →
      ∀ rest, ∃ r, read (text ++ rest) = .ok (some r) ∧ r.head = head := by
  refine ⟨fun _ => read_eq_none_iff, fun _ _ => read_rule_iff, fun text head h rest => ?_⟩
  exact read_rule_iff.mpr ⟨text, strip rest, h.strip_append rest, h⟩

/-- Any type behind the offset zero and so many marks. -/
theorem headText_marked (marks : Nat) (unsigned : Bool) (type : FieldType) :
    HeadText (List.replicate marks '>'.toUInt8 ++ (ascii "0 " ++ typeText unsigned type))
      ⟨UInt16.ofNat (min marks 65535), none, 0, unsigned, type⟩ := by
  have hzero : Unsigned (ascii "0") 8 (ofDigits 8 (ascii "0")) := .octal (List.forall_mem_nil _)
  have hleads : Leads (ascii "0") 0 ([] ++ (ascii " " ++ typeText unsigned type)) :=
    leads_of_closes (List.forall_mem_nil _) .none hzero
      (closes_symbol (b := ' '.toUInt8) (by decide) (by decide) _ _ _)
  have hplace : PlaceText (decide (0 < marks)) ([] ++ (ascii " " ++ typeText unsigned type))
      (ascii "0") none 0 := .direct hleads
  exact .mk (List.forall_mem_nil _) hplace (List.forall_mem_nil _)
    (List.forall_mem_singleton.mpr (by decide)) rfl

theorem headText_zero (unsigned : Bool) (type : FieldType) :
    HeadText (ascii "0 " ++ typeText unsigned type) ⟨0, none, 0, unsigned, type⟩ :=
  headText_marked 0 unsigned type

/-- Behind two marks a pointer, a digit left over, and a type. -/
def nestedText : List UInt8 :=
  ascii ">>(0x3c.l+4)7 ubelong"

def nestedHead : Head :=
  ⟨2, some ⟨.long, 4⟩, 60, true, .beLong⟩

theorem headText_nested : HeadText nestedText nestedHead := by
  have hhex : Unsigned (ascii "0x3c") 16 (ofDigits 16 (ascii "3c")) :=
    .hex (Or.inl rfl) (by decide) (by decide +kernel)
  have hfour : Unsigned (ascii "4") 10 (ofDigits 10 (ascii "4")) :=
    .decimal (by decide) (by decide +kernel)
  have hleads : Leads (ascii "0x3c") 60 (ascii ".l" ++ (ascii "+4" ++ [')'.toUInt8])) :=
    leads_of_closes (List.forall_mem_nil _) .none hhex
      (closes_symbol (b := '.'.toUInt8) (by decide) (by decide) _ _ _)
  have hplace : PlaceText (decide (0 < 2)) (ascii "7" ++ (ascii " " ++ typeText true .beLong))
      (ascii "(0x3c.l+4)") (some ⟨.long, 4⟩) 60 :=
    .indirect rfl hleads (.letter .long) (.number .plus hfour)
  exact .mk (List.forall_mem_nil _) hplace (by decide +kernel) (by decide +kernel)
    (by decide +kernel)

theorem read_accepts_heads_nested :
    HeadText nestedText nestedHead ∧
      ∃ r, read (nestedText ++ ascii "&&x #\x07") = .ok (some r) ∧ r.head = nestedHead :=
  ⟨headText_nested, read_accepts_heads.2.2 _ _ headText_nested _⟩

end Lines

end Line

end ContentType
