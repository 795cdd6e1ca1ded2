import ContentType.Proofs.Rule.Description
import ContentType.Proofs.Rule.Head
import ContentType.Proofs.Rule.Printer

namespace ContentType
open Byte Numeral

namespace Line

section Heads

/-- What stands behind the sign is not negative, so the least number is never read. -/
theorem AdjustText.ne_minValue {text : List UInt8} {a : Int64} (h : AdjustText text a) :
    a ≠ Int64.minValue := by
  have hmin : Int64.minValue.toInt = -2 ^ 63 := by decide
  intro he
  have hvalue : a.toInt = -2 ^ 63 := by rw [he, hmin]
  cases h with
  | sign => exact absurd he (by decide)
  | @number _ _ negative _ n =>
    have hclamp := toInt_clamp n
    cases negative with
    | false =>
      rw [if_neg Bool.false_ne_true] at hvalue
      omega
    | true =>
      rw [if_pos rfl, toInt_neg_of_lt (by omega)] at hvalue
      omega

theorem HeadText.adjust_ne_minValue {text : List UInt8} {head : Head} (h : HeadText text head)
    {p : Pointer} (hp : head.pointer = some p) : p.adjust ≠ Int64.minValue := by
  cases h with
  | mk _ placed =>
    cases placed with
    | direct => cases hp
    | indirect _ _ _ ha =>
      cases hp
      exact ha.ne_minValue

theorem adjustText_signedDecimal {a : Int64} (ha : a ≠ Int64.minValue) :
    AdjustText ((signedDecimal a.toInt).map Char.toUInt8) a := by
  have hmin : Int64.minValue.toInt = -2 ^ 63 := by decide
  have hlow : -2 ^ 63 < a.toInt := by
    have hne : a.toInt ≠ -2 ^ 63 := fun h => ha (Int64.toInt_inj.mp (by rw [h, hmin]))
    have hle := a.le_toInt
    omega
  cases hz : a.toInt with
  | ofNat n =>
    obtain ⟨r, hu⟩ := unsigned_toDigits n
    have hvalue : clamp n = a := by
      rw [← clamp_toInt a, hz]
      rfl
    have htext := AdjustText.number .plus hu
    rw [if_neg Bool.false_ne_true, hvalue] at htext
    exact htext
  | negSucc n =>
    obtain ⟨r, hu⟩ := unsigned_toDigits (n + 1)
    have hneg : ((n + 1 : Nat) : Int) = -a.toInt := by omega
    have hvalue : -clamp ((n + 1 : Nat) : Int) = a := by
      have hlt := a.toInt_lt
      have hclamp : (clamp (-a.toInt)).toInt = -a.toInt := clamp_of_range (by omega) (by omega)
      apply Int64.toInt_inj.mp
      rw [hneg, toInt_neg_of_lt (by omega), hclamp, Int.neg_neg]
    have htext := AdjustText.number .minus hu
    rw [if_pos rfl, hvalue] at htext
    exact htext

variable {r : Rule}

theorem placeText_place (hlevel : r.pointer ≠ none → 1 ≤ r.level)
    (hadjust : ∀ p, r.pointer = some p → p.adjust ≠ Int64.minValue) (rest : List UInt8) :
    PlaceText (decide (0 < r.level.toNat)) (0x20 :: rest) (r.place.map Char.toUInt8) r.pointer
      r.offset.toInt := by
  cases hp : r.pointer with
  | none =>
    simp only [Rule.place, hp]
    exact .direct (leads_decimal (by decide) (by decide) _ rest)
  | some p =>
    have hmarked : 0 < r.level.toNat := by
      have hone : (1 : UInt16).toNat ≤ r.level.toNat :=
        UInt16.le_iff_toNat_le.mp (hlevel (by rw [hp]; exact Option.some_ne_none p))
      exact Nat.lt_of_lt_of_le Nat.zero_lt_one hone
    simp only [Rule.place, hp, List.cons_append, List.append_assoc, List.map_cons, List.map_append,
      List.map_nil]
    exact .indirect (decide_eq_true hmarked) (leads_decimal (by decide) (by decide) _ _)
      (.letter p.width) (adjustText_signedDecimal (hadjust p hp))

theorem headText_headChars (hr : r.WellFormed)
    (hadjust : ∀ p, r.pointer = some p → p.adjust ≠ Int64.minValue) :
    HeadText (r.headChars.map Char.toUInt8) r.head := by
  have hblank : ∀ b ∈ [(0x20 : UInt8)], isSpace b = true :=
    List.forall_mem_singleton.mpr (by decide)
  have hoffset : r.offset.toInt = (clamp r.offset.toInt).toInt.bmod (2 ^ 32) := by
    obtain ⟨hlow, hhigh⟩ := hr.place
    rw [clamp_toInt, Int.bmod_eq_of_le (by omega) (by omega)]
  have hlevel : UInt16.ofNat (min r.level.toNat 65535) = r.level := by
    have hlt := r.level.toNat_lt
    rw [Nat.min_eq_left (by omega), UInt16.ofNat_toNat]
  have htype : typeText r.unsigned r.type =
      ((if r.unsigned then ['u'] else []) ++ r.type.keyword.toList).map Char.toUInt8 := by
    cases r.unsigned <;> rfl
  have htext := HeadText.mk (List.forall_mem_nil _)
    (placeText_place hr.continues hadjust (typeText r.unsigned r.type)) (List.forall_mem_nil _)
    hblank hoffset
  have hspace : ' '.toUInt8 = 0x20 := rfl
  rw [hlevel, htype, ← List.map_replicate] at htext
  simpa only [Rule.head, Rule.headChars, List.map_append, List.append_assoc, List.nil_append,
    List.map_cons, List.cons_append, hspace] using htext

end Heads

section Tests

variable {type : FieldType} {relation : Relation} {rest : List UInt8}

theorem readConstant_hexNumber {n : UInt64} {unsigned : Bool} (hlt : n.toNat < 2 ^ 63)
    (hextended : signExtend type unsigned n = n)
    (hc : Closes ((hexNumber n).map Char.toUInt8) 16 rest) :
    readConstant type unsigned ((hexNumber n).map Char.toUInt8 ++ rest) = (n, rest) := by
  rw [readConstant, read_hexNumber hlt hc]
  dsimp only
  rw [UInt64.toUInt64_toInt64, hextended]

theorem readMask_maskChars {r : Rule} (h : r.mask = -1 ∨
      r.mask.toNat < 2 ^ 63 ∧ signExtend r.type r.unsigned r.mask = r.mask) (rest : List UInt8) :
    readMask r.type r.unsigned (r.maskChars.map Char.toUInt8 ++ 0x20 :: rest) =
      (r.mask, 0x20 :: rest) := by
  have hblank : (0x20 : UInt8) ≠ '&'.toUInt8 := by decide
  by_cases hall : r.mask = -1
  · rw [Rule.maskChars, if_pos hall, List.map_nil, List.nil_append, readMask, if_neg hblank, hall]
  · obtain ⟨hlt, hextended⟩ := h.resolve_left hall
    rw [Rule.maskChars, if_neg hall, List.map_cons, List.cons_append, readMask, if_pos rfl]
    exact readConstant_hexNumber hlt hextended
      (closes_symbol (by decide) (by decide) _ 16 rest)

theorem ofByte_symbol (relation : Relation) :
    Relation.ofByte? relation.symbol.toUInt8 = some relation := by
  cases relation <;> rfl

theorem readRelation_symbol (hstring : type = .string → relation ≠ .notEqual)
    (hany : relation = .any → Stops (fun b => !isSpace b) rest) :
    readRelation type (relation.symbol.toUInt8 :: rest) = (relation, rest) := by
  rw [readRelation, ofByte_symbol]
  cases relation with
  | notEqual => exact if_neg fun ht => hstring ht rfl
  | any =>
    have hblank : rest.head?.all isSpace = true := by
      cases rest with
      | nil => rfl
      | cons b rest => simpa using stops_cons.mp (hany rfl)
    exact if_pos hblank
  | _ => rfl

theorem readExpected_chars {r : Rule} (hr : r.WellFormed) (hlegible : r.expected.Legible)
    (hrest : Stops (fun b => !isSpace b) rest) (hc : ∀ digits, Closes digits 16 rest)
    (hend : r.expected = .bytes [] → rest = []) :
    readExpected r.type r.unsigned r.relation (r.expected.chars.map Char.toUInt8 ++ rest) =
      (r.expected, rest) := by
  by_cases hany : r.relation = .any
  · rw [hr.wildcard.mpr hany]
    exact if_pos hany
  · by_cases ht : r.type = .string
    · obtain ⟨bytes, he, hlength⟩ := hr.literal hany ht
      have hprintable := hlegible.literal bytes he
      have hread : Literal.read Literal.maxLength
          ((bytes.flatMap escapedByte).map Char.toUInt8 ++ rest) = (bytes, rest) :=
        read_literal hprintable hlength hrest
      have hskip : skipSpace ((bytes.flatMap escapedByte).map Char.toUInt8 ++ rest) =
          (bytes.flatMap escapedByte).map Char.toUInt8 ++ rest := by
        cases bytes with
        | nil => rw [hend he]; rfl
        | cons b bytes =>
          refine skipSpace_graphic ?_ (isGraphic_literal hprintable) rest
          rw [List.flatMap_cons]
          exact List.append_ne_nil_of_left_ne_nil (escapedByte_ne_nil b) _
      rw [he, ht, Expected.chars, readExpected, if_neg hany]
      dsimp only
      rw [hskip, hread]
    · obtain ⟨n, he, hextended⟩ := hr.constant hany ht
      have hskip : skipSpace ((hexNumber n).map Char.toUInt8 ++ rest) =
          (hexNumber n).map Char.toUInt8 ++ rest :=
        skipSpace_graphic (List.cons_ne_nil _ _) (fun _ h => isGraphic_hexNumber h) rest
      rw [he, Expected.chars, readExpected_of_ne_string _ _ hany ht, hskip,
        readConstant_hexNumber (hlegible.number n he) hextended (hc _)]

end Tests

section Readings

theorem readMask_extended (type : FieldType) (unsigned : Bool) (s : List UInt8) :
    (readMask type unsigned s).1 = -1 ∨
      signExtend type unsigned (readMask type unsigned s).1 = (readMask type unsigned s).1 := by
  unfold readMask
  split
  · exact Or.inl rfl
  · split
    · exact Or.inr (readConstant_extended type unsigned _)
    · exact Or.inl rfl

theorem readNoSpace_eq_of_false {s : List UInt8} (h : (readNoSpace s).1 = false) :
    readNoSpace s = (false, s) := by
  unfold readNoSpace at h ⊢
  split at h
  · rfl
  · split at h
    · cases h
    · rename_i hb
      split at h
      · cases h
      · rename_i hescape
        rw [if_neg hb, if_neg hescape]

/-- Only at the end of a line is an empty literal read. -/
theorem rest_of_empty_literal {room : Nat} {s : List UInt8} (hs : Stops isSpace s)
    (h : (Literal.read (room + 1) s).1 = []) : (Literal.read (room + 1) s).2 = [] := by
  cases s with
  | nil => rfl
  | cons c s =>
    have hc := stops_cons.mp hs
    rw [Literal.read, if_neg (by rw [hc]; exact Bool.false_ne_true)] at h ⊢
    split at h
    · rename_i hslash
      rw [if_pos hslash]
      split at h
      · rfl
      · cases h
    · cases h

theorem rest_of_empty_bytes {type : FieldType} {unsigned : Bool} {relation : Relation}
    {s : List UInt8} (h : (readExpected type unsigned relation s).1 = .bytes []) :
    (readExpected type unsigned relation s).2 = [] := by
  by_cases hany : relation = .any
  · rw [(readExpected_none_iff unsigned s).mpr hany] at h
    cases h
  · by_cases ht : type = .string
    · subst ht
      unfold readExpected at h ⊢
      rw [if_neg hany] at h ⊢
      exact rest_of_empty_literal (stops_dropWhile _ _) (Expected.bytes.inj h)
    · obtain ⟨n, he, _⟩ := readExpected_number unsigned s hany ht
      rw [he] at h
      cases h

/-- The parts of a test that are read one behind the other. -/
theorem readTest_parts (head : Head) (s : List UInt8) :
    ∃ relation rest,
      (readTest head s).expected = (readExpected head.type head.unsigned relation rest).1 ∧
      (readTest head s).noSpace =
        (readNoSpace (skipSpace (readExpected head.type head.unsigned relation rest).2)).1 ∧
      (readTest head s).description =
        description
          (readNoSpace (skipSpace (readExpected head.type head.unsigned relation rest).2)).2 :=
  ⟨_, _, rfl, rfl, rfl⟩

/-- What the description of a rule is read from. -/
theorem description_readTest {head : Head} {s : List UInt8}
    (h : (readTest head s).noSpace = false) :
    ∃ t, (readTest head s).description = description t ∧ Stops isSpace t ∧
      readNoSpace t = (false, t) ∧ ((readTest head s).expected = .bytes [] → t = []) := by
  obtain ⟨relation, rest, hexpected, hnoSpace, hdescription⟩ := readTest_parts head s
  rw [hnoSpace] at h
  have hno := readNoSpace_eq_of_false h
  rw [hno] at hdescription
  refine ⟨_, hdescription, stops_dropWhile _ _, hno, fun he => ?_⟩
  rw [hexpected] at he
  rw [rest_of_empty_bytes he]
  rfl

end Readings

section Restoring

/-- What a rule needs in order to be read again from its own text. -/
structure Restorable (r : Rule) : Prop where
  head : HeadText (r.headChars.map Char.toUInt8) r.head
  wellFormed : r.WellFormed
  mask : r.mask = -1 ∨ r.mask.toNat < 2 ^ 63 ∧ signExtend r.type r.unsigned r.mask = r.mask
  expected : r.expected.Legible
  description : IsDescription r.description
  /-- Behind an empty literal a description would be taken for the literal. -/
  silent : r.expected = .bytes [] → r.description = ""
  spaced : r.noSpace = false
  unplaced : r.line = 0

variable {r : Rule}

/-- What stands behind the test does not go on with it. -/
theorem stops_described (r : Rule) : Stops (fun b => !isSpace b) r.described := by
  unfold Rule.described
  split
  · exact stops_nil _
  · exact stops_cons.mpr (by decide)

theorem closes_described (r : Rule) (digits : List UInt8) : Closes digits 16 r.described := by
  unfold Rule.described
  split
  · exact .nil digits 16
  · exact closes_symbol (by decide) (by decide) digits 16 _

namespace Restorable

/-- The blank in front of a description is passed over, and nothing else is. -/
theorem readNoSpace (h : Restorable r) :
    readNoSpace (skipSpace r.described) = (false, Utf8.encode r.description) := by
  unfold Rule.described
  split
  · rename_i hd
    rw [hd]
    rfl
  · exact h.description.readNoSpace

theorem readTest (h : Restorable r) :
    readTest r.head (r.testChars.map Char.toUInt8 ++ r.described) = r := by
  have htest : r.testChars.map Char.toUInt8 ++ r.described =
      r.maskChars.map Char.toUInt8 ++ 0x20 :: r.relation.symbol.toUInt8 ::
        (r.expected.chars.map Char.toUInt8 ++ r.described) := by
    simp only [Rule.testChars, List.map_append, List.map_cons, List.append_assoc,
      List.cons_append]
    rfl
  have hskip : ∀ s, skipSpace (0x20 :: r.relation.symbol.toUInt8 :: s) =
      r.relation.symbol.toUInt8 :: s := fun s =>
    dropWhile_of_stops (stops_cons.mpr (isGraphic_symbol r.relation).isSpace)
  have hrelation : readRelation r.type (r.relation.symbol.toUInt8 ::
      (r.expected.chars.map Char.toUInt8 ++ r.described)) =
        (r.relation, r.expected.chars.map Char.toUInt8 ++ r.described) := by
    refine readRelation_symbol h.wellFormed.symbol fun hany => ?_
    rw [h.wellFormed.wildcard.mpr hany]
    exact stops_described r
  have hexpected := readExpected_chars h.wellFormed h.expected (stops_described r)
    (closes_described r) (fun he => by rw [Rule.described, if_pos (h.silent he)])
  rw [htest]
  simp only [Line.readTest, Rule.head, readMask_maskChars h.mask, hskip, hrelation, hexpected,
    h.readNoSpace, h.description.kept]
  rw [← h.spaced, ← h.unplaced]

/-- A printed rule ends with no blank, so nothing is stripped from it. -/
theorem strip (h : Restorable r) : strip (Utf8.encode r.text) = Utf8.encode r.text := by
  rw [Rule.encode_text h.expected]
  by_cases hd : r.description = ""
  · have hmem := List.getLast_mem (List.cons_ne_nil r.relation.symbol r.expected.chars)
    have hgraphic := List.forall_mem_cons.mpr ⟨isGraphic_symbol r.relation, h.expected.isGraphic⟩
    have hspace := (hgraphic _ hmem).isSpace
    have hends : ∀ b, isSpace b = false → b ≠ 0x0a ∧ b ≠ 0x0d := by
      intro b hb
      constructor <;> rintro rfl <;> cases hb
    refine strip_of_getLast ?_ (hends _ hspace).1 (hends _ hspace).2
    rw [Rule.described, if_pos hd, List.append_nil, List.getLast?_append, Rule.testChars,
      ← List.singleton_append, ← List.append_assoc, List.map_append, List.getLast?_append,
      List.getLast?_map, List.getLast?_eq_some_getLast (List.cons_ne_nil _ _), Option.map_some,
      Option.some_or, Option.some_or]
  · rw [Rule.described, if_neg hd, ← List.append_assoc]
    exact h.description.strip _

theorem read (h : Restorable r) : read (Utf8.encode r.text) = .ok (some r) := by
  have hhead := readHead_headText h.head (r.testChars.map Char.toUInt8 ++ r.described)
  rw [← Rule.encode_text h.expected, ← h.strip] at hhead
  rw [read_of_readHead hhead, h.readTest]

end Restorable

theorem restorable_of_read {line : List UInt8} (h : read line = .ok (some r))
    (hspaced : r.noSpace = false) (hmask : r.mask = -1 ∨ r.mask.toNat < 2 ^ 63)
    (hlegible : r.expected.Legible) (hsize : r.description.utf8ByteSize ≤ maxDescription)
    (hmark : '#' ∉ r.description.toList) : Restorable r := by
  have hr := read_wellFormed h
  obtain ⟨text, _, _, htext⟩ := read_rule_iff.mp ⟨r, h, rfl⟩
  obtain ⟨head, rest, _, hrule⟩ := read_cases h
  obtain ⟨t, hd, hstart, ht, hempty⟩ := description_readTest (hrule ▸ hspaced)
  rw [← hrule] at hd hempty
  have hextended : r.mask = -1 ∨ signExtend r.type r.unsigned r.mask = r.mask := by
    rw [hrule]
    exact readMask_extended head.type head.unsigned rest
  exact {
    head := headText_headChars hr fun _ => htext.adjust_ne_minValue
    wellFormed := hr
    mask := hextended.elim Or.inl fun he => hmask.imp_right fun hlt => ⟨hlt, he⟩
    expected := hlegible
    description := by
      rw [hd] at hsize hmark ⊢
      exact isDescription_description hstart ht hsize hmark
    silent := fun he => by
      rw [hd, hempty he]
      exact Utf8.decodeLossy_nil
    spaced := hspaced
    unplaced := by
      rw [hrule]
      rfl }

/-- A rule that a line gives is read again from its own text. The conditions are where printing
loses something: the space in front of a description, numbers past the signed range, what is cut
off from a description or escaped in it, and literals that end too early or go on too far. -/
theorem read_text {line : List UInt8} (h : read line = .ok (some r)) (hspaced : r.noSpace = false)
    (hmask : r.mask = -1 ∨ r.mask.toNat < 2 ^ 63) (hlegible : r.expected.Legible)
    (hsize : r.description.utf8ByteSize ≤ maxDescription) (hmark : '#' ∉ r.description.toList) :
    read (Utf8.encode r.text) = .ok (some r) :=
  (restorable_of_read h hspaced hmask hlegible hsize hmark).read

def archiveLine : List UInt8 :=
  ascii ">>(0x3c.s-2) string >PK\\003\\x4g\\\\  application/" ++ [0xc3, 0xa9]

def archiveRule : Rule where
  level := 2
  pointer := some ⟨.short, -2⟩
  offset := 60
  type := .string
  mask := -1
  relation := .greater
  expected := .bytes [0x50, 0x4b, 3, 4, 0x67, 0x5c]
  unsigned := false
  description := "application/é"
  noSpace := false
  line := 0

theorem read_text_archive :
    read archiveLine = .ok (some archiveRule) ∧ archiveRule.expected.Legible ∧
      read (Utf8.encode ">>(60.s-2) string >PK\\x03\\x04g\\\\ application/é") =
        .ok (some archiveRule) := by
  have hread : read archiveLine = .ok (some archiveRule) := by decide +kernel
  have hlegible : archiveRule.expected.Legible := by
    refine ⟨fun n h => (nomatch h), fun bytes h => ?_⟩
    obtain rfl := Expected.bytes.inj h
    exact ⟨by decide, by decide +kernel⟩
  have htext : archiveRule.text = ">>(60.s-2) string >PK\\x03\\x04g\\\\ application/é" := by
    decide +kernel
  rw [← htext]
  exact ⟨hread, hlegible,
    read_text hread rfl (Or.inl rfl) hlegible (by decide +kernel) (by decide +kernel)⟩

end Restoring

end Line

end ContentType
