import ContentType.Proofs.Rule.Constant
import ContentType.Proofs.Rule.Head

namespace ContentType

/-- All low bits of a number are set in another one when masking by the other keeps them. -/
theorem land_mod_eq_iff {w v n : Nat} :
    (v &&& n) % 2 ^ w = n % 2 ^ w ↔ ∀ i, (n % 2 ^ w).testBit i = true → v.testBit i = true := by
  constructor
  · intro h i hi
    rw [← h, Nat.testBit_mod_two_pow, Nat.testBit_and, Bool.and_eq_true, Bool.and_eq_true] at hi
    exact hi.2.1
  · intro h
    apply Nat.eq_of_testBit_eq
    intro i
    have hi := h i
    rw [Nat.testBit_mod_two_pow] at hi ⊢
    rw [Nat.testBit_mod_two_pow, Nat.testBit_and]
    cases hn : decide (i < w) && n.testBit i with
    | true =>
      rw [hi hn, Bool.true_and, hn]
    | false =>
      rw [Bool.and_left_comm, hn, Bool.and_false]

namespace Relation

section Words

variable {type : FieldType} {unsigned : Bool} {v n : UInt64}

theorem equal_holds (ht : type ≠ .string) :
    equal.holds unsigned (signExtend type unsigned v) (signExtend type unsigned n) = true ↔
      v.toNat % 2 ^ (8 * type.width) = n.toNat % 2 ^ (8 * type.width) := by
  rw [← signExtend_eq_iff unsigned ht]
  exact beq_iff_eq

theorem allSet_holds (ht : type ≠ .string) :
    allSet.holds unsigned (signExtend type unsigned v) (signExtend type unsigned n) = true ↔
      ∀ i, (n.toNat % 2 ^ (8 * type.width)).testBit i = true → v.toNat.testBit i = true := by
  rw [← land_mod_eq_iff, ← UInt64.toNat_and, ← signExtend_eq_iff unsigned ht, signExtend_and]
  exact beq_iff_eq

theorem notEqual_holds :
    notEqual.holds unsigned v n = true ↔ ¬ equal.holds unsigned v n = true :=
  bne_iff_ne.trans (not_congr beq_iff_eq.symm)

theorem notAllSet_holds :
    notAllSet.holds unsigned v n = true ↔ ¬ allSet.holds unsigned v n = true :=
  bne_iff_ne.trans (not_congr beq_iff_eq.symm)

theorem greater_holds :
    greater.holds unsigned v n = true ↔ wordInt unsigned n < wordInt unsigned v := by
  cases unsigned with
  | true => simp [holds, wordInt, UInt64.lt_iff_toNat_lt]
  | false => simp [holds, wordInt, Int64.lt_iff_toInt_lt]

theorem less_holds :
    less.holds unsigned v n = true ↔ wordInt unsigned v < wordInt unsigned n := by
  cases unsigned with
  | true => simp [holds, wordInt, UInt64.lt_iff_toNat_lt]
  | false => simp [holds, wordInt, Int64.lt_iff_toInt_lt]

end Words

end Relation

namespace Constants

/-- The masked field and the value are equal in the low bits, as many as the type has. -/
def Agrees (c : Constants) (type : FieldType) (field : UInt64) : Prop :=
  (c.kept field).toNat ≡ c.value.toInt [ZMOD 2 ^ (8 * type.width)]

/-- Every low bit of the value is set in the masked field. -/
def Covered (c : Constants) (type : FieldType) (field : UInt64) : Prop :=
  ∀ i, (c.value.toInt % 2 ^ (8 * type.width)).toNat.testBit i = true →
    (c.kept field).toNat.testBit i = true

theorem agrees_iff {c : Constants} {type : FieldType} {field : UInt64} :
    c.Agrees type field ↔
      (c.kept field).toNat % 2 ^ (8 * type.width) =
        c.value.toUInt64.toNat % 2 ^ (8 * type.width) := by
  unfold Agrees
  have hvalue := toNat_toUInt64_modEq type c.value
  constructor
  · intro h
    have := h.trans hvalue.symm
    exact_mod_cast this
  · intro h
    refine Int.ModEq.trans ?_ hvalue
    exact_mod_cast h

theorem covered_iff {c : Constants} {type : FieldType} {field : UInt64} :
    c.Covered type field ↔
      ∀ i, (c.value.toUInt64.toNat % 2 ^ (8 * type.width)).testBit i = true →
        (c.kept field).toNat.testBit i = true := by
  have hvalue : (c.value.toInt % 2 ^ (8 * type.width)).toNat =
      c.value.toUInt64.toNat % 2 ^ (8 * type.width) := by
    rw [← toNat_toUInt64_modEq type c.value]
    norm_cast
  rw [Covered, hvalue]

end Constants

namespace Rule

/-- The mask and the value of a rule on numbers are these constants, fitted to its width. -/
structure WrittenWith (r : Rule) (c : Constants) : Prop where
  number : r.type ≠ .string
  mask : r.mask = c.fittedMask r.type r.unsigned
  value : r.relation ≠ .any → r.expected = .number (c.fittedValue r.type r.unsigned)

variable {r s : Rule} {c : Constants} {buffer : List UInt8} {field : UInt64}

theorem evaluate_of_none (h : r.field? buffer = none) : r.evaluate buffer = false := by
  simp only [evaluate, h]

theorem needed_of_number (ht : r.type ≠ .string) : r.needed = r.type.width := by
  unfold needed
  split
  · exact absurd ‹_› ht
  · rfl

/-- The field of a rule on numbers does not depend on its sign, nor on its test. -/
theorem field_congr (ht : r.type ≠ .string) (htype : s.type = r.type)
    (hpointer : s.pointer = r.pointer) (hoffset : s.offset = r.offset) (buffer : List UInt8) :
    s.field? buffer = r.field? buffer := by
  have hs : s.type ≠ .string := htype ▸ ht
  have hplace : s.locate? buffer = r.locate? buffer := by
    simp only [locate?, hpointer, hoffset, htype, needed_of_number hs, needed_of_number ht]
  have hfield : s.fieldIn = r.fieldIn := by
    funext window
    rw [fieldIn_number hs, fieldIn_number ht, htype]
  simp only [field?, hplace, hfield]

namespace WrittenWith

theorem evaluate (h : r.WrittenWith c) {relation : Relation} (hr : r.relation = relation)
    (hany : relation ≠ .any) (hf : r.field? buffer = some (.number field)) :
    r.evaluate buffer = relation.holds r.unsigned (signExtend r.type r.unsigned (c.kept field))
      (signExtend r.type r.unsigned c.value.toUInt64) := by
  subst hr
  simp only [Rule.evaluate, hf, matchesField, compare?, if_neg hany, h.value hany, h.mask,
    c.and_fittedMask, Option.getD_some]
  rfl

theorem evaluate_bits (h : r.WrittenWith c) (hf : r.field? buffer = some (.number field)) :
    (r.relation = .equal → (r.evaluate buffer = true ↔ c.Agrees r.type field)) ∧
    (r.relation = .notEqual → (r.evaluate buffer = true ↔ ¬ c.Agrees r.type field)) ∧
    (r.relation = .allSet → (r.evaluate buffer = true ↔ c.Covered r.type field)) ∧
    (r.relation = .notAllSet → (r.evaluate buffer = true ↔ ¬ c.Covered r.type field)) := by
  refine ⟨fun hr => ?_, fun hr => ?_, fun hr => ?_, fun hr => ?_⟩
  all_goals rw [h.evaluate hr nofun hf]
  · rw [Relation.equal_holds h.number, Constants.agrees_iff]
  · rw [Relation.notEqual_holds, Relation.equal_holds h.number, Constants.agrees_iff]
  · rw [Relation.allSet_holds h.number, Constants.covered_iff]
  · rw [Relation.notAllSet_holds, Relation.allSet_holds h.number, Constants.covered_iff]

/-- Without a mask the order is that of the numbers in the range of the width. -/
theorem evaluate_order (h : r.WrittenWith c) (hmask : c.mask = none)
    (hf : r.field? buffer = some (.number field)) :
    (r.relation = .greater → (r.evaluate buffer = true ↔
      r.type.wrap r.unsigned c.value.toInt < r.type.wrap r.unsigned field.toNat)) ∧
    (r.relation = .less → (r.evaluate buffer = true ↔
      r.type.wrap r.unsigned field.toNat < r.type.wrap r.unsigned c.value.toInt)) ∧
    (r.relation = .equal → (r.evaluate buffer = true ↔
      r.type.wrap r.unsigned field.toNat = r.type.wrap r.unsigned c.value.toInt)) := by
  have hkept : c.kept field = field := by rw [Constants.kept, hmask]
  have hvalue := FieldType.wrap_congr r.unsigned (toNat_toUInt64_modEq r.type c.value)
  rw [← hvalue, ← wordInt_signExtend h.number, ← wordInt_signExtend h.number]
  refine ⟨fun hr => ?_, fun hr => ?_, fun hr => ?_⟩
  all_goals rw [h.evaluate hr nofun hf, hkept]
  · exact Relation.greater_holds
  · exact Relation.less_holds
  · rw [wordInt_inj]
    exact beq_iff_eq

/-- Relations that ask for bits hold alike for both signs. -/
theorem evaluate_sign (hr : r.WrittenWith c) (hs : s.WrittenWith c) (htype : s.type = r.type)
    (hrelation : s.relation = r.relation) (hfield : s.field? buffer = r.field? buffer)
    (hbits : r.relation ∈ [.equal, .notEqual, .allSet, .notAllSet]) :
    s.evaluate buffer = r.evaluate buffer := by
  cases hf : r.field? buffer with
  | none => rw [evaluate_of_none hf, evaluate_of_none (hfield.trans hf)]
  | some found =>
    rcases field_kind hf with ⟨ht, _⟩ | ⟨_, field, rfl⟩
    · exact absurd ht hr.number
    · obtain ⟨requal, rdiffers, rset, rclear⟩ := hr.evaluate_bits hf
      obtain ⟨sequal, sdiffers, sset, sclear⟩ := hs.evaluate_bits (hfield.trans hf)
      rw [hrelation, htype] at sequal sdiffers sset sclear
      simp only [List.mem_cons, List.not_mem_nil, or_false] at hbits
      rw [Bool.eq_iff_iff]
      rcases hbits with h | h | h | h
      · exact (sequal h).trans (requal h).symm
      · exact (sdiffers h).trans (rdiffers h).symm
      · exact (sset h).trans (rset h).symm
      · exact (sclear h).trans (rclear h).symm

/-- Of the three relations that order a field and a value, one holds. -/
theorem existsUnique_order (h : r.WrittenWith c) (hany : r.relation ≠ .any)
    (hmask : c.mask = none) (hf : r.field? buffer = some (.number field)) :
    ∃! relation, relation ∈ [Relation.greater, .less, .equal] ∧
      ({ r with relation } : Rule).evaluate buffer = true := by
  have hwritten : ∀ relation, ({ r with relation } : Rule).WrittenWith c :=
    fun _ => ⟨h.number, h.mask, fun _ => h.value hany⟩
  have hfield : ∀ relation, ({ r with relation } : Rule).field? buffer = some (.number field) :=
    fun _ => (field_congr h.number rfl rfl rfl buffer).trans hf
  have hgreater := ((hwritten .greater).evaluate_order hmask (hfield _)).1 rfl
  have hless := ((hwritten .less).evaluate_order hmask (hfield _)).2.1 rfl
  have hequal := ((hwritten .equal).evaluate_order hmask (hfield _)).2.2 rfl
  simp only [List.mem_cons, List.not_mem_nil, or_false]
  rcases lt_trichotomy (r.type.wrap r.unsigned field.toNat) (r.type.wrap r.unsigned c.value.toInt)
    with hlt | heq | hgt
  · refine ⟨.less, ⟨Or.inr (Or.inl rfl), hless.mpr hlt⟩, fun relation hrelation => ?_⟩
    rcases hrelation with ⟨rfl | rfl | rfl, hholds⟩
    · exact absurd (hgreater.mp hholds) hlt.asymm
    · rfl
    · exact absurd (hequal.mp hholds) hlt.ne
  · refine ⟨.equal, ⟨Or.inr (Or.inr rfl), hequal.mpr heq⟩, fun relation hrelation => ?_⟩
    rcases hrelation with ⟨rfl | rfl | rfl, hholds⟩
    · exact absurd heq.symm (hgreater.mp hholds).ne
    · exact absurd heq (hless.mp hholds).ne
    · rfl
  · refine ⟨.greater, ⟨Or.inl rfl, hgreater.mpr hgt⟩, fun relation hrelation => ?_⟩
    rcases hrelation with ⟨rfl | rfl | rfl, hholds⟩
    · rfl
    · exact absurd (hless.mp hholds) hgt.asymm
    · exact absurd (hequal.mp hholds) hgt.ne'

end WrittenWith

end Rule

namespace Line
open Byte Numeral

theorem writtenWith_readTest (head : Head) (ht : head.type ≠ .string) (test : List UInt8) :
    (readTest head test).WrittenWith (Constants.ofTest head.type test) := by
  obtain ⟨noSpace, description, hread⟩ := readTest_constants ht test
  rw [hread head rfl]
  exact ⟨ht, rfl, fun hany => if_neg hany⟩

/-- Adding a `u` to a type on a line changes the rule, but not what it says of any buffer when its
relation asks for bits. These hold by the bits that the mask keeps of the field, as many as the type
has, and by those of the value as it is written. -/
theorem read_either_sign {head : Head} (ht : head.type ≠ .string) {plain marked : List UInt8}
    (hplain : HeadText plain { head with unsigned := false })
    (hmarked : HeadText marked { head with unsigned := true }) (test : List UInt8) :
    ∃ r s, read (plain ++ test) = .ok (some r) ∧ read (marked ++ test) = .ok (some s) ∧
      r.head = { head with unsigned := false } ∧
      s = { r with unsigned := true, mask := s.mask, expected := s.expected } ∧
      (r.relation ∈ [.equal, .notEqual, .allSet, .notAllSet] → ∀ buffer,
        s.field? buffer = r.field? buffer ∧ s.evaluate buffer = r.evaluate buffer ∧
        (r.field? buffer = none → r.evaluate buffer = false) ∧
        ∀ field, r.field? buffer = some (.number field) →
          let c := Constants.ofTest head.type (strip test)
          (r.relation = .equal → (r.evaluate buffer = true ↔ c.Agrees head.type field)) ∧
          (r.relation = .notEqual → (r.evaluate buffer = true ↔ ¬ c.Agrees head.type field)) ∧
          (r.relation = .allSet → (r.evaluate buffer = true ↔ c.Covered head.type field)) ∧
          (r.relation = .notAllSet →
            (r.evaluate buffer = true ↔ ¬ c.Covered head.type field))) := by
  obtain ⟨noSpace, description, htest⟩ := readTest_constants ht (strip test)
  have hplainTest := htest { head with unsigned := false } rfl
  have hmarkedTest := htest { head with unsigned := true } rfl
  have hr := writtenWith_readTest { head with unsigned := false } ht (strip test)
  have hs := writtenWith_readTest { head with unsigned := true } ht (strip test)
  refine ⟨_, _, read_headText hplain test, read_headText hmarked test, rfl, ?_, ?_⟩
  · rw [hmarkedTest, hplainTest]
  · intro hbits buffer
    have hfield := Rule.field_congr (s := readTest { head with unsigned := true } (strip test))
      hr.number rfl rfl rfl buffer
    have hrelation : (readTest { head with unsigned := true } (strip test)).relation =
        (readTest { head with unsigned := false } (strip test)).relation := by
      rw [hmarkedTest, hplainTest]
    exact ⟨hfield, hr.evaluate_sign hs rfl hrelation hfield hbits, Rule.evaluate_of_none,
      fun field hf => hr.evaluate_bits hf⟩

/-- Any type behind the pointer at one. -/
theorem headText_pointer (unsigned : Bool) (type : FieldType) :
    HeadText (ascii ">(1.b) " ++ typeText unsigned type)
      ⟨1, some ⟨.byte, 0⟩, 1, unsigned, type⟩ := by
  have hone : Unsigned (ascii "1") 10 (ofDigits 10 (ascii "1")) :=
    .decimal (by decide) (by decide +kernel)
  have hleads : Leads (ascii "1") 1 (ascii ".b" ++ ([] ++ [')'.toUInt8])) :=
    leads_of_closes (List.forall_mem_nil _) .none hone
      (closes_symbol (b := '.'.toUInt8) (by decide) (by decide) _ _ _)
  have hplace : PlaceText (decide (0 < 1)) ([] ++ (ascii " " ++ typeText unsigned type))
      (ascii "(1.b)") (some ⟨.byte, 0⟩) 1 :=
    .indirect rfl hleads (.letter .byte) (.sign .none)
  exact .mk (List.forall_mem_nil _) hplace (List.forall_mem_nil _) (by decide +kernel)
    (by decide +kernel)

def maskedTest : List UInt8 :=
  ascii "&0xff80 =130944"

def maskedRule (unsigned : Bool) (mask expected : UInt64) : Rule :=
  ⟨1, some ⟨.byte, 0⟩, 1, .beShort, mask, .equal, .number expected, unsigned, "", false, 0⟩

/-- A pointer at one leads to 0xff90, of which the mask keeps 0xff80. This is the value modulo 2^16,
fitted to -128 for one sign and to 65408 for the other. -/
theorem read_either_sign_masked :
    HeadText (ascii ">(1.b) beshort") ⟨1, some ⟨.byte, 0⟩, 1, false, .beShort⟩ ∧
      HeadText (ascii ">(1.b) ubeshort") ⟨1, some ⟨.byte, 0⟩, 1, true, .beShort⟩ ∧
      read (ascii ">(1.b) beshort" ++ maskedTest) = .ok (some (maskedRule false (-128) (-128))) ∧
      read (ascii ">(1.b) ubeshort" ++ maskedTest) = .ok (some (maskedRule true 65408 65408)) ∧
      (maskedRule false (-128) (-128)).evaluate [0, 2, 0xff, 0x90] = true ∧
      (maskedRule true 65408 65408).evaluate [0, 2, 0xff, 0x90] = true := by
  have hplain : HeadText (ascii ">(1.b) beshort") ⟨1, some ⟨.byte, 0⟩, 1, false, .beShort⟩ :=
    headText_pointer false .beShort
  have hmarked : HeadText (ascii ">(1.b) ubeshort") ⟨1, some ⟨.byte, 0⟩, 1, true, .beShort⟩ :=
    headText_pointer true .beShort
  have hread : read (ascii ">(1.b) beshort" ++ maskedTest) =
      .ok (some (maskedRule false (-128) (-128))) := by decide +kernel
  have hread' : read (ascii ">(1.b) ubeshort" ++ maskedTest) =
      .ok (some (maskedRule true 65408 65408)) := by decide +kernel
  have hfield : (maskedRule false (-128) (-128)).field? [0, 2, 0xff, 0x90] =
      some (.number 0xff90) := by decide +kernel
  have hagrees : (Constants.ofTest .beShort (strip maskedTest)).Agrees .beShort 0xff90 := by
    unfold Constants.Agrees Int.ModEq
    decide +kernel
  obtain ⟨r, s, hr, hs, _, _, hbits⟩ :=
    @read_either_sign ⟨1, some ⟨.byte, 0⟩, 1, false, .beShort⟩ nofun _ _ hplain hmarked maskedTest
  obtain rfl : maskedRule false (-128) (-128) = r := by simpa [hread] using hr
  obtain rfl : maskedRule true 65408 65408 = s := by simpa [hread'] using hs
  obtain ⟨_, hsame, _, hequal⟩ := hbits List.mem_cons_self [0, 2, 0xff, 0x90]
  have hholds := ((hequal 0xff90 hfield).1 rfl).mpr hagrees
  exact ⟨hplain, hmarked, hread, hread', hholds, hsame.trans hholds⟩

section Orders

variable {gap : List UInt8} {relation : Relation}

theorem symbol_order (h : relation ∈ [Relation.greater, .less, .equal]) :
    relation.symbol.toUInt8 ≠ '&'.toUInt8 ∧ isSpace relation.symbol.toUInt8 = false ∧
      relation.symbol.toUInt8 ≠ 0x0a ∧ relation.symbol.toUInt8 ≠ 0x0d ∧ relation ≠ .any ∧
      ∀ type tail, readRelation type (relation.symbol.toUInt8 :: tail) = (relation, tail) := by
  simp only [List.mem_cons, List.not_mem_nil, or_false] at h
  rcases h with rfl | rfl | rfl
  all_goals exact ⟨by decide, by decide, by decide, by decide, nofun, fun _ _ => rfl⟩

theorem readMask_gap (hgap : ∀ b ∈ gap, isSpace b = true) {c : UInt8} (hc : c ≠ '&'.toUInt8)
    (type : FieldType) (unsigned : Bool) (tail : List UInt8) :
    readMask type unsigned (gap ++ c :: tail) = (-1, gap ++ c :: tail) := by
  cases gap with
  | nil => exact if_neg hc
  | cons b gap =>
    have hb : b ≠ '&'.toUInt8 := by
      rintro rfl
      exact absurd (hgap _ List.mem_cons_self) (by decide)
    exact if_neg hb

/-- The symbol of an order, behind blanks or not, is all that makes the order of a rule. -/
theorem readTest_order (hgap : ∀ b ∈ gap, isSpace b = true)
    (h : relation ∈ [Relation.greater, .less, .equal]) (head : Head) (tail : List UInt8) :
    readTest head (gap ++ relation.symbol.toUInt8 :: tail) =
      { readTest head ('='.toUInt8 :: tail) with relation } := by
  obtain ⟨hmask, hspace, _, _, hany, hread⟩ := symbol_order h
  have hskip : skipSpace (gap ++ relation.symbol.toUInt8 :: tail) =
      relation.symbol.toUInt8 :: tail :=
    dropWhile_run hgap (stops_cons.mpr hspace)
  have hexpected : readExpected head.type head.unsigned relation tail =
      readExpected head.type head.unsigned .equal tail := by
    unfold readExpected
    rw [if_neg hany, if_neg nofun]
  simp only [readTest, readMask_gap hgap hmask, hskip, hread, hexpected]
  rfl

theorem strip_order (h : relation ∈ [Relation.greater, .less, .equal]) (tail : List UInt8) :
    strip (gap ++ relation.symbol.toUInt8 :: tail) =
      gap ++ relation.symbol.toUInt8 :: strip tail := by
  obtain ⟨_, _, hnl, hcr, _⟩ := symbol_order h
  have hlast : (gap ++ [relation.symbol.toUInt8]).getLast? = some relation.symbol.toUInt8 :=
    List.getLast?_concat
  have hstrip := strip_append_of_getLast hlast hnl hcr tail
  rwa [List.append_assoc, List.append_assoc, List.singleton_append] at hstrip

/-- Without a mask a line compares its field with its value as numbers in the range of its type, the
higher bits of both left out, so of the lines that differ in the order only one always holds. -/
theorem read_orders_integers {head : Head} (ht : head.type ≠ .string) {text : List UInt8}
    (htext : HeadText text head) {test : List UInt8}
    (hmask : (Constants.ofTest head.type (strip test)).mask = none) :
    ∃ r, read (text ++ test) = .ok (some r) ∧ r.head = head ∧
      (r.relation ≠ .any → ∀ buffer field, r.field? buffer = some (.number field) →
        let F := head.type.wrap head.unsigned field.toNat
        let N := head.type.wrap head.unsigned (Constants.ofTest head.type (strip test)).value.toInt
        (r.relation = .greater → (r.evaluate buffer = true ↔ N < F)) ∧
        (r.relation = .less → (r.evaluate buffer = true ↔ F < N)) ∧
        (r.relation = .equal → (r.evaluate buffer = true ↔ F = N)) ∧
        ∃! relation, relation ∈ [Relation.greater, .less, .equal] ∧
          ({ r with relation } : Rule).evaluate buffer = true) ∧
      ∀ gap tail relation, (∀ b ∈ gap, isSpace b = true) →
        r.relation ∈ [Relation.greater, .less, .equal] →
        relation ∈ [Relation.greater, .less, .equal] →
        test = gap ++ r.relation.symbol.toUInt8 :: tail →
        read (text ++ (gap ++ relation.symbol.toUInt8 :: tail)) =
          .ok (some { r with relation }) := by
  have hr := writtenWith_readTest head ht (strip test)
  refine ⟨_, read_headText htext test, rfl, ?_, ?_⟩
  · intro hany buffer field hf
    obtain ⟨hgreater, hless, hequal⟩ := hr.evaluate_order hmask hf
    exact ⟨hgreater, hless, hequal, hr.existsUnique_order hany hmask hf⟩
  · intro gap tail relation hgap hold hnew htest
    generalize (readTest head (strip test)).relation = old at hold htest
    have hr : readTest head (strip test) =
        { readTest head ('='.toUInt8 :: strip tail) with relation := old } := by
      rw [htest, strip_order hold, readTest_order hgap hold]
    rw [read_headText htext, strip_order hnew, readTest_order hgap hnew, hr]

def orderRule (relation : Relation) : Rule :=
  ⟨0, none, 0, .byte, -1, relation, .number 127, false, "", false, 0⟩

/-- As signed bytes 383 is 127 and 128 is -128, so the field is less. -/
theorem read_orders_integers_top_bit :
    HeadText (ascii "0 byte") ⟨0, none, 0, false, .byte⟩ ∧
      Constants.ofTest .byte (strip (ascii " >383")) = ⟨none, 383⟩ ∧
      read (ascii "0 byte" ++ ascii " >383") = .ok (some (orderRule .greater)) ∧
      read (ascii "0 byte" ++ ascii " <383") = .ok (some (orderRule .less)) ∧
      (orderRule .greater).evaluate [128] = false ∧
      ∃! relation, relation ∈ [Relation.greater, .less, .equal] ∧
        (orderRule relation).evaluate [128] = true := by
  have htext : HeadText (ascii "0 byte") ⟨0, none, 0, false, .byte⟩ := headText_zero false .byte
  have htest : Constants.ofTest .byte (strip (ascii " >383")) = ⟨none, 383⟩ := by decide +kernel
  have hread : read (ascii "0 byte" ++ ascii " >383") = .ok (some (orderRule .greater)) := by
    decide +kernel
  have hfield : (orderRule .greater).field? [128] = some (.number 128) := by decide +kernel
  have hwrap : ¬ FieldType.byte.wrap false 383 < FieldType.byte.wrap false 128 := by decide +kernel
  obtain ⟨r, hr, _, horder, hother⟩ :=
    @read_orders_integers ⟨0, none, 0, false, .byte⟩ nofun _ htext _ (by rw [htest])
  obtain rfl : orderRule .greater = r := by simpa [hread] using hr
  obtain ⟨hgreater, _, _, hunique⟩ := horder nofun [128] 128 hfield
  rw [htest] at hgreater
  have hsplit : ascii " >383" = [0x20] ++ '>'.toUInt8 :: ascii "383" := by decide +kernel
  have hless := hother [0x20] (ascii "383") .less (List.forall_mem_singleton.mpr rfl)
    List.mem_cons_self (by decide) hsplit
  exact ⟨htext, htest, hread, hless, Bool.eq_false_iff.mpr fun h => hwrap ((hgreater rfl).mp h),
    hunique⟩

end Orders

end Line

end ContentType
