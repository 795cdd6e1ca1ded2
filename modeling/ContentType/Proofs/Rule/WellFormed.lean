import ContentType.Proofs.Rule.Extension
import ContentType.Proofs.Rule.Location
import ContentType.Proofs.Rule.Marks
import ContentType.Proofs.RuleTable.Loading

namespace ContentType

/-- The kinds of a rule's parts fit together, and its numbers lie in their ranges. -/
structure Rule.WellFormed (r : Rule) : Prop where
  wildcard : r.expected = .none ↔ r.relation = .any
  literal : r.relation ≠ .any → r.type = .string →
    ∃ bytes, r.expected = .bytes bytes ∧ bytes.length ≤ 63
  constant : r.relation ≠ .any → r.type ≠ .string →
    ∃ n, r.expected = .number n ∧ signExtend r.type r.unsigned n = n
  symbol : r.type = .string → r.relation ≠ .notEqual
  continues : r.pointer ≠ none → 1 ≤ r.level
  place : -2 ^ 31 ≤ r.offset.toInt ∧ r.offset.toInt < 2 ^ 31

theorem Rule.WellFormed.of_line {r : Rule} {n : Nat} (h : r.WellFormed) :
    Rule.WellFormed { r with line := n } :=
  ⟨h.wildcard, h.literal, h.constant, h.symbol, h.continues, h.place⟩

/-- The value that a well-formed rule expects is of the kind that its field has. -/
theorem Rule.WellFormed.compares {r : Rule} (h : r.WellFormed) {buffer : List UInt8} {field : Field}
    (hf : r.field? buffer = some field) : ∃ verdict, r.compare? field = some verdict := by
  by_cases hany : r.relation = .any
  · exact ⟨true, if_pos hany⟩
  · unfold Rule.compare?
    rw [if_neg hany]
    rcases Rule.field_kind hf with ⟨ht, window, rfl⟩ | ⟨ht, n, rfl⟩
    · obtain ⟨bytes, he, _⟩ := h.literal hany ht
      rw [he]
      exact ⟨_, rfl⟩
    · obtain ⟨n, he, _⟩ := h.constant hany ht
      rw [he]
      exact ⟨_, rfl⟩

theorem Literal.length_read_le (room : Nat) (s : List UInt8) : (read room s).1.length ≤ room := by
  fun_induction read room s with
  | case1 => exact Nat.le_refl 0
  | case2 => exact Nat.zero_le _
  | case3 => exact Nat.zero_le _
  | case4 => exact Nat.zero_le _
  | case5 room s b rest hescape bs tail hrest hspace ih =>
    rw [hrest] at ih
    exact Nat.succ_le_succ ih
  | case6 room c s hspace hplain bs tail hrest ih =>
    rw [hrest] at ih
    exact Nat.succ_le_succ ih

namespace Line
open Byte

theorem bind_ok {α β : Type} {x : Except Fault α} {f : α → Except Fault β} {b : β}
    (h : x >>= f = .ok b) : ∃ a, x = .ok a ∧ f a = .ok b := by
  cases x with
  | error fault => cases h
  | ok a => exact ⟨a, rfl, h⟩

/-- Everything that a place can be. -/
theorem readPlace_cases {marked : Bool} {s rest : List UInt8} {pointer : Option Pointer}
    {offset : Int64} (h : readPlace marked s = .ok (pointer, offset, rest)) :
    (pointer = none ∧ readOffset s = .ok (offset, rest)) ∨
    ∃ inner tail p, s = '('.toUInt8 :: inner ∧ marked = true ∧ pointer = some p ∧
      readOffset inner = .ok (offset, tail) ∧ readPointer tail = .ok (p, rest) := by
  unfold readPlace at h
  split at h
  · obtain ⟨⟨offset', tail⟩, hoffset, h⟩ := bind_ok h
    cases h
    exact Or.inl ⟨rfl, hoffset⟩
  · split at h
    · rename_i hc
      split at h
      · rename_i hmarked
        obtain ⟨⟨offset', tail⟩, hoffset, h⟩ := bind_ok h
        obtain ⟨⟨p, tail'⟩, hpointer, h⟩ := bind_ok h
        cases h
        exact Or.inr ⟨_, tail, p, by rw [hc], hmarked, rfl, hoffset, hpointer⟩
      · cases h
    · obtain ⟨⟨offset', tail⟩, hoffset, h⟩ := bind_ok h
      cases h
      exact Or.inl ⟨rfl, hoffset⟩

/-- A head is a place and a type. -/
theorem readHead_cases {s rest : List UInt8} {head : Head} (h : readHead s = .ok (head, rest)) :
    ∃ tail,
      readPlace (!(s.takeWhile isMark).isEmpty) (s.dropWhile isMark) =
        .ok (head.pointer, head.offset, tail) ∧
      readType (skipSpace (tail.dropWhile isDigit)) = .ok (head.unsigned, head.type, rest) := by
  obtain ⟨⟨pointer, offset, tail⟩, hplace, h⟩ := bind_ok h
  obtain ⟨⟨unsigned, type, rest'⟩, htype, h⟩ := bind_ok h
  cases h
  exact ⟨tail, hplace, htype⟩

/-- A rule is a head and the test behind it. -/
theorem read_cases {line : List UInt8} {r : Rule} (h : read line = .ok (some r)) :
    ∃ head rest, readHead (skipSpace (strip line)) = .ok (head, rest) ∧ r = readTest head rest := by
  unfold read at h
  split at h
  · cases h
  · rename_i c s hs
    split at h
    · cases h
    · obtain ⟨⟨head, rest⟩, hhead, h⟩ := bind_ok h
      cases h
      exact ⟨head, rest, by rw [hs]; exact hhead, rfl⟩

theorem offset_range {s rest : List UInt8} {offset : Int64}
    (h : readOffset s = .ok (offset, rest)) :
    -2 ^ 31 ≤ offset.toInt ∧ offset.toInt < 2 ^ 31 := by
  unfold readOffset at h
  split at h
  · cases h
  · rename_i n _ _
    cases h
    rw [Int32.toInt_toInt64]
    exact ⟨n.toInt32.le_toInt, n.toInt32.toInt_lt⟩

theorem offset_readHead {s rest : List UInt8} {head : Head}
    (h : readHead s = .ok (head, rest)) :
    -2 ^ 31 ≤ head.offset.toInt ∧ head.offset.toInt < 2 ^ 31 := by
  obtain ⟨tail, hplace, _⟩ := readHead_cases h
  rcases readPlace_cases hplace with ⟨_, hoffset⟩ | ⟨_, _, _, _, _, _, hoffset, _⟩
  · exact offset_range hoffset
  · exact offset_range hoffset

/-- A pointer stands behind a mark. -/
theorem one_le_level_readHead {s rest : List UInt8} {head : Head}
    (h : readHead s = .ok (head, rest)) (hp : head.pointer ≠ none) : 1 ≤ head.level := by
  obtain ⟨tail, hplace, _⟩ := readHead_cases h
  rcases readPlace_cases hplace with ⟨hnone, _⟩ | ⟨_, _, _, _, hmarked, _, _, _⟩
  · exact absurd hnone hp
  · have hpos : 0 < (s.takeWhile isMark).length := by
      rw [List.length_pos_iff]
      simpa using hmarked
    have hone : (1 : UInt16).toNat = 1 := rfl
    rw [level_readHead h, UInt16.le_iff_toNat_le, UInt16.toNat_ofNat']
    omega

/-- In front of a string an exclamation mark belongs to the literal. -/
theorem readRelation_string (s : List UInt8) : (readRelation .string s).1 ≠ .notEqual := by
  unfold readRelation
  split
  · simp
  · split
    · simp
    · simp
    · split <;> simp
    · rename_i hne _ hr
      simpa using hne

theorem readConstant_extended (type : FieldType) (unsigned : Bool) (s : List UInt8) :
    signExtend type unsigned (readConstant type unsigned s).1 =
      (readConstant type unsigned s).1 := by
  unfold readConstant
  split <;> exact signExtend_signExtend unsigned _

section Expected

variable {type : FieldType} {relation : Relation} (unsigned : Bool) (s : List UInt8)

theorem readExpected_string (h : relation ≠ .any) :
    ∃ bytes, (readExpected .string unsigned relation s).1 = .bytes bytes ∧ bytes.length ≤ 63 :=
  ⟨(Literal.read Literal.maxLength (skipSpace s)).1, by simp only [readExpected, if_neg h],
    Literal.length_read_le Literal.maxLength _⟩

theorem readExpected_of_ne_string (h : relation ≠ .any) (ht : type ≠ .string) :
    readExpected type unsigned relation s =
      (.number (readConstant type unsigned (skipSpace s)).1,
        (readConstant type unsigned (skipSpace s)).2) := by
  unfold readExpected
  rw [if_neg h]
  cases type <;> first | exact absurd rfl ht | rfl

theorem readExpected_number (h : relation ≠ .any) (ht : type ≠ .string) :
    ∃ n, (readExpected type unsigned relation s).1 = .number n ∧
      signExtend type unsigned n = n := by
  rw [readExpected_of_ne_string unsigned s h ht]
  exact ⟨_, rfl, readConstant_extended type unsigned _⟩

theorem readExpected_none_iff :
    (readExpected type unsigned relation s).1 = .none ↔ relation = .any := by
  by_cases h : relation = .any
  · exact iff_of_true (by simp [readExpected, h]) h
  · refine iff_of_false (fun hn => ?_) h
    by_cases ht : type = .string
    · subst ht
      obtain ⟨bytes, he, _⟩ := readExpected_string unsigned s h
      rw [he] at hn
      cases hn
    · obtain ⟨n, he, _⟩ := readExpected_number unsigned s h ht
      rw [he] at hn
      cases hn

end Expected

theorem wellFormed_readTest {head : Head} (rest : List UInt8)
    (hl : head.pointer ≠ none → 1 ≤ head.level)
    (ho : -2 ^ 31 ≤ head.offset.toInt ∧ head.offset.toInt < 2 ^ 31) :
    (readTest head rest).WellFormed where
  wildcard := readExpected_none_iff _ _
  literal hr ht := by
    obtain ⟨bytes, he, hle⟩ := readExpected_string head.unsigned _ hr
    refine ⟨bytes, ?_, hle⟩
    rw [← he, ← ht]
    rfl
  constant hr ht := readExpected_number _ _ hr ht
  symbol ht := by
    have hne := readRelation_string
      (skipSpace (readMask head.type head.unsigned rest).2)
    rw [← ht] at hne
    exact hne
  continues := hl
  place := ho

theorem read_wellFormed {line : List UInt8} {r : Rule} (h : read line = .ok (some r)) :
    r.WellFormed := by
  obtain ⟨head, rest, hhead, rfl⟩ := read_cases h
  exact wellFormed_readTest rest (one_le_level_readHead hhead) (offset_readHead hhead)

end Line

namespace RuleTable

theorem Reachable.wellFormed {t : RuleTable} (h : Reachable t) {r : Rule} (hr : r ∈ t.rules) :
    r.WellFormed := by
  obtain ⟨line, s, n, hread, rfl⟩ := h.read hr
  exact (Line.read_wellFormed hread).of_line

/-- Every rule that a line gives is well-formed. So what a rule of a table finds in a buffer can
always be compared with what it expects, and the rule holds exactly when this comparison does. -/
theorem read_rules_compare :
    (∀ line r, Line.read line = .ok (some r) → r.WellFormed) ∧
    ∀ t, Reachable t → ∀ r ∈ t.rules, ∀ buffer field, r.field? buffer = some field →
      ∃ verdict, r.compare? field = some verdict ∧ r.evaluate buffer = verdict := by
  refine ⟨fun line r h => Line.read_wellFormed h, ?_⟩
  intro t ht r hr buffer field hfield
  obtain ⟨verdict, hverdict⟩ := (ht.wellFormed hr).compares hfield
  refine ⟨verdict, hverdict, ?_⟩
  simp only [Rule.evaluate, hfield, Rule.matchesField, hverdict, Option.getD_some]

def pointerLine : List UInt8 :=
  Byte.ascii ">(1.s-2) ubelong 0xcafebabe"

theorem read_rules_compare_pointer :
    Line.read pointerLine = .ok (some Rule.throughPointer) ∧ Rule.throughPointer.WellFormed ∧
      ∃ t r, Reachable t ∧ r ∈ t.rules ∧ r = { Rule.throughPointer with line := 2 } ∧
        ∃ verdict, r.compare? (.number 0xcafebabe) = some verdict ∧
          r.evaluate Rule.pointedBuffer = verdict := by
  have hread : Line.read pointerLine = .ok (some Rule.throughPointer) := by decide +kernel
  have hmem : { Rule.throughPointer with line := 2 } ∈
      (RuleTable.empty.merge (Byte.ascii "0 byte 0
" ++ pointerLine)).1.rules := by
    decide +kernel
  have hfield : ({ Rule.throughPointer with line := 2 } : Rule).field? Rule.pointedBuffer =
      some (.number 0xcafebabe) := by
    decide +kernel
  exact ⟨hread, read_rules_compare.1 _ _ hread, _, _, .merge _ .empty, hmem, rfl,
    read_rules_compare.2 _ (.merge _ .empty) _ hmem _ _ hfield⟩

end RuleTable

end ContentType
