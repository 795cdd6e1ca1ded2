import ContentType.Rule.Evaluate
import Mathlib.Data.Nat.Digits.Lemmas

namespace ContentType

section Spelling

/-- The number that bytes spell, each counting by its place. -/
def ByteOrder.spelled : ByteOrder → List UInt8 → Nat
  | .big, s => Nat.ofDigits 256 (s.reverse.map UInt8.toNat)
  | .little, s | .native, s => Nat.ofDigits 256 (s.map UInt8.toNat)

theorem foldr_bytes (s : List UInt8) :
    s.foldr (fun b n => b.toNat + 256 * n) 0 = Nat.ofDigits 256 (s.map UInt8.toNat) := by
  induction s with
  | nil => rfl
  | cons b s ih => simp [Nat.ofDigits_cons, ih]

theorem ByteOrder.number_eq_spelled (order : ByteOrder) (s : List UInt8) :
    order.number s = order.spelled s := by
  cases order with
  | big =>
    simp only [number, spelled, ← foldr_bytes, List.foldr_reverse, Nat.mul_comm, Nat.add_comm]
  | little => exact foldr_bytes s
  | native => exact foldr_bytes s

theorem ofDigits_bytes_lt (s : List UInt8) :
    Nat.ofDigits 256 (s.map UInt8.toNat) < 256 ^ s.length := by
  have h := Nat.ofDigits_lt_base_pow_length (b := 256) (l := s.map UInt8.toNat) (by decide) (by
    intro n hn
    obtain ⟨b, _, rfl⟩ := List.mem_map.mp hn
    exact b.toNat_lt)
  simpa using h

theorem ByteOrder.spelled_lt (order : ByteOrder) (s : List UInt8) :
    order.spelled s < 256 ^ s.length := by
  cases order with
  | big =>
    have h := ofDigits_bytes_lt s.reverse
    rwa [List.length_reverse] at h
  | little => exact ofDigits_bytes_lt s
  | native => exact ofDigits_bytes_lt s

end Spelling

section Window

variable {buffer : List UInt8} {offset width : Nat}

theorem length_windowAt (buffer : List UInt8) (offset : Nat) :
    (windowAt buffer offset).length = 64 := by
  simp [windowAt, windowWidth]

/-- A window goes on with zeros where the buffer ends. -/
theorem getElem_windowAt (buffer : List UInt8) (offset : Nat) {i : Nat} (hi : i < 64) :
    (windowAt buffer offset)[i]? = some (buffer[offset + i]?.getD 0) := by
  unfold windowAt windowWidth
  by_cases hin : offset + i < buffer.length
  · have hseen : i < ((buffer.drop offset).take 64).length := by
      rw [List.length_take, List.length_drop]
      omega
    rw [List.getElem?_append_left hseen, List.getElem?_take_of_lt hi, List.getElem?_drop,
      List.getElem?_eq_getElem hin, Option.getD_some]
  · have hseen : ((buffer.drop offset).take 64).length ≤ i := by
      rw [List.length_take, List.length_drop]
      omega
    rw [List.getElem?_append_right hseen, List.getElem?_replicate_of_lt (by omega),
      List.getElem?_eq_none (by omega), Option.getD_none]

/-- As far as the buffer goes, a window is a piece of it. -/
theorem take_windowAt (hw : width ≤ 64) (hin : offset + width ≤ buffer.length) :
    (windowAt buffer offset).take width = (buffer.drop offset).take width := by
  apply List.ext_getElem?
  intro i
  by_cases hi : i < width
  · have hib : offset + i < buffer.length := by omega
    rw [List.getElem?_take_of_lt hi, List.getElem?_take_of_lt hi, getElem_windowAt _ _ (by omega),
      List.getElem?_drop, List.getElem?_eq_getElem hib, Option.getD_some]
  · rw [List.getElem?_take_eq_none (by omega), List.getElem?_take_eq_none (by omega)]

end Window

namespace Rule

section Shape

variable {r : Rule}

theorem fieldIn_string (h : r.type = .string) (window : List UInt8) :
    r.fieldIn window = .window window := by
  simp [fieldIn, h]

theorem fieldIn_number (h : r.type ≠ .string) (window : List UInt8) :
    r.fieldIn window = .number (UInt64.ofNat (r.type.order.number (window.take r.type.width))) := by
  unfold fieldIn
  split
  · exact absurd ‹_› h
  · rfl

theorem field_eq_some_iff {buffer : List UInt8} {field : Field} :
    r.field? buffer = some field ↔
      ∃ offset, r.locate? buffer = some offset ∧ r.fieldIn (windowAt buffer offset) = field :=
  Option.map_eq_some_iff

/-- What is found depends on the type alone, behind a pointer or not. -/
theorem field_kind {buffer : List UInt8} {field : Field} (h : r.field? buffer = some field) :
    (r.type = .string ∧ ∃ window, field = .window window) ∨
      (r.type ≠ .string ∧ ∃ n, field = .number n) := by
  obtain ⟨offset, _, hfield⟩ := field_eq_some_iff.mp h
  by_cases ht : r.type = .string
  · exact Or.inl ⟨ht, _, hfield.symm.trans (fieldIn_string ht _)⟩
  · exact Or.inr ⟨ht, _, hfield.symm.trans (fieldIn_number ht _)⟩

end Shape

/-- Where the field begins: at the rule's offset, or as far from a pointer there as the rule
says. -/
def origin (r : Rule) (buffer : List UInt8) : Int :=
  match r.pointer with
  | none => r.offset.toInt
  | some p =>
    r.type.order.spelled ((buffer.drop r.offset.toInt.toNat).take p.width.bytes) + p.adjust.toInt

/-- What is read first, the pointer or else the field itself, ends inside the buffer, and so does
the field behind a pointer: all of a number, as much of a string as its literal has. -/
structure InBounds (r : Rule) (buffer : List UInt8) : Prop where
  start : 0 ≤ r.offset.toInt
  direct : r.pointer = none → r.offset.toInt + r.type.width ≤ buffer.length
  pointer : ∀ p, r.pointer = some p → r.offset.toInt + p.width.bytes ≤ buffer.length
  target : r.pointer ≠ none → 0 ≤ r.origin buffer ∧
    r.origin buffer + r.type.width ≤ buffer.length ∧
    ∀ literal, r.type = .string → r.expected = .bytes literal →
      r.origin buffer + literal.length ≤ buffer.length

section Bounds

variable {r : Rule} {buffer : List UInt8}

theorem reaches_iff (hb : buffer.length < 2 ^ 63) {offset width : Nat} :
    reaches buffer offset width = true ↔ offset + width ≤ buffer.length := by
  have hsize : UInt64.size = 2 ^ 64 := rfl
  simp only [reaches, Bool.and_eq_true, decide_eq_true_eq, hsize]
  omega

theorem width_le (type : FieldType) : type.width ≤ 4 := by
  cases type <;> simp [FieldType.width]

theorem bytes_le (width : PointerWidth) : width.bytes ≤ 4 := by
  cases width <;> simp [PointerWidth.bytes]

theorem le_needed_iff {target : Int} :
    target + r.needed ≤ buffer.length ↔
      target + r.type.width ≤ buffer.length ∧
      ∀ literal, r.type = .string → r.expected = .bytes literal →
        target + literal.length ≤ buffer.length := by
  unfold needed
  split
  · rename_i literal he ht
    have hwidth : r.type.width = 0 := by rw [ht]; rfl
    rw [hwidth]
    constructor
    · intro h
      refine ⟨by omega, fun other _ ho => ?_⟩
      obtain rfl := Expected.bytes.inj (he.symm.trans ho)
      exact h
    · intro h
      exact h.2 literal ht he
  · rename_i hne
    refine ⟨fun h => ⟨h, fun literal ht he => absurd ht (hne literal he)⟩, fun h => h.1⟩

/-- Following a pointer fails only where no buffer could hold what it leads to. -/
theorem target_eq_some_iff {n target : Nat} {adjust : Int64} :
    target? n adjust = some target ↔ (target : Int) = n + adjust.toInt ∧ target < 2 ^ 63 := by
  have hmax : Int64.maxValue.toInt = 2 ^ 63 - 1 := rfl
  simp only [target?, hmax]
  split
  · rw [Option.some.injEq]
    omega
  · refine iff_of_false (fun h => by cases h) (fun h => ?_)
    omega

theorem inBounds_direct (hp : r.pointer = none) :
    r.InBounds buffer ↔ 0 ≤ r.offset.toInt ∧ r.offset.toInt + r.type.width ≤ buffer.length := by
  constructor
  · exact fun h => ⟨h.start, h.direct hp⟩
  · intro h
    exact ⟨h.1, fun _ => h.2, fun p hq => by simp [hp] at hq, fun hn => absurd hp hn⟩

theorem inBounds_indirect {p : Pointer} (hp : r.pointer = some p) :
    r.InBounds buffer ↔ 0 ≤ r.offset.toInt ∧ r.offset.toInt + p.width.bytes ≤ buffer.length ∧
      0 ≤ r.origin buffer ∧ r.origin buffer + r.needed ≤ buffer.length := by
  rw [le_needed_iff]
  constructor
  · exact fun h => ⟨h.start, h.pointer p hp, h.target (by simp [hp])⟩
  · intro h
    obtain ⟨h0, hfirst, htarget⟩ := h
    refine ⟨h0, fun hn => by simp [hp] at hn, fun q hq => ?_, fun _ => htarget⟩
    obtain rfl := Option.some.inj (hp.symm.trans hq)
    exact hfirst

theorem number_windowAt {offset width : Nat} (order : ByteOrder) (hw : width ≤ 4)
    (hin : offset + width ≤ buffer.length) :
    order.number ((windowAt buffer offset).take width) =
      order.spelled ((buffer.drop offset).take width) := by
  rw [take_windowAt (by omega) hin, ByteOrder.number_eq_spelled]

/-- A rule finds a place exactly inside its bounds, and this place is its origin. -/
theorem locate_eq_some_iff (hb : buffer.length < 2 ^ 63) {place : Nat} :
    r.locate? buffer = some place ↔ r.InBounds buffer ∧ (place : Int) = r.origin buffer := by
  have hneg : r.offset < 0 ↔ r.offset.toInt < 0 := Int64.lt_iff_toInt_lt
  unfold locate?
  by_cases h0 : r.offset.toInt < 0
  · rw [if_pos (hneg.mpr h0)]
    refine iff_of_false (fun h => by cases h) (fun h => ?_)
    exact absurd h.1.start (Int.not_le.mpr h0)
  · rw [if_neg (fun h => h0 (hneg.mp h))]
    cases hp : r.pointer with
    | none =>
      have horigin : r.origin buffer = r.offset.toInt := by simp [origin, hp]
      simp only [reaches_iff hb, inBounds_direct hp, horigin, Option.ite_none_right_eq_some,
        Option.some.injEq]
      omega
    | some p =>
      simp only [reaches_iff hb, inBounds_indirect hp, Option.ite_none_right_eq_some]
      by_cases hfirst : r.offset.toInt.toNat + p.width.bytes ≤ buffer.length
      · have hnumber := number_windowAt r.type.order (bytes_le p.width) hfirst
        have horigin : r.origin buffer =
            r.type.order.number ((windowAt buffer r.offset.toInt.toNat).take p.width.bytes) +
              p.adjust.toInt := by
          rw [hnumber]
          simp [origin, hp]
        rw [horigin]
        generalize r.type.order.number _ = n
        simp only [Option.filter_eq_some_iff, target_eq_some_iff, reaches_iff hb]
        omega
      · refine iff_of_false (fun h => hfirst h.1) (fun h => ?_)
        omega

/-- Direct or not, the field begins inside the buffer, and a number ends there. -/
theorem InBounds.origin_range (h : r.InBounds buffer) :
    0 ≤ r.origin buffer ∧ r.origin buffer + r.type.width ≤ buffer.length := by
  cases hp : r.pointer with
  | none =>
    have horigin : r.origin buffer = r.offset.toInt := by simp [origin, hp]
    rw [horigin]
    exact ⟨h.start, h.direct hp⟩
  | some p =>
    obtain ⟨h0, hwidth, _⟩ := h.target (by simp [hp])
    exact ⟨h0, hwidth⟩

theorem field_isSome_iff (hb : buffer.length < 2 ^ 63) :
    (∃ field, r.field? buffer = some field) ↔ r.InBounds buffer := by
  constructor
  · intro h
    obtain ⟨field, h⟩ := h
    obtain ⟨place, hplace, _⟩ := field_eq_some_iff.mp h
    exact ((locate_eq_some_iff hb).mp hplace).1
  · intro h
    have hplace := (locate_eq_some_iff hb).mpr ⟨h, Int.toNat_of_nonneg h.origin_range.1⟩
    exact ⟨_, field_eq_some_iff.mpr ⟨_, hplace, rfl⟩⟩

/-- What is found is what the window at the origin holds. -/
theorem field_eq_fieldIn (hb : buffer.length < 2 ^ 63) {field : Field}
    (h : r.field? buffer = some field) :
    r.InBounds buffer ∧ r.fieldIn (windowAt buffer (r.origin buffer).toNat) = field := by
  obtain ⟨place, hplace, hfield⟩ := field_eq_some_iff.mp h
  obtain ⟨hin, horigin⟩ := (locate_eq_some_iff hb).mp hplace
  rw [← horigin, Int.toNat_natCast]
  exact ⟨hin, hfield⟩

theorem spelled_lt_size (order : ByteOrder) {s : List UInt8} (h : s.length ≤ 4) :
    order.spelled s < UInt64.size :=
  calc order.spelled s < 256 ^ s.length := order.spelled_lt s
    _ ≤ 256 ^ 4 := Nat.pow_le_pow_right (by decide) h
    _ ≤ UInt64.size := by decide

/-- A rule finds a field exactly when its bytes lie inside the buffer: a number is spelled by as
many bytes as its type has, a string is seen through a window of 64 bytes. So a rule whose place, by
the sums of integers, lies outside never holds. -/
theorem field_spelled_in_bounds (hb : buffer.length < 2 ^ 63) :
    ((∃ field, r.field? buffer = some field) ↔ r.InBounds buffer) ∧
    (∀ n, r.field? buffer = some (.number n) →
      r.type ≠ .string ∧
      ((buffer.drop (r.origin buffer).toNat).take r.type.width).length = r.type.width ∧
      n.toNat = r.type.order.spelled ((buffer.drop (r.origin buffer).toNat).take r.type.width)) ∧
    (∀ window, r.field? buffer = some (.window window) →
      r.type = .string ∧ window.length = 64 ∧
      ∀ i < 64, window[i]? = some (buffer[(r.origin buffer).toNat + i]?.getD 0)) ∧
    (r.evaluate buffer = true → r.InBounds buffer) := by
  refine ⟨field_isSome_iff hb, ?_, ?_, ?_⟩
  · intro n hn
    obtain ⟨hin, hfield⟩ := field_eq_fieldIn hb hn
    have hrange := hin.origin_range
    have hend : (r.origin buffer).toNat + r.type.width ≤ buffer.length := by omega
    have ht : r.type ≠ .string := by
      intro ht
      rw [fieldIn_string ht] at hfield
      cases hfield
    have hlength : ((buffer.drop (r.origin buffer).toNat).take r.type.width).length =
        r.type.width := by
      rw [List.length_take, List.length_drop]
      omega
    refine ⟨ht, hlength, ?_⟩
    rw [fieldIn_number ht, number_windowAt r.type.order (width_le r.type) hend] at hfield
    rw [← Field.number.inj hfield, UInt64.toNat_ofNat']
    exact Nat.mod_eq_of_lt (spelled_lt_size _ (by rw [hlength]; exact width_le r.type))
  · intro window hw
    obtain ⟨_, hfield⟩ := field_eq_fieldIn hb hw
    have ht : r.type = .string := by
      apply Classical.not_not.mp
      intro ht
      rw [fieldIn_number ht] at hfield
      cases hfield
    rw [fieldIn_string ht] at hfield
    obtain rfl := Field.window.inj hfield
    exact ⟨ht, length_windowAt _ _, fun i hi => getElem_windowAt _ _ hi⟩
  · intro h
    unfold evaluate at h
    split at h
    · cases h
    · rename_i field hfield
      exact (field_isSome_iff hb).mp ⟨field, hfield⟩

/-- The short number at 1, less two, is the place of a long number. -/
def throughPointer : Rule :=
  ⟨1, some ⟨.short, -2⟩, 1, .beLong, -1, .equal, .number 0xcafebabe, true, "", false, 0⟩

/-- The same rule, with a sum that no signed word holds, and content with any test. -/
def pastAllWords : Rule :=
  { throughPointer with
    pointer := some ⟨.short, Int64.maxValue⟩, relation := .any, expected := .none }

/-- A pointer at 1 that holds five, then at 3 the long number. -/
def pointedBuffer : List UInt8 :=
  [0, 0, 5, 0xca, 0xfe, 0xba, 0xbe, 7]

theorem field_spelled_in_bounds_pointer :
    pointedBuffer.length < 2 ^ 63 ∧ throughPointer.InBounds pointedBuffer ∧
      throughPointer.origin pointedBuffer = 3 ∧
      (0xcafebabe : UInt64).toNat = ByteOrder.big.spelled [0xca, 0xfe, 0xba, 0xbe] ∧
      ¬ pastAllWords.InBounds pointedBuffer := by
  have hb : pointedBuffer.length < 2 ^ 63 := by decide +kernel
  have hfound : throughPointer.field? pointedBuffer = some (.number 0xcafebabe) := by
    decide +kernel
  have hnone : pastAllWords.field? pointedBuffer = none := by decide +kernel
  have hat : throughPointer.origin pointedBuffer = 3 := by decide +kernel
  obtain ⟨hiff, hnumber, _⟩ := field_spelled_in_bounds (r := throughPointer) hb
  obtain ⟨_, _, hspelled⟩ := hnumber _ hfound
  rw [hat] at hspelled
  refine ⟨hb, hiff.mp ⟨_, hfound⟩, hat, hspelled, fun hin => ?_⟩
  obtain ⟨field, hsome⟩ := (field_spelled_in_bounds (r := pastAllWords) hb).1.mpr hin
  rw [hnone] at hsome
  cases hsome

end Bounds

end Rule

end ContentType
