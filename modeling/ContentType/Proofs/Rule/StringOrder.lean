import ContentType.Proofs.Rule.Comparison

namespace ContentType

/-- So many bytes of a buffer from an offset on, with zeros where it ends. -/
def paddedSlice (buffer : List UInt8) (offset length : Nat) : List UInt8 :=
  (List.range length).map fun i => buffer[offset + i]?.getD 0

section Slices

variable {buffer literal : List UInt8} {offset length : Nat}

theorem getElem_paddedSlice {i : Nat} (hi : i < length) :
    (paddedSlice buffer offset length)[i]? = some (buffer[offset + i]?.getD 0) := by
  rw [paddedSlice, List.getElem?_map, List.getElem?_range hi, Option.map_some]

theorem take_windowAt_eq_paddedSlice (h : length ≤ 64) :
    (windowAt buffer offset).take length = paddedSlice buffer offset length := by
  apply List.ext_getElem?
  intro i
  by_cases hi : i < length
  · rw [List.getElem?_take_of_lt hi, getElem_windowAt _ _ (by omega), getElem_paddedSlice hi]
  · have hout : (paddedSlice buffer offset length).length ≤ i := by
      rw [paddedSlice, List.length_map, List.length_range]
      omega
    rw [List.getElem?_take_eq_none (by omega), List.getElem?_eq_none hout]

/-- A literal without zeros stands in a padded slice only where the buffer itself holds it. -/
theorem paddedSlice_eq_iff_of_notMem (h : 0 ∉ literal) :
    paddedSlice buffer offset literal.length = literal ↔ literal <+: buffer.drop offset := by
  rw [List.prefix_iff_getElem?]
  constructor
  · intro he i hi
    have hbyte : buffer[offset + i]?.getD 0 = literal[i] := by
      have hpadded : (paddedSlice buffer offset literal.length)[i]? = _ := getElem_paddedSlice hi
      rw [he, List.getElem?_eq_getElem hi] at hpadded
      exact (Option.some.inj hpadded).symm
    rw [List.getElem?_drop]
    cases hb : buffer[offset + i]? with
    | none =>
      rw [hb, Option.getD_none] at hbyte
      exact absurd (hbyte ▸ List.getElem_mem hi) h
    | some b =>
      rw [hb, Option.getD_some] at hbyte
      rw [hbyte]
  · intro hprefix
    apply List.ext_getElem?
    intro i
    by_cases hi : i < literal.length
    · have hbyte := hprefix i hi
      rw [List.getElem?_drop] at hbyte
      rw [getElem_paddedSlice hi, hbyte, Option.getD_some, List.getElem?_eq_getElem hi]
    · have hout : (paddedSlice buffer offset literal.length).length ≤ i := by
        rw [paddedSlice, List.length_map, List.length_range]
        omega
      rw [List.getElem?_eq_none hout, List.getElem?_eq_none (by omega)]

end Slices

namespace Rule

section Differences

theorem difference_cons (got want : UInt8) (window literal : List UInt8) :
    difference (got :: window) (want :: literal) =
      if got = want then difference window literal else (got.toNat : Int) - want.toNat := by
  have hzero : (got.toNat : Int) - want.toNat = 0 ↔ got = want := by
    rw [← UInt8.toNat_inj]
    omega
  simp only [difference, List.zipWith_cons_cons, List.find?_cons]
  by_cases h : got = want
  · simp [h]
  · have hne : (got.toNat : Int) - want.toNat ≠ 0 := fun he => h (hzero.mp he)
    simp [h, hne]

theorem difference_range (window literal : List UInt8) :
    -255 ≤ difference window literal ∧ difference window literal ≤ 255 := by
  induction literal generalizing window with
  | nil => simp [difference]
  | cons want literal ih =>
    cases window with
    | nil => simp [difference]
    | cons got window =>
      rw [difference_cons]
      split
      · exact ih window
      · have := got.toNat_lt
        have := want.toNat_lt
        omega

/-- A difference is the order of the literal and as much of the window. -/
theorem difference_order {window literal : List UInt8} (h : literal.length ≤ window.length) :
    (difference window literal = 0 ↔ window.take literal.length = literal) ∧
    (0 < difference window literal ↔ literal < window.take literal.length) ∧
    (difference window literal < 0 ↔ window.take literal.length < literal) := by
  induction literal generalizing window with
  | nil => simp [difference]
  | cons want literal ih =>
    cases window with
    | nil => simp at h
    | cons got window =>
      rw [difference_cons, List.length_cons, List.take_succ_cons, List.cons_lt_cons_iff,
        List.cons_lt_cons_iff, List.cons.injEq]
      by_cases hsame : got = want
      · subst hsame
        simpa using ih (Nat.le_of_succ_le_succ h)
      · have hdiffers : got.toNat ≠ want.toNat := fun he => hsame (UInt8.toNat_inj.mp he)
        have hother : want ≠ got := Ne.symm hsame
        simp only [hsame, hother, if_false, false_and, or_false, UInt8.lt_iff_toNat_lt, iff_false]
        omega

/-- As a word, a difference is ordered to zero as it is itself. -/
theorem wordInt_difference (window literal : List UInt8) :
    wordInt false (Int64.ofInt (difference window literal)).toUInt64 =
      difference window literal := by
  obtain ⟨hlow, hhigh⟩ := difference_range window literal
  rw [wordInt, if_neg Bool.false_ne_true, Int64.toInt64_toUInt64]
  exact Int64.toInt_ofInt_of_le (by omega) (by omega)

theorem word_difference_eq_zero_iff {window literal : List UInt8} :
    (Int64.ofInt (difference window literal)).toUInt64 = 0 ↔ difference window literal = 0 := by
  have hzero : wordInt false 0 = 0 := rfl
  rw [← @wordInt_inj false, wordInt_difference, hzero]

end Differences

section Strings

variable {r : Rule} {buffer literal : List UInt8} {place : Nat}

/-- A string that is not behind a pointer may begin anywhere in the buffer, and at its end. -/
theorem locate_string_direct (ht : r.type = .string) (hp : r.pointer = none) :
    r.locate? buffer = some place ↔
      (place : Int) = r.offset.toInt ∧ place ≤ buffer.length := by
  have hneg : r.offset < 0 ↔ r.offset.toInt < 0 := Int64.lt_iff_toInt_lt
  have hlt := r.offset.toInt_lt
  have hsize : UInt64.size = 2 ^ 64 := rfl
  have hwidth : r.type.width = 0 := by rw [ht]; rfl
  simp only [locate?, hp, reaches, hwidth, hneg, hsize, Bool.and_eq_true, decide_eq_true_eq,
    Option.ite_none_left_eq_some, Option.ite_none_right_eq_some, Option.some.injEq]
  omega

/-- Behind a pointer there is room for the whole literal. -/
theorem locate_string_indirect (ht : r.type = .string) (he : r.expected = .bytes literal)
    (hp : r.pointer ≠ none) (h : r.locate? buffer = some place) :
    place + literal.length ≤ buffer.length := by
  have hneeded : r.needed = literal.length := by simp only [needed, ht, he]
  obtain ⟨p, hpointer⟩ := Option.ne_none_iff_exists'.mp hp
  simp only [locate?, hpointer, hneeded, Option.ite_none_left_eq_some,
    Option.ite_none_right_eq_some, Option.filter_eq_some_iff, reaches, Bool.and_eq_true,
    decide_eq_true_eq] at h
  obtain ⟨_, _, _, _, hinside⟩ := h
  exact hinside

/-- A string rule compares the difference of what it sees from its literal with zero. -/
theorem evaluate_string (ht : r.type = .string) (he : r.expected = .bytes literal)
    (hmask : r.mask = -1) (h : r.locate? buffer = some place) {relation : Relation}
    (hr : r.relation = relation) (hany : relation ≠ .any) :
    r.evaluate buffer = relation.holds r.unsigned
      (Int64.ofInt (difference (windowAt buffer place) literal)).toUInt64 0 := by
  subst hr
  have hfield : r.field? buffer = some (.window (windowAt buffer place)) :=
    field_eq_some_iff.mpr ⟨place, h, fieldIn_string ht _⟩
  have hkeep : ∀ word : UInt64, word &&& -1 = word := fun _ => UInt64.and_neg_one
  simp only [evaluate, hfield, matchesField, compare?, if_neg hany, he, hmask, hkeep,
    Option.getD_some]

/-- A rule on strings orders its literal and as many bytes of the buffer, with zeros past its end,
as lists of unsigned bytes. When the literal has no zero, equality is that the buffer itself goes on
with the literal. -/
theorem string_relations (ht : r.type = .string) (he : r.expected = .bytes literal)
    (hlength : literal.length ≤ 63) (hsigned : r.unsigned = false) (hmask : r.mask = -1)
    (buffer : List UInt8) (place : Nat) :
    (r.pointer = none → (r.locate? buffer = some place ↔
      (place : Int) = r.offset.toInt ∧ place ≤ buffer.length)) ∧
    (r.locate? buffer = some place →
      let W := paddedSlice buffer place literal.length
      (r.pointer ≠ none → place + literal.length ≤ buffer.length) ∧
      (r.relation = .equal → (r.evaluate buffer = true ↔ W = literal)) ∧
      (r.relation = .notEqual → (r.evaluate buffer = true ↔ W ≠ literal)) ∧
      (r.relation = .greater → (r.evaluate buffer = true ↔ literal < W)) ∧
      (r.relation = .less → (r.evaluate buffer = true ↔ W < literal)) ∧
      (r.relation = .equal → 0 ∉ literal →
        (r.evaluate buffer = true ↔ literal <+: buffer.drop place))) := by
  refine ⟨locate_string_direct ht, fun h => ?_⟩
  have hfits : literal.length ≤ (windowAt buffer place).length := by
    rw [length_windowAt]
    omega
  obtain ⟨hequal, hgreater, hless⟩ := difference_order hfits
  rw [take_windowAt_eq_paddedSlice (by omega)] at hequal hgreater hless
  have hword := wordInt_difference (windowAt buffer place) literal
  have hzero : wordInt false 0 = 0 := rfl
  have hevaluate := @evaluate_string _ _ _ _ ht he hmask h
  rw [hsigned] at hevaluate
  have hmatches : r.relation = .equal →
      (r.evaluate buffer = true ↔ paddedSlice buffer place literal.length = literal) := by
    intro hr
    rw [hevaluate hr nofun, ← hequal, ← word_difference_eq_zero_iff]
    exact beq_iff_eq
  refine ⟨fun hp => locate_string_indirect ht he hp h, hmatches, fun hr => ?_, fun hr => ?_,
    fun hr => ?_, fun hr hnul => (hmatches hr).trans (paddedSlice_eq_iff_of_notMem hnul)⟩
  · rw [hevaluate hr nofun, Ne, ← hequal, ← word_difference_eq_zero_iff]
    exact bne_iff_ne
  · rw [hevaluate hr nofun, Relation.greater_holds, hword, hzero, hgreater]
  · rw [hevaluate hr nofun, Relation.less_holds, hword, hzero, hless]

/-- A rule whose literal ends with a zero behind a byte above 127. -/
def nulRule (relation : Relation) : Rule :=
  ⟨0, none, 1, .string, -1, relation, .bytes [0x41, 0xff, 0], false, "", false, 0⟩

/-- The zero is not in the first buffer, which ends before it, and is less than the byte there in
the second one. -/
theorem string_relations_padded :
    (nulRule .equal).locate? [0, 0x41, 0xff] = some 1 ∧
      paddedSlice [0, 0x41, 0xff] 1 3 = [0x41, 0xff, 0] ∧
      ¬ [0x41, 0xff, 0] <+: List.drop 1 [(0 : UInt8), 0x41, 0xff] ∧
      (nulRule .equal).evaluate [0, 0x41, 0xff] = true ∧
      [0x41, 0xff, 0] < paddedSlice [0, 0x41, 0xff, 1] 1 3 ∧
      (nulRule .greater).evaluate [0, 0x41, 0xff, 1] = true := by
  have hpadded : paddedSlice [0, 0x41, 0xff] 1 3 = [0x41, 0xff, 0] := by decide
  have hgreater : [0x41, 0xff, 0] < paddedSlice [0, 0x41, 0xff, 1] 1 3 := by decide
  have hrelations := fun relation => @string_relations (nulRule relation) [0x41, 0xff, 0] rfl rfl
    (by decide) rfl rfl
  obtain ⟨hfirst, hholds⟩ := hrelations .equal [0, 0x41, 0xff] 1
  obtain ⟨hsecond, hordered⟩ := hrelations .greater [0, 0x41, 0xff, 1] 1
  have hplace := (hfirst rfl).mpr ⟨rfl, by decide⟩
  have hplace' := (hsecond rfl).mpr ⟨rfl, by decide⟩
  exact ⟨hplace, hpadded, by decide, ((hholds hplace).2.1 rfl).mpr hpadded, hgreater,
    ((hordered hplace').2.2.2.1 rfl).mpr hgreater⟩

end Strings

end Rule

end ContentType
