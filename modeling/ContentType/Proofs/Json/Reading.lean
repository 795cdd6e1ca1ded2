import ContentType.Proofs.Json.Grammar
import Mathlib.Tactic.NormNum

namespace ContentType.Json

section Numbers

/-- What would make a number longer. -/
def continues (c : Char) : Bool :=
  isDigit c || c == '.' || c == 'e' || c == 'E'

variable {rest : List Char} {n : Nat}

theorem not_continues_of_isBlank {c : Char} (h : isBlank c = true) : continues c = false := by
  simp only [isBlank, Bool.or_eq_true, beq_iff_eq] at h
  rcases h with ((rfl | rfl) | rfl) | rfl <;> rfl

theorem stops_isDigit (h : Stops continues rest) : Stops isDigit rest := by
  intro c hc
  have hstop := h c hc
  simp only [continues, Bool.or_eq_false_iff] at hstop
  exact hstop.1.1.1

theorem readFraction_none (h : Stops continues rest) : readFraction rest = some ([], rest) := by
  unfold readFraction
  split
  · cases stops_cons.mp h
  · rfl

theorem readExponent_none (h : Stops continues rest) : readExponent rest = some ([], rest) := by
  cases rest with
  | nil => rfl
  | cons c rest =>
    have hstop := stops_cons.mp h
    simp only [continues, Bool.or_eq_false_iff, beq_eq_false_iff_ne] at hstop
    simp [readExponent, hstop]

theorem isDigit_of_mem_toDigits {c : Char} (h : c ∈ Nat.toDigits 10 n) : isDigit c = true := by
  have hdigit := Nat.isDigit_of_mem_toDigits (by decide) (by decide) h
  simpa [isDigit, Char.isDigit, Char.le_def] using hdigit

/-- Only zero is written with a zero in front. -/
theorem eq_zero_of_head_toDigits (h : (Nat.toDigits 10 n).head? = some '0') : n = 0 := by
  induction n using Nat.strongRecOn with
  | ind n ih =>
    by_cases hlt : n < 10
    · have hall : ∀ d < 10, Nat.digitChar d = '0' → d = 0 := by decide
      rw [Nat.toDigits_of_lt_base hlt] at h
      exact hall n hlt (Option.some.inj h)
    · rw [Nat.toDigits_of_base_le (by decide) (Nat.le_of_not_lt hlt),
        List.head?_append_of_ne_nil _ Nat.toDigits_ne_nil] at h
      have := ih (n / 10) (by omega) h
      omega

theorem length_toDigits_of_head (h : (Nat.toDigits 10 n).head? = some '0') :
    (Nat.toDigits 10 n).length = 1 := by
  rw [eq_zero_of_head_toDigits h]
  rfl

theorem readNumber_toDigits (h : Stops continues rest) (n : Nat) :
    readNumber (Nat.toDigits 10 n ++ rest) = some (.int n, rest) := by
  have hall : ∀ c ∈ Nat.toDigits 10 n, isDigit c = true := fun c => isDigit_of_mem_toDigits
  have htake := takeWhile_run hall (stops_isDigit h)
  have hdrop := dropWhile_run hall (stops_isDigit h)
  unfold readNumber
  split
  rename_i sign s hsplit
  split at hsplit
  · rename_i tail hsign
    have hdigits : (Nat.toDigits 10 n ++ rest).head? = (Nat.toDigits 10 n).head? :=
      List.head?_append_of_ne_nil _ Nat.toDigits_ne_nil
    rw [hsign] at hdigits
    cases hall '-' (List.mem_of_head? hdigits.symm)
  · cases hsplit
    simpa [htake, hdrop, readFraction_none h, readExponent_none h, Nat.ofDigitChars_ten_toDigits]
      using length_toDigits_of_head

theorem readNumber_negative (h : Stops continues rest) (n : Nat) :
    readNumber ('-' :: Nat.toDigits 10 (n + 1) ++ rest) = some (.int (.negSucc n), rest) := by
  have hall : ∀ c ∈ Nat.toDigits 10 (n + 1), isDigit c = true := fun c => isDigit_of_mem_toDigits
  have htake := takeWhile_run hall (stops_isDigit h)
  have hdrop := dropWhile_run hall (stops_isDigit h)
  simpa [readNumber, htake, hdrop, readFraction_none h, readExponent_none h,
    Nat.ofDigitChars_ten_toDigits, Int.negSucc_eq] using length_toDigits_of_head

theorem readNumber_decimal (h : Stops continues rest) (n : Int) :
    readNumber (Text.decimal n ++ rest) = some (.int n, rest) := by
  cases n with
  | ofNat n => exact readNumber_toDigits h n
  | negSucc n => exact readNumber_negative h n

/-- An integer begins with a digit or with a minus. -/
theorem head_decimal (n : Int) :
    ∃ c s, Text.decimal n = c :: s ∧ (isDigit c = true ∨ c = '-') := by
  cases n with
  | ofNat n =>
    obtain ⟨c, s, hs⟩ := List.exists_cons_of_ne_nil (Nat.toDigits_ne_nil (n := n) (b := 10))
    exact ⟨c, s, hs, .inl (isDigit_of_mem_toDigits (n := n) (by simp [hs]))⟩
  | negSucc n => exact ⟨'-', _, rfl, .inr rfl⟩

end Numbers

section Values

variable {s rest : List Char} {fuel : Nat}

theorem dropWhile_dropWhile (s : List Char) :
    (s.dropWhile isBlank).dropWhile isBlank = s.dropWhile isBlank :=
  dropWhile_of_stops (stops_dropWhile isBlank s)

theorem readValue_dropWhile (fuel : Nat) (s : List Char) :
    readValue fuel (s.dropWhile isBlank) = readValue fuel s := by
  cases fuel with
  | zero => simp [readValue]
  | succ fuel => simp [readValue, dropWhile_dropWhile]

theorem readItems_dropWhile (fuel : Nat) (s : List Char) :
    readItems fuel (s.dropWhile isBlank) = readItems fuel s := by
  cases fuel with
  | zero => simp [readItems]
  | succ fuel => simp [readItems, readValue_dropWhile]

theorem readMembers_dropWhile (fuel : Nat) (s : List Char) :
    readMembers fuel (s.dropWhile isBlank) = readMembers fuel s := by
  cases fuel with
  | zero => simp [readMembers]
  | succ fuel => simp [readMembers, dropWhile_dropWhile]

/-- A document begins with no blank, and not with the end of a list. -/
theorem Spells.head {v : Json} (h : Spells s v) :
    ∃ c t, s = c :: t ∧ isBlank c = false ∧ c ≠ ']' := by
  cases h with
  | int n =>
    obtain ⟨c, t, hs, hc⟩ := head_decimal n
    refine ⟨c, t, hs, ?_, ?_⟩
    · refine Bool.eq_false_iff.mpr fun hblank => ?_
      have hstop := not_continues_of_isBlank hblank
      rcases hc with hc | rfl
      · simp [continues, hc] at hstop
      · cases hblank
    · rintro rfl
      rcases hc with hc | hc <;> cases hc
  | _ => exact ⟨_, _, rfl, rfl, by decide⟩

theorem stops_of_spells {v : Json} (h : Spells s v) (rest : List Char) :
    Stops isBlank (s ++ rest) := by
  obtain ⟨c, t, rfl, hblank, -⟩ := h.head
  exact stops_cons.mpr hblank

theorem readValue_string {cs : List Char} (h : StringText s cs) (fuel : Nat) (rest : List Char) :
    readValue (fuel + 1) ('"' :: s ++ '"' :: rest) = some (.text (String.ofList cs), rest) := by
  have hskip : ('"' :: s ++ '"' :: rest).dropWhile isBlank = '"' :: (s ++ '"' :: rest) := rfl
  rw [readValue, hskip]
  simp [readString_text h, text]

theorem readValue_decimal (h : Stops continues rest) (fuel : Nat) (n : Int) :
    readValue (fuel + 1) (Text.decimal n ++ rest) = some (.int n, rest) := by
  have hskip := dropWhile_of_stops (stops_of_spells (.int n) rest)
  have hread := readNumber_decimal h n
  obtain ⟨c, s, hs, hc⟩ := head_decimal n
  rw [hs, List.cons_append] at hskip hread ⊢
  rw [readValue, hskip]
  split
  case h_8 => exact hread
  case h_1 heq => cases heq
  -- none of the other first characters begins a number
  all_goals
    rename_i heq
    obtain ⟨rfl, -⟩ := List.cons.inj heq
    rcases hc with hc | hc <;> cases hc

theorem readValue_noItems (h : Blanks s) (fuel : Nat) (rest : List Char) :
    readValue (fuel + 1) ('[' :: s ++ ']' :: rest) = some (.array [], rest) := by
  have hskip : ('[' :: s ++ ']' :: rest).dropWhile isBlank = '[' :: (s ++ ']' :: rest) := rfl
  have hend : (s ++ ']' :: rest).dropWhile isBlank = ']' :: rest :=
    dropWhile_run h (stops_cons.mpr rfl)
  rw [readValue, hskip]
  simp [hend]

theorem readValue_noMembers (h : Blanks s) (fuel : Nat) (rest : List Char) :
    readValue (fuel + 1) ('\x7b' :: s ++ '\x7d' :: rest) = some (.object [], rest) := by
  have hskip : ('\x7b' :: s ++ '\x7d' :: rest).dropWhile isBlank =
      '\x7b' :: (s ++ '\x7d' :: rest) := rfl
  have hend : (s ++ '\x7d' :: rest).dropWhile isBlank = '\x7d' :: rest :=
    dropWhile_run h (stops_cons.mpr rfl)
  rw [readValue, hskip]
  simp [hend]

/-- Every text that a fuel is enough for is read as its document, and no further. -/
structure Reads (fuel : Nat) : Prop where
  value {s v rest} (h : Spells s v) (hfuel : 2 * s.length ≤ fuel) (hrest : Stops continues rest) :
    readValue fuel (s ++ rest) = some (v, rest)
  items {s items} (h : ItemsText s items) (hfuel : 2 * s.length < fuel) (rest : List Char) :
    readItems fuel (s ++ rest) = some (items, rest)
  members {s members} (h : MembersText s members) (hfuel : 2 * s.length < fuel)
    (rest : List Char) : readMembers fuel (s ++ rest) = some (members, rest)

theorem Blanks.stops_continues (h : Blanks s) (hrest : Stops continues rest) :
    Stops continues (s ++ rest) :=
  Stops.append (fun c hc => not_continues_of_isBlank (h c hc)) hrest

variable {v : Json}

/-- The blanks around a document are left out, those behind it by what reads on. -/
theorem ValueText.reads (h : ValueText s v) (hreads : Reads fuel) (hfuel : 2 * s.length ≤ fuel)
    (rest : List Char) (hrest : Stops continues rest) (hblank : Stops isBlank rest) :
    ∃ left, readValue fuel (s ++ rest) = some (v, left) ∧ left.dropWhile isBlank = rest := by
  cases h with
  | @mk before s after _ hbefore h hafter =>
    refine ⟨after ++ rest, ?_, dropWhile_run hafter hblank⟩
    have hskip := dropWhile_run hbefore (stops_of_spells h (after ++ rest))
    simp only [List.length_append] at hfuel
    rw [List.append_assoc, List.append_assoc, ← readValue_dropWhile, hskip]
    exact hreads.value h (by omega) (hafter.stops_continues hrest)

theorem readItems_last (h : ValueText s v) (hreads : Reads fuel) (hfuel : 2 * s.length ≤ fuel)
    (rest : List Char) : readItems (fuel + 1) (s ++ ']' :: rest) = some ([v], rest) := by
  obtain ⟨left, hread, hleft⟩ := h.reads hreads hfuel (']' :: rest) (stops_cons.mpr rfl)
      (stops_cons.mpr rfl)
  simp [readItems, hread, hleft]

theorem readItems_cons {t : List Char} {items : List Json} (h : ValueText s v)
    (hreads : Reads fuel) (hfuel : 2 * s.length ≤ fuel)
    (ht : readItems fuel t = some (items, rest)) :
    readItems (fuel + 1) (s ++ ',' :: t) = some (v :: items, rest) := by
  obtain ⟨left, hread, hleft⟩ := h.reads hreads hfuel (',' :: t) (stops_cons.mpr rfl)
      (stops_cons.mpr rfl)
  simp [readItems, hread, hleft, ht]

variable {m : Option String × Json}

/-- Where a member's name begins, and what stands behind its quote. -/
theorem Blanks.member (h : Blanks s) (name between t rest : List Char) :
    (s ++ '"' :: name ++ '"' :: between ++ ':' :: t ++ rest).dropWhile isBlank =
      '"' :: (name ++ '"' :: (between ++ ':' :: (t ++ rest))) := by
  have hquote : Stops isBlank ('"' :: (name ++ '"' :: (between ++ ':' :: (t ++ rest)))) :=
    stops_cons.mpr rfl
  simpa using dropWhile_run h hquote

/-- What reading a member goes through: its name, a colon and its value. -/
theorem MemberText.reads (h : MemberText s m) (hreads : Reads fuel) (hfuel : 2 * s.length ≤ fuel)
    (rest : List Char) (hrest : Stops continues rest) (hblank : Stops isBlank rest) :
    ∃ quoted named valued left,
      (s ++ rest).dropWhile isBlank = '"' :: quoted ∧ readString quoted = some (m.1, named) ∧
      named.dropWhile isBlank = ':' :: valued ∧ readValue fuel valued = some (m.2, left) ∧
      left.dropWhile isBlank = rest := by
  cases h with
  | @mk before name cs between s v hbefore hname hbetween h =>
    simp only [List.length_append, List.length_cons] at hfuel
    obtain ⟨left, hread, hleft⟩ := h.reads hreads (by omega) rest hrest hblank
    exact ⟨_, _, _, left, hbefore.member name between s rest, readString_text hname _,
      dropWhile_run hbetween (stops_cons.mpr rfl), hread, hleft⟩

theorem readMembers_last (h : MemberText s m) (hreads : Reads fuel)
    (hfuel : 2 * s.length ≤ fuel) (rest : List Char) :
    readMembers (fuel + 1) (s ++ '\x7d' :: rest) = some ([m], rest) := by
  obtain ⟨quoted, named, valued, left, hskip, hname, hcolon, hread, hleft⟩ :=
    h.reads hreads hfuel ('\x7d' :: rest) (stops_cons.mpr rfl)
      (stops_cons.mpr rfl)
  simp [readMembers, hskip, hname, hcolon, hread, hleft]

theorem readMembers_cons {t : List Char} {members : List (Option String × Json)}
    (h : MemberText s m) (hreads : Reads fuel) (hfuel : 2 * s.length ≤ fuel)
    (ht : readMembers fuel t = some (members, rest)) :
    readMembers (fuel + 1) (s ++ ',' :: t) = some (m :: members, rest) := by
  obtain ⟨quoted, named, valued, left, hskip, hname, hcolon, hread, hleft⟩ :=
    h.reads hreads hfuel (',' :: t) (stops_cons.mpr rfl)
      (stops_cons.mpr rfl)
  simp [readMembers, hskip, hname, hcolon, hread, hleft, ht]

theorem ValueText.head (h : ValueText s v) (rest : List Char) :
    ∃ c t, (s ++ rest).dropWhile isBlank = c :: t ∧ c ≠ ']' := by
  cases h with
  | @mk before s after _ hbefore h hafter =>
    have hskip := dropWhile_run hbefore (stops_of_spells h (after ++ rest))
    obtain ⟨c, t, rfl, -, hc⟩ := h.head
    exact ⟨c, _, by simpa using hskip, hc⟩

theorem ItemsText.head {items : List Json} (h : ItemsText s items) (rest : List Char) :
    ∃ c t, (s ++ rest).dropWhile isBlank = c :: t ∧ c ≠ ']' := by
  cases h with
  | last h => simpa using h.head (']' :: rest)
  | @cons s t v items h hitems => simpa using h.head (',' :: (t ++ rest))

theorem MemberText.head (h : MemberText s m) (rest : List Char) :
    ∃ t, (s ++ rest).dropWhile isBlank = '"' :: t := by
  cases h with
  | @mk before name cs between s v hbefore hname hbetween h =>
    exact ⟨_, hbefore.member name between s rest⟩

theorem MembersText.head {members : List (Option String × Json)} (h : MembersText s members)
    (rest : List Char) : ∃ t, (s ++ rest).dropWhile isBlank = '"' :: t := by
  cases h with
  | last h => simpa using h.head ('\x7d' :: rest)
  | @cons s t m members h hmembers => simpa using h.head (',' :: (t ++ rest))

theorem readValue_array {items : List Json} (h : ItemsText s items)
    (ht : readItems fuel (s ++ rest) = some (items, rest)) :
    readValue (fuel + 1) ('[' :: s ++ rest) = some (.array items, rest) := by
  have hskip : ('[' :: s ++ rest).dropWhile isBlank = '[' :: (s ++ rest) := rfl
  obtain ⟨c, t, hhead, hc⟩ := h.head rest
  rw [readValue, hskip]
  rw [← readItems_dropWhile, hhead] at ht
  simp [hhead, hc, ht]

theorem readValue_object {members : List (Option String × Json)} (h : MembersText s members)
    (ht : readMembers fuel (s ++ rest) = some (members, rest)) :
    readValue (fuel + 1) ('\x7b' :: s ++ rest) = some (.object members, rest) := by
  have hskip : ('\x7b' :: s ++ rest).dropWhile isBlank = '\x7b' :: (s ++ rest) := rfl
  obtain ⟨t, hhead⟩ := h.head rest
  rw [readValue, hskip]
  rw [← readMembers_dropWhile, hhead] at ht
  simp [hhead, ht]

theorem Reads.succ (hreads : Reads fuel) : Reads (fuel + 1) where
  value {s v rest} h hfuel hrest := by
    cases h with
    | null => rfl
    | yes => rfl
    | no => rfl
    | int n => exact readValue_decimal hrest fuel n
    | string h => simpa using readValue_string h fuel rest
    | noItems h => simpa using readValue_noItems h fuel rest
    | array h =>
      simp only [List.length_cons] at hfuel
      exact readValue_array h (hreads.items h (by omega) rest)
    | noMembers h => simpa using readValue_noMembers h fuel rest
    | object h =>
      simp only [List.length_cons] at hfuel
      exact readValue_object h (hreads.members h (by omega) rest)
  items {s items} h hfuel rest := by
    cases h with
    | last h =>
      simp only [List.length_append, List.length_cons] at hfuel
      simpa using readItems_last h hreads (by omega) rest
    | cons h hitems =>
      simp only [List.length_append, List.length_cons] at hfuel
      simpa using readItems_cons h hreads (by omega) (hreads.items hitems (by omega) rest)
  members {s members} h hfuel rest := by
    cases h with
    | last h =>
      simp only [List.length_append, List.length_cons] at hfuel
      simpa using readMembers_last h hreads (by omega) rest
    | cons h hmembers =>
      simp only [List.length_append, List.length_cons] at hfuel
      simpa using readMembers_cons h hreads (by omega) (hreads.members hmembers (by omega) rest)

theorem reads (fuel : Nat) : Reads fuel := by
  induction fuel with
  | zero =>
    refine ⟨fun h hfuel _ => ?_, fun _ hfuel => absurd hfuel (Nat.not_lt_zero _),
      fun _ hfuel => absurd hfuel (Nat.not_lt_zero _)⟩
    obtain ⟨c, t, rfl, -, -⟩ := h.head
    simp at hfuel
  | succ fuel ih => exact ih.succ

/-- A text of a document is read as this document. -/
theorem parse_of_valueText {text : String} (h : ValueText text.toList v) :
    parse? text = some v := by
  obtain ⟨left, hread, hleft⟩ := h.reads (reads (2 * text.toList.length + 2)) (by omega) []
    (stops_nil _) (stops_nil _)
  rw [List.append_nil] at hread
  rw [parse?, hread]
  exact if_pos hleft

end Values

end ContentType.Json
