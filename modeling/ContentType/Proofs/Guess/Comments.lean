import ContentType.Guess.Tally
import Mathlib.Data.Nat.Count

namespace ContentType

namespace Token

/-- The token at an index is this word. -/
def Reads (tokens : List Token) (i : Nat) (word : String) : Prop :=
  tokens[i]?.map Token.text = some (Byte.ascii word)

/-- The token at an index starts a line, or ends one. -/
def StartsLine (tokens : List Token) (i : Nat) : Prop :=
  tokens[i]?.map Token.startsLine = some true

instance (tokens : List Token) (i : Nat) (word : String) : Decidable (Reads tokens i word) :=
  inferInstanceAs (Decidable (_ = _))

instance (tokens : List Token) : DecidablePred (StartsLine tokens) :=
  fun _ => inferInstanceAs (Decidable (_ = _))

/-- A comment that the token at `j` opens goes on up to the token at `i`: no closing mark comes in
between for `/*`, and no line starts for `//`. -/
def Reaches (tokens : List Token) (j i : Nat) : Prop :=
  (Reads tokens j "/*" ∧ ∀ k ≤ i, j < k → ¬ Reads tokens k "*/") ∨
    (Reads tokens j "//" ∧ ∀ k ≤ i, j < k → ¬ StartsLine tokens k)

instance (tokens : List Token) (j i : Nat) : Decidable (Reaches tokens j i) :=
  inferInstanceAs (Decidable (_ ∨ _))

/-- A token stands in a comment when one before it, in no comment itself, opens one that reaches
it. -/
def Commented (tokens : List Token) (i : Nat) : Prop :=
  ∃ j, ∃ _ : j < i, ¬ Commented tokens j ∧ Reaches tokens j i
termination_by i

theorem commented_iff {tokens : List Token} {i : Nat} :
    Commented tokens i ↔ ∃ j, ∃ _ : j < i, ¬ Commented tokens j ∧ Reaches tokens j i := by
  rw [Commented]

instance decidableCommented (tokens : List Token) (i : Nat) : Decidable (Commented tokens i) :=
  let rest : (j : Nat) → j < i → Decidable (¬ Commented tokens j ∧ Reaches tokens j i) :=
    fun j _ =>
      let _ := decidableCommented tokens j
      inferInstance
  match @Nat.decidableExistsLT' _ _ rest with
  | isTrue h => isTrue (commented_iff.mpr h)
  | isFalse h => isFalse fun hc => h (commented_iff.mp hc)
termination_by i

/-- Before the token at `n`, a comment is open that this word opened. -/
def Opened (tokens : List Token) (word : String) (ends : Nat → Prop) (n : Nat) : Prop :=
  ∃ j < n, ¬ Commented tokens j ∧ Reads tokens j word ∧ ∀ k < n, j < k → ¬ ends k

section Opened

variable {tokens : List Token} {word : String} {ends : Nat → Prop} {n : Nat}

theorem not_opened_zero : ¬ Opened tokens word ends 0 :=
  fun h => by obtain ⟨j, hj, _⟩ := h; omega

/-- A comment stays open until it ends; another one is opened outside comments only. -/
theorem opened_succ : Opened tokens word ends (n + 1) ↔
    (Opened tokens word ends n ∧ ¬ ends n) ∨ (Reads tokens n word ∧ ¬ Commented tokens n) := by
  constructor
  · intro h
    obtain ⟨j, hj, hout, hword, hopen⟩ := h
    rcases Nat.lt_or_eq_of_le (Nat.le_of_lt_succ hj) with hlt | rfl
    · exact Or.inl ⟨⟨j, hlt, hout, hword, fun k hk => hopen k (Nat.lt_succ_of_lt hk)⟩,
        hopen n (Nat.lt_succ_self n) hlt⟩
    · exact Or.inr ⟨hword, hout⟩
  · intro h
    rcases h with ⟨⟨j, hj, hout, hword, hopen⟩, hn⟩ | ⟨hword, hout⟩
    · refine ⟨j, Nat.lt_succ_of_lt hj, hout, hword, fun k hk hjk => ?_⟩
      rcases Nat.lt_or_eq_of_le (Nat.le_of_lt_succ hk) with hlt | rfl
      · exact hopen k hlt hjk
      · exact hn
    · exact ⟨n, Nat.lt_succ_self n, hout, hword, fun k hk hnk => by omega⟩

theorem opened_through : (Opened tokens word ends n ∧ ¬ ends n) ↔
    ∃ j < n, ¬ Commented tokens j ∧ Reads tokens j word ∧ ∀ k ≤ n, j < k → ¬ ends k := by
  constructor
  · intro h
    obtain ⟨⟨j, hj, hout, hword, hopen⟩, hn⟩ := h
    refine ⟨j, hj, hout, hword, fun k hk hjk => ?_⟩
    rcases Nat.lt_or_eq_of_le hk with hlt | rfl
    · exact hopen k hlt hjk
    · exact hn
  · intro h
    obtain ⟨j, hj, hout, hword, hopen⟩ := h
    exact ⟨⟨j, hj, hout, hword, fun k hk => hopen k (Nat.le_of_lt hk)⟩, hopen n (Nat.le_refl n) hj⟩

theorem commented_iff_opened : Commented tokens n ↔
    (Opened tokens "//" (StartsLine tokens) n ∧ ¬ StartsLine tokens n) ∨
      (Opened tokens "/*" (Reads tokens · "*/") n ∧ ¬ Reads tokens n "*/") := by
  rw [commented_iff, opened_through, opened_through]
  constructor
  · intro h
    obtain ⟨j, hj, hout, ⟨hword, hopen⟩ | ⟨hword, hopen⟩⟩ := h
    · exact Or.inr ⟨j, hj, hout, hword, hopen⟩
    · exact Or.inl ⟨j, hj, hout, hword, hopen⟩
  · intro h
    rcases h with ⟨j, hj, hout, hword, hopen⟩ | ⟨j, hj, hout, hword, hopen⟩
    · exact ⟨j, hj, hout, Or.inr ⟨hword, hopen⟩⟩
    · exact ⟨j, hj, hout, Or.inl ⟨hword, hopen⟩⟩

end Opened

section Lookup

variable {tokens : List Token} {i : Nat} {t : Token}

theorem reads_iff (h : tokens[i]? = some t) (word : String) :
    Reads tokens i word ↔ t.text = Byte.ascii word := by
  simp [Reads, h]

theorem startsLine_iff (h : tokens[i]? = some t) :
    StartsLine tokens i ↔ t.startsLine = true := by
  simp [StartsLine, h]

end Lookup

/-- The languages of the keyword at an index, if there is one. -/
def keywordAt (tokens : List Token) (i : Nat) : Option (List Language) :=
  tokens[i]?.bind (fun t => Language.lookup t.text)

theorem keywordAt_eq_some_iff {tokens : List Token} {i : Nat} {languages : List Language} :
    keywordAt tokens i = some languages ↔
      ∃ entry ∈ Language.keywords, Reads tokens i entry.1 ∧ entry.2 = languages := by
  cases h : tokens[i]? with
  | none => simp [keywordAt, Reads, h]
  | some t =>
    simp only [keywordAt, h, Option.bind_some, Language.lookup_eq_some_iff, reads_iff h,
      eq_comm (a := t.text)]

end Token

namespace Language

theorem lookup_blockMark : lookup (Byte.ascii "/*") = some cFamily :=
  lookup_listed ("/*", cFamily) (by simp [keywords])

theorem lookup_lineMark : lookup (Byte.ascii "//") = some cFamily :=
  lookup_listed ("//", cFamily) (by simp [keywords])

theorem lookup_closingMark : lookup (Byte.ascii "*/") = none :=
  lookup_eq_none_iff.mpr (by decide +kernel)

theorem filter_cFamily_ne_nil : cFamily.filter cFamily.contains ≠ [] := by decide

end Language

namespace Tally

section Fields

variable (t : Tally) (languages : List Language) (word : List UInt8)

theorem hitFamily_rest : (t.hitFamily languages word).tokens = t.tokens ∧
    (t.hitFamily languages word).languages = t.languages ∧
    (t.hitFamily languages word).counts = t.counts := by
  unfold hitFamily
  repeat' split
  all_goals exact ⟨rfl, rfl, rfl⟩

theorem counts_hit {f : Language → Nat} (h : t.counts = Language.all.map f) :
    (t.hit languages).counts =
      Language.all.map (fun l => f l + if l ∈ languages then 1 else 0) := by
  rw [hit, h, List.zipWith_map_right, List.zipWith_self]
  refine List.map_congr_left fun l _ => ?_
  by_cases hl : l ∈ languages <;> simp [hl]

theorem mem_union {l : Language} {a b : List Language} :
    l ∈ Language.union a b ↔ l ∈ a ∨ l ∈ b := by
  have hall : l ∈ Language.all := by cases l <;> decide
  simp [Language.union, hall]

end Fields

end Tally

namespace Reading
open ContentType.Language

/-- The token stands in a comment that the reading is in. -/
def inside (r : Reading) (t : Token) : Bool :=
  r.inLine && !t.startsLine || r.inBlock && t.text != Byte.ascii "*/"

section Step

variable {r : Reading} {t : Token} {languages : List Language}

theorem ne_closingMark (h : lookup t.text = some languages) : t.text ≠ Byte.ascii "*/" := by
  intro hclose
  rw [hclose, lookup_closingMark] at h
  cases h

theorem tally_step_of_none (h : lookup t.text = none) : (r.step t).tally = r.tally := by
  unfold step
  dsimp only
  split
  · rfl
  · rw [h]

/-- A keyword that is no closing mark leaves both flags to `keyword`. -/
theorem step_of_keyword (h : lookup t.text = some languages) :
    r.step t = keyword { r with inLine := r.inLine && !t.startsLine } t.text languages := by
  have hclose : (r.inBlock && t.text == Byte.ascii "*/") = false := by
    simp [ne_closingMark h]
  simp [step, hclose, h]

theorem inside_of_keyword (h : lookup t.text = some languages) :
    r.inside t = (r.inLine && !t.startsLine || r.inBlock) := by
  have hclose : (t.text != Byte.ascii "*/") = true := bne_iff_ne.mpr (ne_closingMark h)
  rw [inside, hclose, Bool.and_true]

/-- In a comment the keywords of the C family are seen and not counted. -/
theorem tally_step_of_inside (h : lookup t.text = some languages)
    (hfamily : languages.filter cFamily.contains ≠ []) (hin : r.inside t = true) :
    (r.step t).tally = r.tally.see languages := by
  rw [inside_of_keyword h] at hin
  rw [step_of_keyword h, keyword, if_neg hfamily, if_pos hin]

theorem tally_step_of_counted (h : lookup t.text = some languages)
    (hc : languages.filter cFamily.contains = [] ∨ r.inside t = false) :
    (r.step t).tally = ((r.tally.see languages).hitFamily
      (languages.filter cFamily.contains) t.text).hit languages := by
  rw [step_of_keyword h, keyword]
  split
  · rename_i hfamily
    rw [hfamily]
    rfl
  · rename_i hfamily
    have hout := hc.resolve_left hfamily
    rw [inside_of_keyword h] at hout
    rw [if_neg (by simp [hout])]

/-- What is no keyword of the C family opens no comment. -/
theorem no_opening (h : ∀ languages, lookup t.text = some languages →
    languages.filter cFamily.contains = []) :
    t.text ≠ Byte.ascii "//" ∧ t.text ≠ Byte.ascii "/*" := by
  constructor
  · intro ht
    exact filter_cFamily_ne_nil (h cFamily (ht ▸ lookup_lineMark))
  · intro ht
    exact filter_cFamily_ne_nil (h cFamily (ht ▸ lookup_blockMark))

/-- Each flag goes on until its comment ends, and goes up at an opening mark outside comments. -/
theorem flags_step (r : Reading) (t : Token) :
    (r.step t).inLine =
      (r.inLine && !t.startsLine || t.text == Byte.ascii "//" && !r.inside t) ∧
    (r.step t).inBlock =
      (r.inBlock && t.text != Byte.ascii "*/" || t.text == Byte.ascii "/*" && !r.inside t) := by
  cases h : lookup t.text with
  | none =>
    obtain ⟨hline, hblock⟩ := no_opening fun _ hsome => nomatch h.symm.trans hsome
    cases hb : r.inBlock <;> by_cases hclose : t.text = Byte.ascii "*/" <;>
      simp_all [step]
  | some languages =>
    have hclose : (t.text != Byte.ascii "*/") = true := bne_iff_ne.mpr (ne_closingMark h)
    rw [step_of_keyword h, inside_of_keyword h, hclose, Bool.and_true, keyword]
    split
    · rename_i hfamily
      obtain ⟨hline, hblock⟩ := no_opening fun more hmore =>
        Option.some.inj (h.symm.trans hmore) ▸ hfamily
      simp [hline, hblock]
    · split
      · rename_i hin
        simp [hin]
      · rename_i hout
        obtain ⟨hline, hblock⟩ := Bool.or_eq_false_iff.mp (Bool.eq_false_iff.mpr hout)
        dsimp only at hline hblock ⊢
        simp only [hline, hblock, Bool.false_or, Bool.not_false, Bool.and_true, and_self]

/-- In a comment no other one is opened, and no mark opens both kinds. -/
theorem not_both_step (h : ¬ (r.inLine = true ∧ r.inBlock = true)) :
    ¬ ((r.step t).inLine = true ∧ (r.step t).inBlock = true) := by
  rw [(flags_step r t).1, (flags_step r t).2]
  cases hin : r.inside t with
  | true =>
    intro hboth
    simp only [Bool.not_true, Bool.and_false, Bool.or_false, Bool.and_eq_true] at hboth
    exact h ⟨hboth.1.1, hboth.2.1⟩
  | false =>
    obtain ⟨hline, hblock⟩ := Bool.or_eq_false_iff.mp hin
    intro hboth
    simp only [hline, hblock, Bool.false_or, Bool.not_false, Bool.and_true, beq_iff_eq] at hboth
    exact absurd (hboth.1.symm.trans hboth.2) (by decide)

end Step

/-- The reading after so many tokens. -/
def after (tokens : List Token) (n : Nat) : Reading :=
  (tokens.take n).foldl step .start

theorem after_succ {tokens : List Token} {n : Nat} {t : Token} (h : tokens[n]? = some t) :
    after tokens (n + 1) = (after tokens n).step t := by
  rw [after, List.take_add_one, h, Option.toList_some, List.foldl_append]
  rfl

/-- No reading is in comments of both kinds. -/
theorem not_both (tokens : List Token) (n : Nat) :
    ¬ ((after tokens n).inLine = true ∧ (after tokens n).inBlock = true) := by
  induction n with
  | zero => exact fun h => nomatch h.1
  | succ n ih =>
    cases h : tokens[n]? with
    | none =>
      rwa [after, List.take_add_one, h, Option.toList_none, List.append_nil]
    | some t =>
      rw [after_succ h]
      exact not_both_step ih

section Flags

open Token

variable {tokens : List Token} {n : Nat}

theorem inside_iff {t : Token} (ht : tokens[n]? = some t)
    (hline : (after tokens n).inLine = true ↔ Opened tokens "//" (StartsLine tokens) n)
    (hblock : (after tokens n).inBlock = true ↔ Opened tokens "/*" (Reads tokens · "*/") n) :
    (after tokens n).inside t = true ↔ Commented tokens n := by
  rw [commented_iff_opened, ← hline, ← hblock, reads_iff ht, startsLine_iff ht]
  simp [inside]

/-- The flags tell the open comments. -/
theorem flags_after (hn : n ≤ tokens.length) :
    ((after tokens n).inLine = true ↔ Opened tokens "//" (StartsLine tokens) n) ∧
      ((after tokens n).inBlock = true ↔ Opened tokens "/*" (Reads tokens · "*/") n) := by
  induction n with
  | zero => exact ⟨iff_of_false nofun not_opened_zero, iff_of_false nofun not_opened_zero⟩
  | succ n ih =>
    have ht := List.getElem?_eq_getElem hn
    obtain ⟨hline, hblock⟩ := ih (Nat.le_of_succ_le hn)
    have hin := inside_iff ht hline hblock
    obtain ⟨hline', hblock'⟩ := flags_step (after tokens n) tokens[n]
    rw [after_succ ht, hline', hblock', opened_succ, opened_succ, ← hin, ← hline, ← hblock,
      reads_iff ht, reads_iff ht, reads_iff ht, startsLine_iff ht]
    simp

/-- A keyword is read in a comment exactly when it stands in one. -/
theorem inside_after {t : Token} (ht : tokens[n]? = some t) :
    (after tokens n).inside t = true ↔ Commented tokens n := by
  obtain ⟨hline, hblock⟩ := flags_after (Nat.le_of_lt (List.getElem?_eq_some_iff.mp ht).1)
  exact inside_iff ht hline hblock

end Flags

section Tallies

open Token

variable {tokens : List Token} {n : Nat}

/-- Keywords of these languages at an index count: it is outside comments, or none of them is of the
C family. -/
def Counted (tokens : List Token) (i : Nat) (languages : List Language) : Prop :=
  ¬ Commented tokens i ∨ ∀ k ∈ languages, k ∉ cFamily

instance (tokens : List Token) (i : Nat) (languages : List Language) :
    Decidable (Counted tokens i languages) :=
  inferInstanceAs (Decidable (_ ∨ _))

/-- Everything that one token can do to the tally, told by the tokens. -/
theorem tally_after_succ {t : Token} (ht : tokens[n]? = some t) :
    (keywordAt tokens n = none ∧ (after tokens (n + 1)).tally = (after tokens n).tally) ∨
    (∃ languages, keywordAt tokens n = some languages ∧
      ((¬ Counted tokens n languages ∧
        (after tokens (n + 1)).tally = (after tokens n).tally.see languages) ∨
      (Counted tokens n languages ∧
        (after tokens (n + 1)).tally = (((after tokens n).tally.see languages).hitFamily
          (languages.filter cFamily.contains) t.text).hit languages))) := by
  have hin := inside_after ht
  have hkeyword : keywordAt tokens n = lookup t.text := by simp [keywordAt, ht]
  rw [after_succ ht, hkeyword]
  cases h : lookup t.text with
  | none => exact Or.inl ⟨rfl, tally_step_of_none h⟩
  | some languages =>
    refine Or.inr ⟨languages, rfl, ?_⟩
    have hfamily : languages.filter cFamily.contains = [] ↔ ∀ k ∈ languages, k ∉ cFamily := by
      simp
    have hout : (after tokens n).inside t = false ↔ ¬ Commented tokens n := by
      rw [← hin, Bool.not_eq_true]
    rw [Counted, ← hfamily, ← hout]
    by_cases hc : (after tokens n).inside t = false ∨ languages.filter cFamily.contains = []
    · exact Or.inr ⟨hc, tally_step_of_counted h hc.symm⟩
    · obtain ⟨hnot, hne⟩ := not_or.mp hc
      exact Or.inl ⟨hc, tally_step_of_inside h hne (Bool.not_eq_false _ ▸ hnot)⟩

/-- The keyword at an index counts as a hit for a language. -/
def CountsFor (tokens : List Token) (l : Language) (i : Nat) : Prop :=
  ∃ languages ∈ keywordAt tokens i, l ∈ languages ∧ Counted tokens i languages

instance (tokens : List Token) (l : Language) : DecidablePred (CountsFor tokens l) :=
  fun _ => inferInstanceAs (Decidable (∃ _ ∈ _, _))

theorem not_countsFor_of_none {l : Language} (h : keywordAt tokens n = none) :
    ¬ CountsFor tokens l n := by
  simp [CountsFor, h]

theorem countsFor_iff {l : Language} {languages : List Language}
    (h : keywordAt tokens n = some languages) :
    CountsFor tokens l n ↔ l ∈ languages ∧ Counted tokens n languages := by
  simp [CountsFor, h]

theorem counts_after (hn : n ≤ tokens.length) :
    (after tokens n).tally.counts =
      Language.all.map (fun l => Nat.count (CountsFor tokens l) n) := by
  induction n with
  | zero => rfl
  | succ n ih =>
    have ih := ih (Nat.le_of_succ_le hn)
    rcases tally_after_succ (List.getElem?_eq_getElem hn) with
      ⟨hk, he⟩ | ⟨languages, hk, ⟨hc, he⟩ | ⟨hc, he⟩⟩
    · rw [he, ih]
      simp only [Nat.count_succ, if_neg (not_countsFor_of_none hk), Nat.add_zero]
    · rw [he, Tally.see, ih]
      simp only [Nat.count_succ, countsFor_iff hk, hc, and_false, if_false, Nat.add_zero]
    · have hcounts : (((after tokens n).tally.see languages).hitFamily
          (languages.filter cFamily.contains) tokens[n].text).counts = _ :=
        (Tally.hitFamily_rest _ _ _).2.2.trans ih
      rw [he, Tally.counts_hit _ _ hcounts]
      simp only [Nat.count_succ, countsFor_iff hk, hc, and_true]

/-- A keyword is seen wherever it stands. -/
theorem seen_after_succ {languages : List Language} (hn : n < tokens.length)
    (hk : keywordAt tokens n = some languages) :
    (after tokens (n + 1)).tally.tokens = (after tokens n).tally.tokens + 1 ∧
      (after tokens (n + 1)).tally.languages =
        Language.union (after tokens n).tally.languages languages := by
  rcases tally_after_succ (List.getElem?_eq_getElem hn) with
    ⟨hnone, _⟩ | ⟨more, hmore, hcases⟩
  · exact nomatch hnone.symm.trans hk
  · obtain rfl := Option.some.inj (hk.symm.trans hmore)
    rcases hcases with ⟨_, he⟩ | ⟨_, he⟩
    · exact ⟨by rw [he]; rfl, by rw [he]; rfl⟩
    · obtain ⟨htokens, hlanguages, _⟩ := Tally.hitFamily_rest
        ((after tokens n).tally.see languages) (languages.filter cFamily.contains) tokens[n].text
      exact ⟨by rw [he, Tally.hit, htokens]; rfl, by rw [he, Tally.hit, hlanguages]; rfl⟩

theorem tally_after_of_none (hn : n < tokens.length) (hk : keywordAt tokens n = none) :
    (after tokens (n + 1)).tally = (after tokens n).tally := by
  rcases tally_after_succ (List.getElem?_eq_getElem hn) with ⟨_, he⟩ | ⟨_, hsome, _⟩
  · exact he
  · exact nomatch hk.symm.trans hsome

theorem tokens_after (hn : n ≤ tokens.length) :
    (after tokens n).tally.tokens = Nat.count (fun i => (keywordAt tokens i).isSome) n := by
  induction n with
  | zero => rfl
  | succ n ih =>
    have ih := ih (Nat.le_of_succ_le hn)
    rw [Nat.count_succ, ← ih]
    cases hk : keywordAt tokens n with
    | none => rw [tally_after_of_none hn hk]; rfl
    | some languages => exact (seen_after_succ hn hk).1

theorem languages_after (hn : n ≤ tokens.length) (l : Language) :
    l ∈ (after tokens n).tally.languages ↔
      ∃ i < n, ∃ languages ∈ keywordAt tokens i, l ∈ languages := by
  induction n with
  | zero => exact iff_of_false List.not_mem_nil fun ⟨i, hi, _⟩ => nomatch hi
  | succ n ih =>
    have ih := ih (Nat.le_of_succ_le hn)
    rw [Nat.exists_lt_succ_right, ← ih]
    cases hk : keywordAt tokens n with
    | none =>
      rw [tally_after_of_none hn hk]
      simp
    | some languages =>
      rw [(seen_after_succ hn hk).2, Tally.mem_union]
      simp

end Tallies

end Reading

/-- Every token has a byte of its own. -/
theorem Token.length_scanFrom_le (first : Bool) (s : List UInt8) :
    (scanFrom first s).length ≤ s.length := by
  fun_induction scanFrom first s with
  | case1 first s => exact Nat.zero_le _
  | case2 first s gap b body hs rest ih =>
    have hbody : body.length + 1 ≤ s.length := by
      rw [← List.length_cons, ← hs]
      exact (List.dropWhile_sublist _).length_le
    have hrest : rest.length ≤ body.length := (List.dropWhile_sublist _).length_le
    rw [List.length_cons]
    omega

namespace Tally
open Reading Token

theorem scan_eq_after (s : List UInt8) :
    scan s = (after (Token.scan s) (Token.scan s).length).tally := by
  rw [after, List.take_length]
  rfl

/-- A tally counts what stands outside comments. No comment is of both kinds; the hits for a
language are the keywords of that language outside comments, together with those in comments that
are of no language of the C family; and keywords are seen, with their languages, wherever they
stand. A keyword is a word of the list, and has the languages it is listed with. No count exceeds
the size of the text. -/
theorem scan_ignores_comments (s : List UInt8) :
    (∀ n, ¬ ((after (Token.scan s) n).inLine = true ∧ (after (Token.scan s) n).inBlock = true)) ∧
    (scan s).counts = Language.all.map (fun l =>
      Nat.count (CountsFor (Token.scan s) l) (Token.scan s).length) ∧
    (scan s).tokens =
      Nat.count (fun i => (keywordAt (Token.scan s) i).isSome) (Token.scan s).length ∧
    (∀ l, l ∈ (scan s).languages ↔ ∃ i < (Token.scan s).length,
      ∃ languages ∈ keywordAt (Token.scan s) i, l ∈ languages) ∧
    (∀ i languages, keywordAt (Token.scan s) i = some languages ↔
      ∃ entry ∈ Language.keywords, Reads (Token.scan s) i entry.1 ∧ entry.2 = languages) ∧
    ∀ n ∈ (scan s).counts, n ≤ s.length := by
  have hcounts := counts_after (Nat.le_refl (Token.scan s).length)
  rw [scan_eq_after]
  refine ⟨not_both _, hcounts, tokens_after (Nat.le_refl _), languages_after (Nat.le_refl _),
    fun _ _ => keywordAt_eq_some_iff, ?_⟩
  intro n hn
  rw [hcounts] at hn
  obtain ⟨l, _, rfl⟩ := List.mem_map.mp hn
  exact Nat.le_trans (Nat.count_le _) (Token.length_scanFrom_le true s)

/-- The last word of a line comment counts, since a newline follows it. -/
example : (scan (Byte.ascii "// struct extern\n/* struct // */ int\n")).count .c = 4 := by
  decide +kernel

end Tally

end ContentType
