import ContentType.Guess.Token
import ContentType.Proofs.Byte

namespace ContentType

section Extract

variable {p : UInt8 → Bool} {s : List UInt8} {lo hi pos i : Nat} {b : UInt8}

theorem mem_extract_iff : b ∈ s.extract lo hi ↔ ∃ i, lo ≤ i ∧ i < hi ∧ s[i]? = some b := by
  rw [List.extract, List.mem_iff_getElem?]
  constructor
  · intro h
    obtain ⟨k, hk⟩ := h
    rw [List.getElem?_take, List.getElem?_drop] at hk
    split at hk
    · exact ⟨lo + k, by omega, by omega, hk⟩
    · cases hk
  · intro h
    obtain ⟨i, hlo, hhi, hb⟩ := h
    refine ⟨i - lo, ?_⟩
    rw [List.getElem?_take_of_lt (by omega), List.getElem?_drop, Nat.add_sub_cancel' hlo, hb]

/-- Where the run of a class that begins at an index ends. -/
def runEnd (p : UInt8 → Bool) (s : List UInt8) (pos : Nat) : Nat :=
  pos + ((s.drop pos).takeWhile p).length

theorem le_runEnd (p : UInt8 → Bool) (s : List UInt8) (pos : Nat) : pos ≤ runEnd p s pos :=
  Nat.le_add_right _ _

theorem takeWhile_drop (p : UInt8 → Bool) (s : List UInt8) (pos : Nat) :
    (s.drop pos).takeWhile p = s.extract pos (runEnd p s pos) := by
  rw [List.extract, runEnd, Nat.add_sub_cancel_left]
  exact List.prefix_iff_eq_take.mp (List.takeWhile_prefix p)

theorem dropWhile_drop (p : UInt8 → Bool) (s : List UInt8) (pos : Nat) :
    (s.drop pos).dropWhile p = s.drop (runEnd p s pos) := by
  have hsplit := List.takeWhile_append_dropWhile (p := p) (l := s.drop pos)
  rw [runEnd, ← List.drop_drop]
  conv => rhs; arg 2; rw [← hsplit]
  rw [List.drop_left]

theorem mem_run (hi : pos ≤ i) (hend : i < runEnd p s pos) : ∃ b, s[i]? = some b ∧ p b = true := by
  have hsize : ((s.drop pos).takeWhile p).length ≤ s.length - pos := by
    rw [← List.length_drop]
    exact (List.takeWhile_sublist p).length_le
  have hlt : i < s.length := by
    rw [runEnd] at hend
    omega
  have hget := List.getElem?_eq_getElem hlt
  refine ⟨s[i], hget, mem_takeWhile (s := s.drop pos) ?_⟩
  rw [takeWhile_drop]
  exact mem_extract_iff.mpr ⟨i, hi, hend, hget⟩

theorem run_stops (hb : s[runEnd p s pos]? = some b) : p b = false := by
  have hstop := stops_dropWhile p (s.drop pos)
  rw [dropWhile_drop] at hstop
  exact hstop b (by rw [List.head?_drop, hb])

end Extract

namespace Token

/-- A byte that is no delimiter stands at an index. -/
def PlainAt (s : List UInt8) (i : Nat) : Prop :=
  ∃ b, s[i]? = some b ∧ isDelimiter b = false

/-- A longest run of bytes that are no delimiter, from one index up to another. -/
structure IsRun (s : List UInt8) (start stop : Nat) : Prop where
  nonempty : start < stop
  plain : ∀ i, start ≤ i → i < stop → PlainAt s i
  opened : ∀ i, i + 1 = start → ¬ PlainAt s i
  closed : ¬ PlainAt s stop

section Runs

variable {s : List UInt8} {start stop : Nat}

/-- Two runs that meet are the same. -/
theorem IsRun.eq_of_lt {start' stop' : Nat} (h : IsRun s start stop) (h' : IsRun s start' stop')
    (hlt : start' < stop) (hlt' : start < stop') : start = start' ∧ stop = stop' := by
  have hstart : start = start' := by
    rcases Nat.lt_trichotomy start start' with hs | hs | hs
    · exact absurd (h.plain (start' - 1) (by omega) (by omega)) (h'.opened _ (by omega))
    · exact hs
    · exact absurd (h'.plain (start - 1) (by omega) (by omega)) (h.opened _ (by omega))
  refine ⟨hstart, ?_⟩
  rcases Nat.lt_trichotomy stop stop' with hs | hs | hs
  · exact absurd (h'.plain stop (by omega) hs) h.closed
  · exact hs
  · exact absurd (h.plain stop' (by omega) hs) h'.closed

/-- Between two runs there is a delimiter. -/
theorem IsRun.lt_of_le {start' stop' : Nat} (h : IsRun s start stop) (h' : IsRun s start' stop')
    (hle : stop ≤ start') : stop < start' := by
  refine Nat.lt_of_le_of_ne hle fun he => h.closed ?_
  rw [he]
  exact h'.plain start' (Nat.le_refl _) h'.nonempty

theorem IsRun.extract_ne_nil (h : IsRun s start stop) : s.extract start stop ≠ [] := by
  obtain ⟨b, hb, _⟩ := h.plain start (Nat.le_refl _) h.nonempty
  exact List.ne_nil_of_mem (mem_extract_iff.mpr ⟨start, Nat.le_refl _, h.nonempty, hb⟩)

end Runs

/-- Tokens of the rest of a text, told by their places in it: they are the runs from an index on. A
token starts a line as the very first one, for a newline in the gap in front of it, or for one
right behind it. -/
structure Placed (s : List UInt8) (first : Bool) (pos : Nat) (places : List (Nat × Nat))
    (tokens : List Token) : Prop where
  mem : ∀ start stop, (start, stop) ∈ places ↔ pos ≤ start ∧ IsRun s start stop
  ordered : places.Pairwise (fun p q => p.2 < q.1)
  texts : tokens.map text = places.map (fun p => s.extract p.1 p.2)
  flags : ∀ n t gap start stop, tokens[n]? = some t →
    (pos :: places.map Prod.snd)[n]? = some gap → places[n]? = some (start, stop) →
    (t.startsLine = true ↔ n = 0 ∧ first = true ∨
      (∃ i, gap ≤ i ∧ i < start ∧ s[i]? = some 0x0a) ∨ s[stop]? = some 0x0a)

section Scan

variable {s : List UInt8} {pos start stop : Nat} {first : Bool}

theorem Placed.nil (h : ∀ i, pos ≤ i → ¬ PlainAt s i) : Placed s first pos [] [] := by
  refine ⟨fun start stop => ?_, .nil, rfl, nofun⟩
  constructor
  · exact nofun
  · intro hx
    obtain ⟨hpos, hrun⟩ := hx
    exact absurd (hrun.plain start (Nat.le_refl _) hrun.nonempty) (h start hpos)

/-- The first run behind a gap, and the tokens behind that run. -/
theorem Placed.cons {places : List (Nat × Nat)} {tokens : List Token} (hpos : pos ≤ start)
    (hgap : ∀ i, pos ≤ i → i < start → ¬ PlainAt s i) (hrun : IsRun s start stop)
    (h : Placed s false stop places tokens) :
    Placed s first pos ((start, stop) :: places)
      (⟨s.extract start stop, first || (s.extract pos start).contains 0x0a ||
        s[stop]? == some 0x0a⟩ :: tokens) := by
  refine ⟨fun start' stop' => ?_, ?_, by rw [List.map_cons, List.map_cons, h.texts], ?_⟩
  · rw [List.mem_cons, Prod.mk.injEq, h.mem]
    constructor
    · intro hx
      rcases hx with ⟨rfl, rfl⟩ | ⟨hle, hother⟩
      · exact ⟨hpos, hrun⟩
      · exact ⟨by have := hrun.nonempty; omega, hother⟩
    · intro hx
      obtain ⟨hle, hother⟩ := hx
      have hstart : start ≤ start' := Nat.le_of_not_lt fun hlt =>
        hgap start' hle hlt (hother.plain start' (Nat.le_refl _) hother.nonempty)
      by_cases hlt : start' < stop
      · have hnonempty := hother.nonempty
        obtain ⟨rfl, rfl⟩ := hother.eq_of_lt hrun (by omega) hlt
        exact Or.inl ⟨rfl, rfl⟩
      · exact Or.inr ⟨Nat.le_of_not_lt hlt, hother⟩
  · refine List.pairwise_cons.mpr ⟨fun place hplace => ?_, h.ordered⟩
    obtain ⟨hle, hother⟩ := (h.mem _ _).mp hplace
    exact hrun.lt_of_le hother hle
  · intro n t gap start' stop' ht hgap' hplace
    cases n with
    | zero =>
      obtain rfl := Option.some.inj ht
      obtain rfl := Option.some.inj hgap'
      obtain ⟨rfl, rfl⟩ := Prod.mk.inj (Option.some.inj hplace)
      simp [mem_extract_iff, or_assoc]
    | succ n =>
      have hflags := h.flags n t gap start' stop' ht hgap' hplace
      simpa using hflags

theorem not_plainAt_gap {i : Nat} (hi : pos ≤ i) (hend : i < runEnd isDelimiter s pos) :
    ¬ PlainAt s i := by
  intro hplain
  obtain ⟨b, hb, hdelimiter⟩ := mem_run hi hend
  obtain ⟨c, hc, hno⟩ := hplain
  obtain rfl := Option.some.inj (hb.symm.trans hc)
  rw [hdelimiter] at hno
  cases hno

theorem isRun_runEnd (hopened : ∀ i, i + 1 = start → ¬ PlainAt s i) (hplain : PlainAt s start) :
    IsRun s start (runEnd (fun b => !isDelimiter b) s start) := by
  have hclosed : ¬ PlainAt s (runEnd (fun b => !isDelimiter b) s start) := by
    intro hgoes
    obtain ⟨b, hb, hno⟩ := hgoes
    have hstop := run_stops (p := fun b => !isDelimiter b) hb
    simp [hno] at hstop
  refine ⟨Nat.lt_of_le_of_ne (le_runEnd _ s start) fun he => hclosed (he ▸ hplain), ?_, hopened,
    hclosed⟩
  intro i hi hend
  obtain ⟨b, hb, hpass⟩ := mem_run hi hend
  exact ⟨b, hb, by simpa using hpass⟩

/-- What a scan does between two tokens: it passes the gap and takes the run behind it, if there is
one. Where it stands, no token goes on. -/
theorem scanFrom_cases (first : Bool) (hpos : pos = 0 ∨ ¬ PlainAt s pos) :
    (scanFrom first (s.drop pos) = [] ∧ ∀ i, pos ≤ i → ¬ PlainAt s i) ∨
    (∃ start stop, pos ≤ start ∧ (∀ i, pos ≤ i → i < start → ¬ PlainAt s i) ∧
      IsRun s start stop ∧
      scanFrom first (s.drop pos) =
        ⟨s.extract start stop, first || (s.extract pos start).contains 0x0a ||
          s[stop]? == some 0x0a⟩ :: scanFrom false (s.drop stop)) := by
  have hgap : ∀ i, pos ≤ i → i < runEnd isDelimiter s pos → ¬ PlainAt s i :=
    fun _ => not_plainAt_gap
  have hle := le_runEnd isDelimiter s pos
  rw [scanFrom, takeWhile_drop]
  generalize hstart : runEnd isDelimiter s pos = start at hgap hle
  split
  · rename_i hnil
    rw [dropWhile_drop, hstart, List.drop_eq_nil_iff] at hnil
    refine Or.inl ⟨rfl, fun i hi => ?_⟩
    by_cases hlt : i < start
    · exact hgap i hi hlt
    · rintro ⟨b, hb, _⟩
      have := (List.getElem?_eq_some_iff.mp hb).1
      omega
  · rename_i b body hcons
    rw [dropWhile_drop, hstart] at hcons
    have hfirst : s[start]? = some b := by rw [← List.head?_drop, hcons, List.head?_cons]
    have hb : isDelimiter b = false := run_stops (hstart ▸ hfirst)
    have hopened : ∀ i, i + 1 = start → ¬ PlainAt s i := by
      intro i hi
      rcases Nat.lt_or_eq_of_le hle with hlt | rfl
      · exact hgap i (by omega) (by omega)
      · rcases hpos with hzero | hno
        · omega
        · exact absurd ⟨b, hfirst, hb⟩ hno
    have hrun := isRun_runEnd hopened ⟨b, hfirst, hb⟩
    have hpass : (fun b => !isDelimiter b) b = true := by simp [hb]
    have hbody : body.dropWhile (fun b => !isDelimiter b) =
        s.drop (runEnd (fun b => !isDelimiter b) s start) := by
      rw [← dropWhile_drop, hcons, List.dropWhile_cons_of_pos (p := fun b => !isDelimiter b) hpass]
    have htext : b :: body.takeWhile (fun b => !isDelimiter b) =
        s.extract start (runEnd (fun b => !isDelimiter b) s start) := by
      rw [← takeWhile_drop, hcons, List.takeWhile_cons_of_pos (p := fun b => !isDelimiter b) hpass]
    refine Or.inr ⟨start, _, hle, hgap, hrun, ?_⟩
    rw [← htext, ← List.head?_drop, ← hbody]

end Scan

/-- Each token leaves less of the text to scan. -/
theorem placed_scanFrom {s : List UInt8} (first : Bool) (pos : Nat)
    (hpos : pos = 0 ∨ ¬ PlainAt s pos) :
    ∃ places, Placed s first pos places (scanFrom first (s.drop pos)) := by
  rcases scanFrom_cases first hpos with ⟨hscan, hnone⟩ | ⟨start, stop, hle, hgap, hrun, hscan⟩
  · rw [hscan]
    exact ⟨[], .nil hnone⟩
  · have hstart : start < s.length := by
      obtain ⟨b, hb, _⟩ := hrun.plain start (Nat.le_refl _) hrun.nonempty
      exact (List.getElem?_eq_some_iff.mp hb).1
    have hlt := hrun.nonempty
    obtain ⟨places, hplaces⟩ := placed_scanFrom false stop (Or.inr hrun.closed)
    rw [hscan]
    exact ⟨(start, stop) :: places, .cons hle hgap hrun hplaces⟩
termination_by s.length - pos

theorem filter_split (p q : UInt8 → Bool) (s : List UInt8) :
    s.filter p = (s.takeWhile q).filter p ++ (s.dropWhile q).filter p := by
  rw [← List.filter_append, List.takeWhile_append_dropWhile]

theorem filter_gap (s : List UInt8) :
    s.filter (fun b => !isDelimiter b) =
      (s.dropWhile isDelimiter).filter (fun b => !isDelimiter b) := by
  have hgap : (s.takeWhile isDelimiter).filter (fun b => !isDelimiter b) = [] :=
    List.filter_eq_nil_iff.mpr fun b hb => by simp [mem_takeWhile hb]
  rw [filter_split _ isDelimiter, hgap, List.nil_append]

theorem filter_run (p : UInt8 → Bool) (s : List UInt8) :
    s.filter p = s.takeWhile p ++ (s.dropWhile p).filter p := by
  have hrun : (s.takeWhile p).filter p = s.takeWhile p :=
    List.filter_eq_self.mpr fun _ => mem_takeWhile
  rw [filter_split p p, hrun]

theorem flatten_scanFrom (first : Bool) (s : List UInt8) :
    ((scanFrom first s).map text).flatten = s.filter (fun b => !isDelimiter b) := by
  fun_induction scanFrom first s with
  | case1 first s hnil =>
    rw [filter_gap, hnil]
    rfl
  | case2 first s gap b body hcons rest ih =>
    have hb : isDelimiter b = false := by
      have hstop := stops_dropWhile isDelimiter s
      rwa [hcons, stops_cons] at hstop
    rw [filter_gap, hcons, List.filter_cons, hb, filter_run _ body, ← ih]
    rfl

/-- The tokens of a text are its longest runs of bytes that are no delimiter, each once and in
order. One starts a line when it is the first, when a newline lies between the token before and
itself, or when the byte right behind it is a newline. -/
theorem scan_runs (s : List UInt8) :
    ∃ places : List (Nat × Nat),
      (∀ start stop, (start, stop) ∈ places ↔ IsRun s start stop) ∧
      places.Pairwise (fun p q => p.2 < q.1) ∧
      (scan s).map text = places.map (fun p => s.extract p.1 p.2) ∧
      (∀ t ∈ scan s, t.text ≠ []) ∧
      ((scan s).map text).flatten = s.filter (fun b => !isDelimiter b) ∧
      ∀ n t start stop, (scan s)[n]? = some t → places[n]? = some (start, stop) →
        (t.startsLine = true ↔ n = 0 ∨
          (∃ m place i, n = m + 1 ∧ places[m]? = some place ∧ place.2 ≤ i ∧ i < start ∧
            s[i]? = some 0x0a) ∨
          s[stop]? = some 0x0a) := by
  obtain ⟨places, hplaces⟩ : ∃ places, Placed s true 0 places (scan s) :=
    placed_scanFrom true 0 (Or.inl rfl)
  have hmem : ∀ start stop, (start, stop) ∈ places ↔ IsRun s start stop := fun start stop => by
    rw [hplaces.mem, and_iff_right (Nat.zero_le _)]
  refine ⟨places, hmem, hplaces.ordered, hplaces.texts, ?_, flatten_scanFrom true s, ?_⟩
  · intro t ht
    have htext := List.mem_map_of_mem (f := text) ht
    rw [hplaces.texts] at htext
    obtain ⟨⟨start, stop⟩, hplace, he⟩ := List.mem_map.mp htext
    rw [← he]
    exact ((hmem start stop).mp hplace).extract_ne_nil
  · intro n t start stop ht hplace
    cases n with
    | zero =>
      have hflags := hplaces.flags 0 t 0 start stop ht rfl hplace
      simp [hflags]
    | succ m =>
      have hlt : m < places.length := Nat.lt_of_succ_lt (List.getElem?_eq_some_iff.mp hplace).1
      have hm := List.getElem?_eq_getElem hlt
      have hgap : (0 :: places.map Prod.snd)[m + 1]? = some places[m].2 := by
        rw [List.getElem?_cons_succ, List.getElem?_map, hm, Option.map_some]
      rw [hplaces.flags (m + 1) t _ start stop ht hgap hplace]
      simp [hm, -Prod.exists]

/-- The first newline starts a line for the token in front of it and for the one behind it. -/
example : (scan (Byte.ascii "a b\nc d\r\n\n e")).map startsLine =
    [true, true, true, false, true] := by
  decide +kernel

end Token

end ContentType
