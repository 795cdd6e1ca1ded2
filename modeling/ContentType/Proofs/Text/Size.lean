import ContentType.Proofs.Text.Utf8

namespace ContentType.Utf8

/-- How many ill-formed pieces there are. -/
def gaps (s : List UInt8) : Nat :=
  (decode s).count none

variable {s : List UInt8}

/-- All bytes that a lead byte announces are read, or else fewer. -/
theorem length_follow (n : Nat) (low high : UInt8) (bits : Nat) (s : List UInt8) :
    ((follow n low high bits s).1.isSome →
      s.length = (follow n low high bits s).2.length + n) ∧
    ((follow n low high bits s).1 = none →
      s.length < (follow n low high bits s).2.length + n) := by
  induction n generalizing low high bits s with
  | zero => simp [follow]
  | succ n ih =>
    cases s with
    | nil => simp [follow]
    | cons c s =>
      rw [follow]
      split
      · obtain ⟨hsome, hnone⟩ := ih 0x80 0xbf (bits * 64 + (c.toNat - 0x80)) s
        rw [List.length_cons]
        exact ⟨fun h => by have := hsome h; omega, fun h => by have := hnone h; omega⟩
      · simp

theorem lead_following {b : UInt8} {l : Lead} (hl : lead? b = some l) : l.following ≤ 3 := by
  unfold lead? at hl
  dsimp only at hl
  repeat' split at hl
  all_goals cases hl <;> simp

theorem utf8Size_charOfNat {v : Nat} (h : v.isValidChar) :
    (Char.ofNat v).utf8Size =
      if v < 0x80 then 1 else if v < 0x800 then 2 else if v < 0x10000 then 3 else 4 := by
  have hv : (Char.ofNat v).val.toNat = v := toNat_charOfNat h
  have hone : (UInt32.ofNatLT 127 (by decide)).toNat = 0x7f := by decide
  have htwo : (UInt32.ofNatLT 2047 (by decide)).toNat = 0x7ff := by decide
  have hthree : (UInt32.ofNatLT 65535 (by decide)).toNat = 0xffff := by decide
  simp only [Char.utf8Size, UInt32.le_iff_toNat_le, hv, hone, htwo, hthree, ← Nat.lt_succ_iff]

/-- A character is as large as what it is read from, and no gap is larger than three bytes. -/
theorem size_step (b : UInt8) (s : List UInt8) :
    (∀ c, (step b s).1 = some c → s.length + 1 = (step b s).2.length + c.utf8Size) ∧
    ((step b s).1 = none → s.length + 1 ≤ (step b s).2.length + 3) := by
  unfold step
  split
  · rename_i hb
    have hlt : b.toNat < 0x80 := by simpa [UInt8.lt_iff_toNat_lt] using hb
    refine ⟨fun c hc => ?_, nofun⟩
    cases hc
    rw [utf8Size_charOfNat (Or.inl (by omega)), if_pos hlt]
  · split
    · exact ⟨nofun, fun _ => by simp⟩
    · rename_i l hl
      obtain ⟨hsome, hnone⟩ := length_follow l.following l.low l.high l.bits s
      dsimp only
      cases hv : (follow l.following l.low l.high l.bits s).1 with
      | none =>
        have hfollowing := lead_following hl
        have hshort := hnone hv
        exact ⟨nofun, fun _ => by omega⟩
      | some v =>
        obtain ⟨hle, hvalid, hsize⟩ := lead_range hl hv
        have hlength := hsome (by rw [hv]; rfl)
        refine ⟨fun c hc => ?_, nofun⟩
        cases hc
        rw [hlength, utf8Size_charOfNat hvalid]
        repeat' split
        all_goals omega

/-- What is decoded takes no fewer bytes than it was read from, and at most two more for each
gap. -/
theorem size_decodeLossy (s : List UInt8) :
    s.length ≤ (decodeLossy s).utf8ByteSize ∧
      (decodeLossy s).utf8ByteSize ≤ s.length + 2 * gaps s ∧ gaps s ≤ s.length := by
  have hgap : ('\ufffd').utf8Size = 3 := by decide
  rw [← length_encode]
  induction s using decode.induct with
  | case1 => simp [encode_decodeLossy_nil, gaps, decode_nil]
  | case2 b s ih =>
    obtain ⟨hsome, hnone⟩ := size_step b s
    have hrest := length_step_le b s
    have hgaps : gaps (b :: s) = gaps (step b s).2 + if (step b s).1 = none then 1 else 0 := by
      simp [gaps, decode_cons, List.count_cons]
    rw [encode_decodeLossy_cons, List.length_append, String.length_utf8EncodeChar, hgaps,
      List.length_cons]
    cases hc : (step b s).1 with
    | none =>
      have hlength := hnone hc
      rw [Option.getD_none, hgap, if_pos rfl]
      omega
    | some c =>
      have hlength := hsome c hc
      rw [Option.getD_some, if_neg nofun]
      omega

theorem decodeLossy_of_ascii (h : ∀ b ∈ s, b < 0x80) : encode (decodeLossy s) = s := by
  induction s with
  | nil => exact encode_decodeLossy_nil
  | cons b s ih =>
    obtain ⟨hb, hs⟩ := List.forall_mem_cons.mp h
    rw [encode_decodeLossy_ascii hb, ih hs]

section Cuts

variable {cs : List Char} {t front tail : List UInt8}

/-- Bytes that are cut off before the last one that is announced make no character. -/
theorem follow_cut {n : Nat} {low high : UInt8} {bits v : Nat}
    (h : follow n low high bits (front ++ s) = (some v, s)) (ht : t <+: front) (hne : t ≠ front) :
    follow n low high bits t = (none, []) := by
  induction n generalizing front t low high bits with
  | zero =>
    have hfront : front = [] := List.append_left_eq_self.mp (Prod.mk.inj h).2
    subst hfront
    exact absurd (List.prefix_nil.mp ht) hne
  | succ n ih =>
    cases front with
    | nil => exact absurd (List.prefix_nil.mp ht) hne
    | cons c front =>
      rw [List.cons_append, follow] at h
      split at h
      · rename_i hrange
        rcases List.prefix_cons_iff.mp ht with rfl | ⟨more, rfl, hmore⟩
        · rfl
        · rw [follow, if_pos hrange]
          exact ih h hmore fun he => hne (congrArg (List.cons c) he)
      · cases h

/-- A character that is cut off is a single gap. -/
theorem decode_cut {c : Char} (ht : t <+: String.utf8EncodeChar c)
    (hne : t ≠ String.utf8EncodeChar c) (hnil : t ≠ []) : decode t = [none] := by
  obtain ⟨b, tail, hbytes, hstep⟩ := step_utf8EncodeChar c
  rw [hbytes] at ht hne
  rcases List.prefix_cons_iff.mp ht with rfl | ⟨more, rfl, hmore⟩
  · exact absurd rfl hnil
  · have hcut : more ≠ tail := fun he => hne (congrArg (List.cons b) he)
    have hwhole := hstep []
    suffices hgap : step b more = (none, []) by rw [decode_cons, hgap, decode_nil]
    unfold step at hwhole ⊢
    split at hwhole
    · -- An ASCII character has no second byte.
      have htail : tail = [] := List.append_eq_nil_iff.mp (Prod.mk.inj hwhole).2 |>.1
      rw [htail] at hmore hcut
      exact absurd (List.prefix_nil.mp hmore) hcut
    · rename_i hb
      rw [if_neg hb]
      cases hl : lead? b with
      | none =>
        rw [hl] at hwhole
        cases hwhole
      | some l =>
        rw [hl] at hwhole
        obtain ⟨hchar, hrest⟩ := Prod.mk.inj hwhole
        obtain ⟨v, hv, -⟩ := Option.map_eq_some_iff.mp hchar
        dsimp only
        rw [follow_cut (Prod.ext hv hrest) hmore hcut]
        rfl

theorem gaps_cut (h : t <+: cs.flatMap String.utf8EncodeChar) : gaps t ≤ 1 := by
  induction cs generalizing t with
  | nil =>
    rw [List.flatMap_nil, List.prefix_nil] at h
    simp [h, gaps, decode_nil]
  | cons c cs ih =>
    rw [List.flatMap_cons] at h
    rcases List.prefix_or_prefix_of_prefix h (List.prefix_append _ _) with ht | ⟨more, rfl⟩
    · by_cases hnil : t = []
      · simp [hnil, gaps, decode_nil]
      · by_cases hwhole : t = String.utf8EncodeChar c
        · have hdecode := decode_utf8EncodeChar [] c
          rw [List.append_nil, decode_nil, ← hwhole] at hdecode
          simp [gaps, hdecode]
        · simp [gaps, decode_cut ht hwhole hnil]
    · have hmore := ih ((List.prefix_append_right_inj _).mp h)
      rw [gaps, decode_utf8EncodeChar]
      simpa [gaps] using hmore

/-- All bytes of a character with more than one byte are past the ASCII ones. -/
theorem not_ascii_of_split {c : Char} (h : String.utf8EncodeChar c = front ++ tail)
    (hfront : front ≠ []) (htail : tail ≠ []) {b : UInt8} (hb : b ∈ front ++ tail) :
    ¬ b < 0x80 := by
  rw [← h] at hb
  by_cases hc : c.toNat < 0x80
  · rw [utf8EncodeChar_ascii hc] at h
    rcases List.append_eq_singleton_iff.mp h.symm with ⟨hnil, _⟩ | ⟨_, hnil⟩
    · exact absurd hnil hfront
    · exact absurd hnil htail
  · have hle := le_of_mem_utf8EncodeChar (Nat.le_of_not_lt hc) hb
    rw [UInt8.lt_iff_toNat_lt]
    exact Nat.not_lt.mpr hle

/-- A text that is split next to an ASCII byte is split between two characters. -/
theorem flatMap_of_append (h : cs.flatMap String.utf8EncodeChar = front ++ tail)
    (hascii : (∀ b, front.getLast? = some b → b < 0x80) ∨ ∀ b, tail.head? = some b → b < 0x80) :
    ∃ ds es : List Char, front = ds.flatMap String.utf8EncodeChar ∧
      tail = es.flatMap String.utf8EncodeChar := by
  induction cs generalizing front with
  | nil =>
    obtain ⟨rfl, rfl⟩ := List.append_eq_nil_iff.mp h.symm
    exact ⟨[], [], rfl, rfl⟩
  | cons c cs ih =>
    rw [List.flatMap_cons] at h
    rcases List.append_eq_append_iff.mp h with ⟨more, rfl, hmore⟩ | ⟨part, hpart, rfl⟩
    · have hlast : ∀ b, more.getLast? = some b →
          (String.utf8EncodeChar c ++ more).getLast? = some b := by
        intro b hb
        rw [List.getLast?_append, hb, Option.some_or]
      obtain ⟨ds, es, rfl, rfl⟩ := ih hmore (hascii.imp_left fun hall b hb => hall b (hlast b hb))
      exact ⟨c :: ds, es, by rw [List.flatMap_cons], rfl⟩
    · by_cases hfront : front = []
      · exact ⟨[], c :: cs, hfront, by rw [List.flatMap_cons, hpart, hfront, List.nil_append]⟩
      · by_cases hnil : part = []
        · refine ⟨[c], cs, ?_, by rw [hnil, List.nil_append]⟩
          rw [List.flatMap_singleton, hpart, hnil, List.append_nil]
        · -- Neither of the two bytes at the split is an ASCII one.
          have hpast := fun {b} => not_ascii_of_split (b := b) hpart hfront hnil
          rcases hascii with hall | hall
          · have hlast := List.getLast?_eq_some_getLast hfront
            exact absurd (hall _ hlast)
              (hpast (List.mem_append_left _ (List.getLast_mem hfront)))
          · obtain ⟨b, more, rfl⟩ := List.exists_cons_of_ne_nil hnil
            exact absurd (hall b rfl) (hpast (List.mem_append_right _ List.mem_cons_self))

end Cuts

end ContentType.Utf8
