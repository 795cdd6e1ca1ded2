import ContentType.Text.Utf8
import Mathlib.Algebra.Group.Nat.Defs

namespace ContentType.Utf8

section Characters

variable {v : Nat} (s : List UInt8)

theorem toNat_ofNat {n : Nat} (h : n < 256) : (UInt8.ofNat n).toNat = n := by
  rw [UInt8.toNat_ofNat', Nat.mod_eq_of_lt h]

theorem follow_next {low high : UInt8} {d : Nat} (h : d < 64)
    (hrange : low.toNat ≤ d + 0x80 ∧ d + 0x80 ≤ high.toNat) (n bits : Nat) :
    follow (n + 1) low high bits (UInt8.ofNat (d + 0x80) :: s) =
      follow n 0x80 0xbf (bits * 64 + d) s := by
  have hd : (UInt8.ofNat (d + 0x80)).toNat = d + 0x80 := toNat_ofNat (by omega)
  rw [follow, if_pos (by rwa [UInt8.le_iff_toNat_le, UInt8.le_iff_toNat_le, hd]), hd,
    Nat.add_sub_cancel]

theorem step_of_lead {n : Nat} (hn : n < 256) (h : 0x80 ≤ n) {l : Lead}
    (hl : lead? (UInt8.ofNat n) = some l) :
    step (UInt8.ofNat n) s =
      ((follow l.following l.low l.high l.bits s).1.map Char.ofNat,
        (follow l.following l.low l.high l.bits s).2) := by
  have hb : ¬ UInt8.ofNat n < 0x80 := by
    rw [UInt8.lt_iff_toNat_lt, toNat_ofNat hn]
    exact Nat.not_lt.mpr h
  simp only [step, if_neg hb, hl]

/-- Below its two marking bits a byte that follows may be anything. -/
theorem range_next (n : Nat) :
    (0x80 : UInt8).toNat ≤ n % 64 + 0x80 ∧ n % 64 + 0x80 ≤ (0xbf : UInt8).toNat := by
  have hbounds : (0x80 : UInt8).toNat = 0x80 ∧ (0xbf : UInt8).toNat = 0xbf := by decide
  omega

theorem step_one (h : v < 0x80) : step (UInt8.ofNat v) s = (some (Char.ofNat v), s) := by
  have hv : (UInt8.ofNat v).toNat = v := toNat_ofNat (by omega)
  have hb : UInt8.ofNat v < 0x80 := by
    rw [UInt8.lt_iff_toNat_lt, hv]
    exact h
  rw [step, if_pos hb, hv]

theorem step_two (h : 0x80 ≤ v) (hlt : v < 0x800) :
    step (UInt8.ofNat (v / 64 % 0x20 + 0xc0)) (UInt8.ofNat (v % 0x40 + 0x80) :: s) =
      (some (Char.ofNat v), s) := by
  have hlead : lead? (UInt8.ofNat (v / 64 % 0x20 + 0xc0)) = some ⟨1, 0x80, 0xbf, v / 64⟩ := by
    rw [lead?, toNat_ofNat (by omega), if_pos (by omega), Nat.add_sub_cancel,
      Nat.mod_eq_of_lt (by omega)]
  have hvalue : v / 64 * 64 + v % 64 = v := by omega
  rw [step_of_lead _ (by omega) (by omega) hlead, follow_next _ (by omega) (range_next _), follow,
    hvalue]
  rfl

/-- The second byte of three lies where the first one says, since a character is no surrogate and
is not written longer than it need be. -/
theorem lead_three (h : 0x800 ≤ v) (hlt : v < 0x10000) (hv : v < 0xd800 ∨ 0xdfff < v) :
    ∃ low high, lead? (UInt8.ofNat (v / 4096 % 0x10 + 0xe0)) = some ⟨2, low, high, v / 4096⟩ ∧
      low.toNat ≤ v / 64 % 64 + 0x80 ∧ v / 64 % 64 + 0x80 ≤ high.toNat := by
  have hbounds : (0x80 : UInt8).toNat = 0x80 ∧ (0x9f : UInt8).toNat = 0x9f ∧
      (0xa0 : UInt8).toNat = 0xa0 ∧ (0xbf : UInt8).toNat = 0xbf := by decide
  unfold lead?
  rw [toNat_ofNat (by omega), Nat.mod_eq_of_lt (by omega), if_neg (by omega)]
  by_cases hfirst : v / 4096 = 0
  · exact ⟨0xa0, 0xbf, by rw [if_pos (by omega), hfirst], by omega, by omega⟩
  · rw [if_neg (by omega)]
    by_cases hlast : v / 4096 = 0xd
    · exact ⟨0x80, 0x9f, by rw [if_pos (by omega), Nat.add_sub_cancel], by omega, by omega⟩
    · exact ⟨0x80, 0xbf, by rw [if_neg (by omega), if_pos (by omega), Nat.add_sub_cancel],
        by omega, by omega⟩

theorem lead_four (h : 0x10000 ≤ v) (hlt : v < 0x110000) :
    ∃ low high, lead? (UInt8.ofNat (v / 262144 % 0x08 + 0xf0)) =
        some ⟨3, low, high, v / 262144⟩ ∧
      low.toNat ≤ v / 4096 % 64 + 0x80 ∧ v / 4096 % 64 + 0x80 ≤ high.toNat := by
  have hbounds : (0x80 : UInt8).toNat = 0x80 ∧ (0x8f : UInt8).toNat = 0x8f ∧
      (0x90 : UInt8).toNat = 0x90 ∧ (0xbf : UInt8).toNat = 0xbf := by decide
  unfold lead?
  rw [toNat_ofNat (by omega), Nat.mod_eq_of_lt (by omega), if_neg (by omega), if_neg (by omega),
    if_neg (by omega), if_neg (by omega)]
  by_cases hfirst : v / 262144 = 0
  · exact ⟨0x90, 0xbf, by rw [if_pos (by omega), hfirst], by omega, by omega⟩
  · rw [if_neg (by omega)]
    by_cases hlast : v / 262144 = 4
    · exact ⟨0x80, 0x8f, by rw [if_neg (by omega), if_pos (by omega), Nat.add_sub_cancel],
        by omega, by omega⟩
    · exact ⟨0x80, 0xbf, by rw [if_pos (by omega), Nat.add_sub_cancel], by omega, by omega⟩

theorem step_three (h : 0x800 ≤ v) (hlt : v < 0x10000) (hv : v < 0xd800 ∨ 0xdfff < v) :
    step (UInt8.ofNat (v / 4096 % 0x10 + 0xe0)) (UInt8.ofNat (v / 64 % 0x40 + 0x80) ::
      UInt8.ofNat (v % 0x40 + 0x80) :: s) = (some (Char.ofNat v), s) := by
  obtain ⟨low, high, hlead, hrange⟩ := lead_three h hlt hv
  have hvalue : (v / 4096 * 64 + v / 64 % 64) * 64 + v % 64 = v := by omega
  rw [step_of_lead _ (by omega) (by omega) hlead, follow_next _ (by omega) hrange,
    follow_next _ (by omega) (range_next _), follow, hvalue]
  rfl

theorem step_four (h : 0x10000 ≤ v) (hlt : v < 0x110000) :
    step (UInt8.ofNat (v / 262144 % 0x08 + 0xf0)) (UInt8.ofNat (v / 4096 % 0x40 + 0x80) ::
      UInt8.ofNat (v / 64 % 0x40 + 0x80) :: UInt8.ofNat (v % 0x40 + 0x80) :: s) =
      (some (Char.ofNat v), s) := by
  obtain ⟨low, high, hlead, hrange⟩ := lead_four h hlt
  have hvalue : ((v / 262144 * 64 + v / 4096 % 64) * 64 + v / 64 % 64) * 64 + v % 64 = v := by
    omega
  rw [step_of_lead _ (by omega) (by omega) hlead, follow_next _ (by omega) hrange,
    follow_next _ (by omega) (range_next _), follow_next _ (by omega) (range_next _), follow,
    hvalue]
  rfl

theorem decode_cons (b : UInt8) : decode (b :: s) = (step b s).1 :: decode (step b s).2 := by
  rw [decode]

/-- The bytes of a character are read as this character, whatever follows them. -/
theorem step_utf8EncodeChar (c : Char) :
    ∃ b tail, String.utf8EncodeChar c = b :: tail ∧ ∀ s, step b (tail ++ s) = (some c, s) := by
  have hvalid : c.val.toNat < 0xd800 ∨ 0xdfff < c.val.toNat ∧ c.val.toNat < 0x110000 := c.valid
  have hchar : Char.ofNat c.val.toNat = c := Char.ofNat_toNat c
  unfold String.utf8EncodeChar
  generalize c.val.toNat = v at *
  dsimp only
  rw [← hchar]
  split
  · exact ⟨_, _, rfl, fun s => step_one s (by omega)⟩
  · split
    · exact ⟨_, _, rfl, fun s => step_two s (by omega) (by omega)⟩
    · split
      · exact ⟨_, _, rfl, fun s => step_three s (by omega) (by omega) (by omega)⟩
      · exact ⟨_, _, rfl, fun s => step_four s (by omega) (by omega)⟩

theorem decode_utf8EncodeChar (c : Char) :
    decode (String.utf8EncodeChar c ++ s) = some c :: decode s := by
  obtain ⟨b, tail, hbytes, hstep⟩ := step_utf8EncodeChar c
  rw [hbytes, List.cons_append, decode_cons, hstep]

end Characters

/-- Decoding undoes encoding. -/
theorem decode_encode (cs : List Char) :
    decode (cs.flatMap String.utf8EncodeChar) = cs.map some := by
  induction cs with
  | nil => rw [List.flatMap_nil, decode, List.map_nil]
  | cons c cs ih => rw [List.flatMap_cons, decode_utf8EncodeChar, ih, List.map_cons]

theorem decodeLossy_encode (s : String) : decodeLossy (encode s) = s := by
  rw [decodeLossy, encode, decode_encode, List.map_map]
  change String.ofList (s.toList.map id) = s
  rw [List.map_id, String.ofList_toList]

theorem decode?_encode (s : String) : decode? (encode s) = some s := by
  have hall : (s.toList.map some).mapM id = some s.toList := by
    have hpure := List.mapM_pure (m := Option) (l := s.toList) (f := id)
    rw [List.map_id] at hpure
    rw [List.mapM_map]
    exact hpure
  rw [decode?, encode, decode_encode, hall, Option.map_some, String.ofList_toList]

section Ascii

theorem toNat_toUInt8 {c : Char} (h : c.toNat < 256) : c.toUInt8.toNat = c.toNat := by
  rw [Char.toUInt8, UInt32.toNat_toUInt8]
  exact Nat.mod_eq_of_lt h

theorem utf8EncodeChar_ascii {c : Char} (h : c.toNat < 0x80) :
    String.utf8EncodeChar c = [c.toUInt8] := by
  have hle : c.val.toNat ≤ 0x7f := Nat.le_of_lt_succ h
  rw [String.utf8EncodeChar, if_pos hle]
  rfl

theorem flatMap_ascii {cs : List Char} (h : ∀ c ∈ cs, c.toNat < 0x80) :
    cs.flatMap String.utf8EncodeChar = cs.map Char.toUInt8 := by
  induction cs with
  | nil => rfl
  | cons c cs ih =>
    rw [List.forall_mem_cons] at h
    rw [List.flatMap_cons, utf8EncodeChar_ascii h.1, ih h.2, List.singleton_append, List.map_cons]

theorem utf8EncodeChar_ne_nil (c : Char) : String.utf8EncodeChar c ≠ [] := by
  rw [← List.length_pos_iff, String.length_utf8EncodeChar]
  exact c.utf8Size_pos

theorem le_of_mem_utf8EncodeChar {c : Char} (h : 0x80 ≤ c.toNat) {b : UInt8}
    (hb : b ∈ String.utf8EncodeChar c) : 0x80 ≤ b.toNat := by
  have hc : 0x80 ≤ c.val.toNat := h
  have hbyte : ∀ n, 0x80 ≤ n → n < 256 → 0x80 ≤ (UInt8.ofNat n).toNat := by
    intro n hle hlt
    rwa [toNat_ofNat hlt]
  unfold String.utf8EncodeChar at hb
  generalize c.val.toNat = v at *
  dsimp only at hb
  rw [if_neg (by omega)] at hb
  split at hb
  · rw [List.mem_cons, List.mem_singleton] at hb
    rcases hb with rfl | rfl <;> exact hbyte _ (by omega) (by omega)
  · split at hb
    · rw [List.mem_cons, List.mem_cons, List.mem_singleton] at hb
      rcases hb with rfl | rfl | rfl <;> exact hbyte _ (by omega) (by omega)
    · rw [List.mem_cons, List.mem_cons, List.mem_cons, List.mem_singleton] at hb
      rcases hb with rfl | rfl | rfl | rfl <;> exact hbyte _ (by omega) (by omega)

theorem length_encode (s : String) : (encode s).length = s.utf8ByteSize := by
  rw [← String.size_toByteArray, ← String.utf8Encode_toList, List.utf8Encode,
    List.size_toByteArray, encode]

theorem size_ofList (cs : List Char) :
    (String.ofList cs).utf8ByteSize = (cs.flatMap String.utf8EncodeChar).length := by
  rw [← length_encode, encode, String.toList_ofList]

/-- An ASCII byte stands only for itself. -/
theorem charOfNat_of_mem {c : Char} {b : UInt8} (hb : b.toNat < 0x80)
    (h : b ∈ String.utf8EncodeChar c) : Char.ofNat b.toNat = c := by
  by_cases hlt : c.toNat < 0x80
  · rw [utf8EncodeChar_ascii hlt, List.mem_singleton] at h
    have hnat : b.toNat = c.toNat := by
      rw [h, toNat_toUInt8 (by omega)]
    rw [hnat, Char.ofNat_toNat]
  · have hle := le_of_mem_utf8EncodeChar (Nat.le_of_not_lt hlt) h
    exact absurd hb (Nat.not_lt.mpr hle)

/-- An ASCII byte among those of a text is one of its characters. -/
theorem mem_of_mem_encode {s : String} {b : UInt8} (hb : b.toNat < 0x80) (h : b ∈ encode s) :
    Char.ofNat b.toNat ∈ s.toList := by
  obtain ⟨c, hc, hmem⟩ := List.mem_flatMap.mp h
  rwa [charOfNat_of_mem hb hmem]

theorem head_of_encode {s : String} {b : UInt8} (hb : b.toNat < 0x80)
    (h : (encode s).head? = some b) : s.toList.head? = some (Char.ofNat b.toNat) := by
  unfold encode at h
  cases hs : s.toList with
  | nil =>
    rw [hs] at h
    cases h
  | cons c cs =>
    obtain ⟨d, bytes, hbytes⟩ := List.exists_cons_of_ne_nil (utf8EncodeChar_ne_nil c)
    rw [hs, List.flatMap_cons, hbytes] at h
    obtain rfl := Option.some.inj h
    rw [List.head?_cons, charOfNat_of_mem hb (by rw [hbytes]; exact List.mem_cons_self)]

theorem getLast_of_encode {s : String} {b : UInt8} (hb : b.toNat < 0x80)
    (h : (encode s).getLast? = some b) : s.toList.getLast? = some (Char.ofNat b.toNat) := by
  unfold encode at h
  rcases List.eq_nil_or_concat s.toList with hs | ⟨cs, c, hs⟩
  · rw [hs] at h
    cases h
  · have hlast := List.getLast?_eq_some_getLast (utf8EncodeChar_ne_nil c)
    rw [List.concat_eq_append] at hs
    rw [hs, List.flatMap_append, List.flatMap_singleton, List.getLast?_append, hlast,
      Option.some_or] at h
    rw [hs, List.getLast?_concat, charOfNat_of_mem hb (List.mem_of_getLast? (hlast.trans h))]

end Ascii

section Lossy

variable {s : List UInt8}

/-- The numbers that bytes can lead to once the first of them is read: those whose leading bits
are the ones read so far. -/
theorem follow_range {n bits v : Nat} (h : (follow n 0x80 0xbf bits s).1 = some v) :
    bits * 64 ^ n ≤ v ∧ v < (bits + 1) * 64 ^ n := by
  induction n generalizing bits s with
  | zero =>
    obtain rfl : bits = v := by simpa [follow] using h
    omega
  | succ n ih =>
    cases s with
    | nil => simp [follow] at h
    | cons c s =>
      rw [follow] at h
      split at h
      · rename_i hrange
        have hbounds : 0x80 ≤ c.toNat ∧ c.toNat ≤ 0xbf := by
          simpa [UInt8.le_iff_toNat_le] using hrange
        obtain ⟨hlow, hhigh⟩ := ih h
        have hle : bits * 64 ≤ bits * 64 + (c.toNat - 0x80) := Nat.le_add_right _ _
        have hlt : bits * 64 + (c.toNat - 0x80) + 1 ≤ (bits + 1) * 64 := by omega
        rw [Nat.pow_succ, Nat.mul_comm (64 ^ n), ← Nat.mul_assoc, ← Nat.mul_assoc]
        exact ⟨Nat.le_trans (Nat.mul_le_mul_right _ hle) hlow,
          Nat.lt_of_lt_of_le hhigh (Nat.mul_le_mul_right _ hlt)⟩
      · cases h

theorem follow_lead_range {n bits v : Nat} {low high : UInt8}
    (h : (follow (n + 1) low high bits s).1 = some v) :
    (bits * 64 + (low.toNat - 0x80)) * 64 ^ n ≤ v ∧
      v < (bits * 64 + (high.toNat - 0x80) + 1) * 64 ^ n := by
  cases s with
  | nil => simp [follow] at h
  | cons c s =>
    rw [follow] at h
    split at h
    · rename_i hrange
      rw [UInt8.le_iff_toNat_le, UInt8.le_iff_toNat_le] at hrange
      obtain ⟨hle, hlt⟩ := follow_range h
      exact ⟨Nat.le_trans (Nat.mul_le_mul_right _ (by omega)) hle,
        Nat.lt_of_lt_of_le hlt (Nat.mul_le_mul_right _ (by omega))⟩
    · cases h

/-- What begins with a lead byte is a character past the ASCII ones, and one that takes as many
bytes as are read. -/
theorem lead_range {b : UInt8} {l : Lead} (hl : lead? b = some l) {v : Nat}
    (h : (follow l.following l.low l.high l.bits s).1 = some v) :
    0x80 ≤ v ∧ (v < 0xd800 ∨ 0xdfff < v ∧ v < 0x110000) ∧
      (l.following = 1 ∧ v < 0x800 ∨ l.following = 2 ∧ 0x800 ≤ v ∧ v < 0x10000 ∨
        l.following = 3 ∧ 0x10000 ≤ v) := by
  have hbounds : (0x80 : UInt8).toNat = 0x80 ∧ (0x8f : UInt8).toNat = 0x8f ∧
      (0x90 : UInt8).toNat = 0x90 ∧ (0x9f : UInt8).toNat = 0x9f ∧ (0xa0 : UInt8).toNat = 0xa0 ∧
      (0xbf : UInt8).toNat = 0xbf := by decide
  have hrange : ∀ {n low high bits}, some (⟨n + 1, low, high, bits⟩ : Lead) = some l →
      l.following = n + 1 ∧ (bits * 64 + (low.toNat - 0x80)) * 64 ^ n ≤ v ∧
        v < (bits * 64 + (high.toNat - 0x80) + 1) * 64 ^ n := by
    intro n low high bits he
    cases he
    exact ⟨rfl, follow_lead_range h⟩
  unfold lead? at hl
  dsimp only at hl
  -- One case for each row of the table of lead bytes.
  iterate 7
    split at hl
    · have hv := hrange hl
      simp only [hbounds] at hv
      omega
  cases hl

theorem toNat_charOfNat {v : Nat} (h : v.isValidChar) : (Char.ofNat v).toNat = v := by
  rw [Char.ofNat, dif_pos h]
  rfl

theorem follow_suffix (n : Nat) (low high : UInt8) (bits : Nat) (s : List UInt8) :
    (follow n low high bits s).2 <:+ s := by
  induction n generalizing low high bits s with
  | zero => exact List.suffix_rfl
  | succ n ih =>
    cases s with
    | nil => exact List.suffix_rfl
    | cons c s =>
      rw [follow]
      split
      · exact (ih ..).trans (List.suffix_cons c s)
      · exact List.suffix_rfl

/-- What a byte past the ASCII ones leads to is no ASCII character, and a gap stands for none. -/
theorem step_past {b : UInt8} (hb : ¬ b < 0x80) (s : List UInt8) :
    0x80 ≤ ((step b s).1.getD '\ufffd').toNat ∧ (step b s).2 <:+ s := by
  have hgap : 0x80 ≤ ('\ufffd').toNat := by decide
  rw [step, if_neg hb]
  split
  · exact ⟨hgap, List.suffix_rfl⟩
  · rename_i l hl
    refine ⟨?_, follow_suffix ..⟩
    cases hv : (follow l.following l.low l.high l.bits s).1 with
    | none => simp [hv]
    | some v =>
      obtain ⟨hle, hvalid, _⟩ := lead_range hl hv
      simpa [hv, toNat_charOfNat hvalid] using hle

theorem decode_nil : decode [] = [] := by
  rw [decode]

theorem decodeLossy_nil : decodeLossy [] = "" := by
  rw [decodeLossy, decode_nil]
  rfl

theorem encode_decodeLossy_cons (b : UInt8) (s : List UInt8) :
    encode (decodeLossy (b :: s)) =
      String.utf8EncodeChar ((step b s).1.getD '\ufffd') ++
        encode (decodeLossy (step b s).2) := by
  simp only [encode, decodeLossy, String.toList_ofList, decode_cons, List.map_cons,
    List.flatMap_cons]

theorem encode_decodeLossy_nil : encode (decodeLossy []) = [] := by
  simp only [encode, decodeLossy, String.toList_ofList, decode_nil, List.map_nil,
    List.flatMap_nil]

theorem toUInt8_charOfNat {b : UInt8} (hb : b < 0x80) : (Char.ofNat b.toNat).toUInt8 = b := by
  have hlt : b.toNat < 0x80 := by simpa [UInt8.lt_iff_toNat_lt] using hb
  have hchar : (Char.ofNat b.toNat).val.toNat = b.toNat := toNat_charOfNat (Or.inl (by omega))
  apply UInt8.toNat_inj.mp
  rw [Char.toUInt8, UInt32.toNat_toUInt8, hchar, Nat.mod_eq_of_lt b.toNat_lt]

theorem encode_decodeLossy_ascii {b : UInt8} (hb : b < 0x80) (s : List UInt8) :
    encode (decodeLossy (b :: s)) = b :: encode (decodeLossy s) := by
  have hlt : b.toNat < 0x80 := by simpa [UInt8.lt_iff_toNat_lt] using hb
  have hchar : (Char.ofNat b.toNat).toNat = b.toNat := toNat_charOfNat (Or.inl (by omega))
  rw [encode_decodeLossy_cons, step, if_pos hb, Option.getD_some,
    utf8EncodeChar_ascii (by rw [hchar]; exact hlt), toUInt8_charOfNat hb, List.singleton_append]

/-- An ASCII byte at the front is the first one that was decoded. -/
theorem cons_of_encode_decodeLossy {b : UInt8} {tail : List UInt8} (hb : b < 0x80)
    (h : encode (decodeLossy s) = b :: tail) :
    ∃ rest, s = b :: rest ∧ encode (decodeLossy rest) = tail := by
  cases s with
  | nil =>
    rw [encode_decodeLossy_nil] at h
    cases h
  | cons a s =>
    by_cases ha : a < 0x80
    · rw [encode_decodeLossy_ascii ha] at h
      obtain ⟨rfl, htail⟩ := List.cons.inj h
      exact ⟨s, rfl, htail⟩
    · obtain ⟨hpast, _⟩ := step_past ha s
      rw [encode_decodeLossy_cons] at h
      obtain ⟨c, cs, hc⟩ := List.exists_cons_of_ne_nil
        (utf8EncodeChar_ne_nil ((step a s).1.getD '\ufffd'))
      rw [hc] at h
      obtain rfl := (List.cons.inj h).1
      have hle := le_of_mem_utf8EncodeChar hpast (b := c) (by rw [hc]; exact List.mem_cons_self)
      exact absurd (UInt8.lt_iff_toNat_lt.mp hb) (Nat.not_lt.mpr hle)

theorem eq_nil_of_encode_decodeLossy (h : encode (decodeLossy s) = []) : s = [] := by
  cases s with
  | nil => rfl
  | cons b s =>
    rw [encode_decodeLossy_cons] at h
    exact absurd (List.append_eq_nil_iff.mp h).1 (utf8EncodeChar_ne_nil _)

theorem getLast_append_of (front front' : List UInt8) {back back' : List UInt8} {b : UInt8}
    (hback : back'.getLast? = some b → back.getLast? = some b)
    (hfront : back' = [] → front'.getLast? = some b → (front ++ back).getLast? = some b)
    (h : (front' ++ back').getLast? = some b) : (front ++ back).getLast? = some b := by
  rw [List.getLast?_append] at h
  cases hlast : back'.getLast? with
  | some c =>
    rw [hlast, Option.some_or] at h
    rw [List.getLast?_append, hback (hlast.trans h), Option.some_or]
  | none =>
    rw [hlast, Option.none_or] at h
    exact hfront (List.getLast?_eq_none_iff.mp hlast) h

/-- An ASCII byte at the end is the last one that was decoded. -/
theorem getLast_of_encode_decodeLossy {b : UInt8} (hb : b < 0x80)
    (h : (encode (decodeLossy s)).getLast? = some b) : s.getLast? = some b := by
  generalize hn : s.length = n
  induction n using Nat.strongRecOn generalizing s with
  | ind n ih =>
    cases s with
    | nil =>
      rw [encode_decodeLossy_nil] at h
      cases h
    | cons a s =>
      rw [List.length_cons] at hn
      by_cases ha : a < 0x80
      · rw [encode_decodeLossy_ascii ha] at h
        refine getLast_append_of [a] [a] (fun hlast => ih _ (by omega) hlast rfl) ?_ h
        intro hnone hlast
        rw [eq_nil_of_encode_decodeLossy hnone]
        exact hlast
      · obtain ⟨hpast, before, hsplit⟩ := step_past ha s
        have hlen : (step a s).2.length ≤ s.length := length_step_le a s
        rw [encode_decodeLossy_cons] at h
        rw [← hsplit]
        refine getLast_append_of (a :: before) _
          (fun hlast => ih _ (by omega) hlast rfl) ?_ h
        intro _ hlast
        have hle := le_of_mem_utf8EncodeChar hpast (List.mem_of_getLast? hlast)
        exact absurd (UInt8.lt_iff_toNat_lt.mp hb) (Nat.not_lt.mpr hle)

end Lossy

end ContentType.Utf8
