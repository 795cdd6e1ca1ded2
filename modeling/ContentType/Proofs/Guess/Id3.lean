import ContentType.Guess.Id3
import Mathlib.Algebra.Order.Ring.Nat
import Mathlib.Data.List.Basic
import Mathlib.Data.Nat.Bitwise

namespace ContentType.Id3

section Bits

theorem toNat_and_low (b : UInt8) : (b &&& 0x7f).toNat = b.toNat % 128 := by
  rw [UInt8.toNat_and]
  exact Nat.and_two_pow_sub_one_eq_mod b.toNat 7

theorem and_nibble_eq_zero_iff {b : UInt8} : b &&& 0x0f = 0 ↔ b.toNat % 16 = 0 := by
  rw [← UInt8.toNat_inj, UInt8.toNat_and]
  exact iff_of_eq (congrArg (· = 0) (Nat.and_two_pow_sub_one_eq_mod b.toNat 4))

theorem hasFooter_eq_testBit (flags : UInt8) : hasFooter flags = flags.toNat.testBit 4 := by
  have hbit : (flags &&& 0x10).toNat = (flags.toNat.testBit 4).toNat * 2 ^ 4 := by
    rw [UInt8.toNat_and]
    exact Nat.and_two_pow flags.toNat 4
  have hne : hasFooter flags = true ↔ (flags &&& 0x10).toNat ≠ 0 := by
    simp [hasFooter, ← UInt8.toNat_inj]
  rw [Bool.eq_iff_iff, hne, hbit]
  cases flags.toNat.testBit 4 <;> simp

end Bits

section Syncsafe

variable {b : UInt8} {s : List UInt8} {n : Nat}

/-- A byte in front counts 128 times more for each byte behind it. -/
theorem syncsafe_cons (b : UInt8) (s : List UInt8) :
    syncsafe (b :: s) = b.toNat % 128 * 128 ^ s.length + syncsafe s := by
  have hfold : ∀ n, s.foldl (fun n b => n * 128 + (b &&& 0x7f).toNat) n =
      n * 128 ^ s.length + syncsafe s := by
    induction s with
    | nil => simp [syncsafe]
    | cons c s ih =>
      intro n
      rw [syncsafe, List.foldl_cons, List.foldl_cons, ih, ih, List.length_cons, Nat.pow_succ',
        Nat.zero_mul, Nat.zero_add, Nat.add_mul, Nat.mul_assoc, Nat.add_assoc]
  rw [syncsafe, List.foldl_cons, hfold, Nat.zero_mul, Nat.zero_add, toNat_and_low]

theorem syncsafe_lt (s : List UInt8) : syncsafe s < 128 ^ s.length := by
  induction s with
  | nil => exact Nat.one_pos
  | cons b s ih =>
    have hlow : b.toNat % 128 < 128 := Nat.mod_lt _ (by decide)
    rw [syncsafe_cons, List.length_cons, Nat.pow_succ']
    calc b.toNat % 128 * 128 ^ s.length + syncsafe s
        < b.toNat % 128 * 128 ^ s.length + 128 ^ s.length := Nat.add_lt_add_left ih _
      _ = (b.toNat % 128 + 1) * 128 ^ s.length := (Nat.succ_mul _ _).symm
      _ ≤ 128 * 128 ^ s.length := Nat.mul_le_mul_right _ hlow

/-- Seven bits of a number, below a free one. -/
def sizeByte (top : Bool) (n : Nat) : UInt8 :=
  UInt8.ofNat (n % 128 + if top then 128 else 0)

/-- A number in bytes of seven bits, the most significant ones first. There are as many bytes as
there are free bits for them. -/
def sizeBytes (n : Nat) : List Bool → List UInt8
  | [] => []
  | top :: tops => sizeByte top (n / 128 ^ tops.length) :: sizeBytes n tops

def topBit (b : UInt8) : Bool :=
  128 ≤ b.toNat

theorem toNat_sizeByte (top : Bool) (n : Nat) :
    (sizeByte top n).toNat = n % 128 + if top then 128 else 0 := by
  have hlow : n % 128 < 128 := Nat.mod_lt _ (by decide)
  rw [sizeByte, UInt8.toNat_ofNat', Nat.mod_eq_of_lt]
  split <;> omega

theorem sizeByte_topBit (hn : n % 128 = b.toNat % 128) : sizeByte (topBit b) n = b := by
  have hb := b.toNat_lt
  rw [← UInt8.toNat_inj, toNat_sizeByte, hn]
  simp only [topBit, decide_eq_true_eq]
  split <;> omega

@[simp]
theorem length_sizeBytes (n : Nat) (tops : List Bool) :
    (sizeBytes n tops).length = tops.length := by
  induction tops with
  | nil => rfl
  | cons top tops ih => simp [sizeBytes, ih]

/-- Reading undoes writing, whatever the free bits are. -/
theorem syncsafe_sizeBytes (n : Nat) (tops : List Bool) :
    syncsafe (sizeBytes n tops) = n % 128 ^ tops.length := by
  induction tops with
  | nil => simp [sizeBytes, syncsafe, Nat.mod_one]
  | cons top tops ih =>
    have hbyte : (sizeByte top (n / 128 ^ tops.length)).toNat % 128 =
        n / 128 ^ tops.length % 128 := by
      rw [toNat_sizeByte]
      split <;> omega
    rw [sizeBytes, syncsafe_cons, ih, hbyte, length_sizeBytes, List.length_cons, Nat.mod_pow_succ,
      Nat.mul_comm, Nat.add_comm]

/-- Writing undoes reading, when the free bits are kept. -/
theorem sizeBytes_topBit (hn : n % 128 ^ s.length = syncsafe s) :
    sizeBytes n (s.map topBit) = s := by
  induction s with
  | nil => rfl
  | cons b s ih =>
    have hpos : 0 < 128 ^ s.length := Nat.pow_pos (by decide)
    have hlt := syncsafe_lt s
    rw [List.length_cons, Nat.pow_succ, syncsafe_cons] at hn
    have hrest : n % 128 ^ s.length = syncsafe s := by
      rw [← Nat.mod_mul_right_mod n (128 ^ s.length) 128, hn, Nat.mul_add_mod_of_lt hlt]
    have hfirst : n / 128 ^ s.length % 128 = b.toNat % 128 := by
      rw [← Nat.mod_mul_right_div_self, hn, Nat.mul_comm, Nat.mul_add_div hpos,
        Nat.div_eq_of_lt hlt, Nat.add_zero]
    rw [List.map_cons, sizeBytes, List.length_map, ih hrest, sizeByte_topBit hfirst]

end Syncsafe

/-- What a header tells: its versions and flags, a size, and the free bits of the size. -/
structure Header where
  version : UInt8
  revision : UInt8
  flags : UInt8
  size : Nat
  tops : Fin 4 → Bool
  version_le : version.toNat ≤ 4
  flags_low : flags.toNat % 16 = 0
  size_lt : size < 2 ^ 28

namespace Header

def bytes (h : Header) : List UInt8 :=
  Byte.ascii "ID3" ++ [h.version, h.revision, h.flags] ++ sizeBytes h.size (List.ofFn h.tops)

theorem syncsafe_size (h : Header) : syncsafe (sizeBytes h.size (List.ofFn h.tops)) = h.size := by
  have hlt : h.size < 128 ^ 4 := h.size_lt
  rw [syncsafe_sizeBytes, List.length_ofFn, Nat.mod_eq_of_lt hlt]

end Header

section Tags

variable {buffer : List UInt8}

/-- A header is read field by field; what stands behind it does not count. -/
theorem tagLength_bytes (h : Header) {rest : List UInt8}
    (hlen : minLength ≤ (h.bytes ++ rest).length) :
    tagLength (h.bytes ++ rest) = h.size + 10 + if h.flags.toNat.testBit 4 then 10 else 0 := by
  obtain ⟨a, b, c, e, hsize⟩ : ∃ a b c e, sizeBytes h.size (List.ofFn h.tops) = [a, b, c, e] :=
    List.length_eq_four.mp (by simp)
  have hbytes : h.bytes ++ rest =
      0x49 :: 0x44 :: 0x33 :: h.version :: h.revision :: h.flags :: a :: b :: c :: e :: rest := by
    rw [Header.bytes, hsize]
    rfl
  have hversion : h.version ≤ 4 := UInt8.le_iff_toNat_le.mpr h.version_le
  have hflags : h.flags &&& 0x0f = 0 := and_nibble_eq_zero_iff.mpr h.flags_low
  have hmark : [0x49, 0x44, 0x33] = Byte.ascii "ID3" := rfl
  rw [hbytes] at hlen ⊢
  simp only [tagLength, if_neg (Nat.not_lt.mpr hlen), ← hmark, hversion, hflags, ← hsize,
    h.syncsafe_size, hasFooter_eq_testBit, headerSize]
  simp [Nat.add_comm]

/-- A tag of some length has a header. -/
theorem exists_header (hne : tagLength buffer ≠ 0) :
    ∃ (h : Header) (rest : List UInt8), buffer = h.bytes ++ rest ∧ minLength ≤ buffer.length := by
  unfold tagLength at hne
  split at hne
  · exact absurd rfl hne
  rename_i hlen
  split at hne
  · rename_i i d three version revision flags a b c e rest
    split at hne
    · rename_i hfields
      simp only [Bool.and_eq_true, decide_eq_true_eq, beq_iff_eq] at hfields
      obtain ⟨⟨hmark, hversion⟩, hflags⟩ := hfields
      have hsize : sizeBytes (syncsafe [a, b, c, e])
          (List.ofFn fun i : Fin 4 => topBit [a, b, c, e][i]) = [a, b, c, e] :=
        sizeBytes_topBit (Nat.mod_eq_of_lt (syncsafe_lt [a, b, c, e]))
      have hlt : syncsafe [a, b, c, e] < 128 ^ 4 := syncsafe_lt [a, b, c, e]
      let h : Header := ⟨version, revision, flags, syncsafe [a, b, c, e],
        fun i => topBit [a, b, c, e][i], UInt8.le_iff_toNat_le.mp hversion,
        and_nibble_eq_zero_iff.mp hflags, hlt⟩
      have hbytes : h.bytes = [i, d, three] ++ [version, revision, flags] ++ [a, b, c, e] :=
        congrArg₂ (fun mark size => mark ++ [version, revision, flags] ++ size) hmark.symm hsize
      refine ⟨h, rest, ?_, Nat.le_of_not_lt hlen⟩
      rw [hbytes]
      rfl
    · exact absurd rfl hne
  · exact absurd rfl hne

theorem tagLength_range (hne : tagLength buffer ≠ 0) :
    10 ≤ tagLength buffer ∧ tagLength buffer ≤ 2 ^ 28 + 19 := by
  obtain ⟨h, rest, rfl, hlen⟩ := exists_header hne
  have hsize := h.size_lt
  rw [tagLength_bytes h hlen]
  split <;> omega

theorem tagLength_le (buffer : List UInt8) : tagLength buffer ≤ 2 ^ 28 + 19 := by
  by_cases hzero : tagLength buffer = 0
  · rw [hzero]
    exact Nat.zero_le _
  · exact (tagLength_range hzero).2

/-- A header tells the length of the tag that it opens: ten bytes for itself, its size, and ten more
for a footer. All other buffers, and those that are too short, have no tag. -/
theorem tagLength_of_header :
    (∀ (h : Header) (rest : List UInt8), 40 ≤ (h.bytes ++ rest).length →
      tagLength (h.bytes ++ rest) = h.size + 10 + if h.flags.toNat.testBit 4 then 10 else 0) ∧
    (∀ buffer : List UInt8,
      (∀ (h : Header) (rest : List UInt8), buffer = h.bytes ++ rest → buffer.length < 40) →
        tagLength buffer = 0) ∧
    ∀ buffer : List UInt8, tagLength buffer ≠ 0 →
      10 ≤ tagLength buffer ∧ tagLength buffer ≤ 2 ^ 28 + 19 := by
  refine ⟨fun h rest hlen => tagLength_bytes h hlen, fun buffer hnone => ?_,
    fun buffer hne => tagLength_range hne⟩
  apply Classical.byContradiction
  intro hne
  obtain ⟨h, rest, hbuffer, hlen⟩ := exists_header hne
  exact Nat.not_le.mpr (hnone h rest hbuffer) hlen

/-- All bits of the size are set, the free ones as well, and a footer follows. -/
def longest : Header :=
  ⟨4, 0xff, 0xf0, 2 ^ 28 - 1, fun _ => true, by decide, by decide, by decide⟩

/-- The buffer of 39 bytes opens with the same header. -/
theorem tagLength_of_header_longest :
    40 ≤ (longest.bytes ++ List.replicate 30 0xff).length ∧
      tagLength (longest.bytes ++ List.replicate 30 0xff) = 2 ^ 28 + 19 ∧
      tagLength (longest.bytes ++ List.replicate 30 0xff) ≠ 0 ∧
      tagLength (longest.bytes ++ List.replicate 30 0xff) ≤ 2 ^ 28 + 19 ∧
      tagLength (longest.bytes ++ List.replicate 29 0xff) = 0 := by
  have hlong : 40 ≤ (longest.bytes ++ List.replicate 30 0xff).length := by decide
  have hshort : (longest.bytes ++ List.replicate 29 0xff).length < 40 := by decide
  obtain ⟨htag, hnone, hrange⟩ := tagLength_of_header
  have hlength : tagLength (longest.bytes ++ List.replicate 30 0xff) = 2 ^ 28 + 19 :=
    htag longest _ hlong
  have hne : tagLength (longest.bytes ++ List.replicate 30 0xff) ≠ 0 := by
    rw [hlength]
    decide
  exact ⟨hlong, hlength, hne, (hrange _ hne).2, hnone _ fun _ _ _ => hshort⟩

end Tags

end ContentType.Id3
