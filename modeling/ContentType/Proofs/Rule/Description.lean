import ContentType.Proofs.Byte
import ContentType.Proofs.Rule.Marks
import ContentType.Proofs.Text.Utf8
import Mathlib.Data.List.DropRight

namespace ContentType.Line
open Byte

/-- Texts that are read as themselves where a description is expected. -/
structure IsDescription (d : String) : Prop where
  begins : Stops isSpace (Utf8.encode d)
  ends : Stops isSpace (Utf8.encode d).reverse
  spaced : readNoSpace (Utf8.encode d) = (false, Utf8.encode d)
  kept : description (Utf8.encode d) = d

variable {d : String} {room : Nat} {s t : List UInt8} {b : UInt8}

/-- Without a comment's mark a description goes on to the end of the line. -/
theorem descriptionBytes_of_notMem (hs : '#'.toUInt8 ∉ s) (hroom : s.length ≤ room) :
    descriptionBytes room s = s := by
  induction s generalizing room with
  | nil => cases room <;> rfl
  | cons c s ih =>
    rw [List.mem_cons, not_or] at hs
    cases room with
    | zero => cases hroom
    | succ room =>
      have hescape : ¬ (c = '\\'.toUInt8 && s.head? = some '#'.toUInt8) = true := by
        intro h
        rw [Bool.and_eq_true, decide_eq_true_eq, decide_eq_true_eq] at h
        exact hs.2 (List.mem_of_head? h.2)
      rw [descriptionBytes, if_neg (Ne.symm hs.1), if_neg hescape,
        ih hs.2 (Nat.le_of_succ_le_succ hroom)]

/-- Only an escaped mark is copied from elsewhere than the front. -/
theorem cons_of_descriptionBytes (hb : b ≠ '#'.toUInt8)
    (h : descriptionBytes (room + 1) s = b :: t) :
    ∃ rest, s = b :: rest ∧ descriptionBytes room rest = t := by
  cases s with
  | nil => cases h
  | cons c s =>
    rw [descriptionBytes] at h
    split at h
    · cases h
    · split at h
      · exact absurd (List.cons.inj h).1.symm hb
      · obtain ⟨rfl, ht⟩ := List.cons.inj h
        exact ⟨s, rfl, ht⟩

/-- The description's bytes without the blanks at their end. -/
theorem description_eq (s : List UInt8) :
    ∃ t, description s = Utf8.decodeLossy t ∧ t <+: descriptionBytes maxDescription s ∧
      Stops isSpace t.reverse := by
  refine ⟨_, rfl, ?_, ?_⟩
  · exact List.rdropWhile_prefix isSpace _
  · rw [List.reverse_reverse]
    exact stops_dropWhile _ _

/-- A description begins with the bytes that stand on the line, unless with an escaped mark. -/
theorem cons_of_prefix {tail : List UInt8} (ht : t <+: descriptionBytes (room + 1) s)
    (hascii : b < 0x80) (hb : b ≠ '#'.toUInt8)
    (h : Utf8.encode (Utf8.decodeLossy t) = b :: tail) :
    ∃ rest u, s = b :: rest ∧ u <+: descriptionBytes room rest ∧
      Utf8.encode (Utf8.decodeLossy u) = tail := by
  obtain ⟨u, rfl, htail⟩ := Utf8.cons_of_encode_decodeLossy hascii h
  obtain ⟨more, hmore⟩ := ht
  obtain ⟨rest, rfl, hrest⟩ := cons_of_descriptionBytes hb hmore.symm
  exact ⟨rest, u, rfl, ⟨more, hrest.symm⟩, htail⟩

/-- Blanks are ASCII bytes, and none of them marks a comment. -/
theorem ascii_of_isSpace (b : UInt8) (h : isSpace b = true) : b < 0x80 ∧ b ≠ '#'.toUInt8 := by
  refine ⟨lt_of_isSpace h, ?_⟩
  rintro rfl
  cases h

theorem stops_description (hs : Stops isSpace s) :
    Stops isSpace (Utf8.encode (description s)) := by
  obtain ⟨t, hd, ht, _⟩ := description_eq s
  rw [hd]
  intro b hb
  refine Bool.eq_false_iff.mpr fun hspace => ?_
  obtain ⟨tail, htail⟩ := List.head?_eq_some_iff.mp hb
  obtain ⟨hascii, hne⟩ := ascii_of_isSpace b hspace
  obtain ⟨rest, _, rfl, _⟩ := cons_of_prefix ht hascii hne htail
  rw [stops_cons.mp hs] at hspace
  cases hspace

theorem stops_reverse_description (s : List UInt8) :
    Stops isSpace (Utf8.encode (description s)).reverse := by
  obtain ⟨t, hd, _, hend⟩ := description_eq s
  rw [hd]
  intro b hb
  refine Bool.eq_false_iff.mpr fun hspace => ?_
  rw [List.head?_reverse] at hb
  have hlast := Utf8.getLast_of_encode_decodeLossy (ascii_of_isSpace b hspace).1 hb
  rw [← List.head?_reverse] at hlast
  rw [hend b hlast] at hspace
  cases hspace

theorem readNoSpace_description (hs : readNoSpace s = (false, s)) :
    readNoSpace (Utf8.encode (description s)) = (false, Utf8.encode (description s)) := by
  obtain ⟨t, hd, ht, _⟩ := description_eq s
  rw [hd]
  cases htext : Utf8.encode (Utf8.decodeLossy t) with
  | nil => rfl
  | cons b tail =>
    rw [readNoSpace]
    split
    · rename_i hb
      subst hb
      obtain ⟨rest, _, rfl, _⟩ := cons_of_prefix ht (by decide) (by decide) htext
      cases hs
    · split
      · rename_i hescape
        rw [Bool.and_eq_true, decide_eq_true_eq, decide_eq_true_eq] at hescape
        obtain ⟨rfl, hnext⟩ := hescape
        obtain ⟨tail', rfl⟩ := List.head?_eq_some_iff.mp hnext
        obtain ⟨rest, u, rfl, hu, htail⟩ := cons_of_prefix ht (by decide) (by decide) htext
        obtain ⟨rest', _, rfl, _⟩ := cons_of_prefix hu (by decide) (by decide) htail
        cases hs
      · rfl

/-- A text without a mark that is not too long and ends with no blank is kept. -/
theorem description_encode (hsize : d.utf8ByteSize ≤ maxDescription)
    (hmark : '#' ∉ d.toList) (hends : Stops isSpace (Utf8.encode d).reverse) :
    description (Utf8.encode d) = d := by
  have hbytes : descriptionBytes maxDescription (Utf8.encode d) = Utf8.encode d := by
    apply descriptionBytes_of_notMem
    · exact fun h => hmark (Utf8.mem_of_mem_encode (by decide) h)
    · rwa [Utf8.length_encode]
  rw [description, hbytes, dropWhile_of_stops hends, List.reverse_reverse, Utf8.decodeLossy_encode]

/-- A description without a mark that is not too long is read again. -/
theorem isDescription_description (hs : Stops isSpace s) (hspaced : readNoSpace s = (false, s))
    (hsize : (description s).utf8ByteSize ≤ maxDescription)
    (hmark : '#' ∉ (description s).toList) : IsDescription (description s) where
  begins := stops_description hs
  ends := stops_reverse_description s
  spaced := readNoSpace_description hspaced
  kept := description_encode hsize hmark (stops_reverse_description s)

/-- A description is read from its text behind a blank, which is passed over. -/
theorem IsDescription.readNoSpace (h : IsDescription d) :
    readNoSpace (skipSpace (0x20 :: Utf8.encode d)) = (false, Utf8.encode d) := by
  have hskip : skipSpace (0x20 :: Utf8.encode d) = Utf8.encode d := dropWhile_of_stops h.begins
  rw [hskip, h.spaced]

/-- A blank and a description end with no line end. -/
theorem IsDescription.strip (h : IsDescription d) (s : List UInt8) :
    strip (s ++ 0x20 :: Utf8.encode d) = s ++ 0x20 :: Utf8.encode d := by
  obtain ⟨b, hlast, hends⟩ : ∃ b, (0x20 :: Utf8.encode d).getLast? = some b ∧
      b ≠ 0x0a ∧ b ≠ 0x0d := by
    cases htext : (Utf8.encode d).getLast? with
    | none => exact ⟨0x20, by rw [List.getLast?_eq_none_iff.mp htext]; rfl, by decide, by decide⟩
    | some b =>
      have hspace := h.ends b (by rw [List.head?_reverse]; exact htext)
      refine ⟨b, by rw [← List.singleton_append, List.getLast?_append, htext, Option.some_or], ?_⟩
      constructor <;> rintro rfl <;> cases hspace
  refine strip_of_getLast (b := b) ?_ hends.1 hends.2
  rw [List.getLast?_append, hlast, Option.some_or]

/-- Texts that stand behind a test without an escape: no mark, backslash or control character is in
them, and no blank at an end. -/
structure PlainDescription (d : String) : Prop where
  short : d.utf8ByteSize ≤ 49
  unmarked : '#' ∉ d.toList
  unescaped : '\\' ∉ d.toList
  printable : ∀ c ∈ d.toList, 0x20 ≤ c.toNat
  begins : d.toList.head? ≠ some ' '
  ends : d.toList.getLast? ≠ some ' '

/-- The only blank of a plain description is the space. -/
theorem PlainDescription.eq_space (h : PlainDescription d) {b : UInt8} (hb : isSpace b = true)
    (hmem : b ∈ Utf8.encode d) : b = 0x20 := by
  rcases isSpace_iff.mp hb with hspace | ⟨_, hcontrol⟩
  · exact UInt8.toNat_inj.mp hspace
  · have hprintable := h.printable _ (Utf8.mem_of_mem_encode (by omega) hmem)
    rw [Utf8.toNat_charOfNat (Or.inl (by omega))] at hprintable
    omega

theorem PlainDescription.isDescription (h : PlainDescription d) : IsDescription d := by
  have hends : Stops isSpace (Utf8.encode d).reverse := by
    intro b hb
    rw [List.head?_reverse] at hb
    refine Bool.eq_false_iff.mpr fun hspace => ?_
    obtain rfl := h.eq_space hspace (List.mem_of_getLast? hb)
    exact h.ends (Utf8.getLast_of_encode (by decide) hb)
  exact {
    begins := fun b hb => by
      refine Bool.eq_false_iff.mpr fun hspace => ?_
      obtain rfl := h.eq_space hspace (List.mem_of_head? hb)
      exact h.begins (Utf8.head_of_encode (by decide) hb)
    ends := hends
    spaced := by
      cases htext : Utf8.encode d with
      | nil => rfl
      | cons b s =>
        have hmem : b ∈ Utf8.encode d := by rw [htext]; exact List.mem_cons_self
        have hbackspace : b ≠ 0x08 := by
          rintro rfl
          exact absurd (h.printable _ (Utf8.mem_of_mem_encode (by decide) hmem)) (by decide)
        have hslash : b ≠ '\\'.toUInt8 := by
          rintro rfl
          exact h.unescaped (Utf8.mem_of_mem_encode (by decide) hmem)
        rw [readNoSpace, if_neg hbackspace, if_neg (by simp [hslash])]
    kept := description_encode h.short h.unmarked hends }

end ContentType.Line
