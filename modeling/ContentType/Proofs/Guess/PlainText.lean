import ContentType.Guess.PlainText
import ContentType.Proofs.Byte
import Mathlib.Data.List.Forall2

namespace ContentType

namespace PlainText

/-- A control that text does not have: any but those from backspace to carriage return, and
escape. -/
def IsControl (b : UInt8) : Prop :=
  b.toNat ≤ 7 ∨ 14 ≤ b.toNat ∧ b.toNat ≤ 31 ∧ b.toNat ≠ 27 ∨ b.toNat = 127

theorem isBinary_iff {b : UInt8} : isBinary b = true ↔ IsControl b := by
  have h27 : b = 27 ↔ b.toNat = 27 := by rw [← UInt8.toNat_inj]; rfl
  have h127 : b = 0x7f ↔ b.toNat = 127 := by rw [← UInt8.toNat_inj]; rfl
  simp only [isBinary, IsControl, Bool.or_eq_true, Bool.and_eq_true, decide_eq_true_eq, bne_iff_ne,
    beq_iff_eq, ne_eq, UInt8.lt_iff_toNat_lt, UInt8.reduceToNat, h27, h127]
  omega

/-- The pieces of a text are the line up to its first newline and the pieces behind that. -/
theorem splitOn_of_idxOf {s : List UInt8} {length : Nat} (h : s.idxOf? 0x0a = some length) :
    s.splitOn 0x0a = s.take length :: (s.drop (length + 1)).splitOn 0x0a ∧ length < s.length := by
  obtain ⟨hlt, hnewline, hbefore⟩ := List.idxOf?_eq_some_iff.mp h
  have hline : 0x0a ∉ s.take length := by
    intro hmem
    obtain ⟨j, hj, he⟩ := List.mem_take_iff_getElem.mp hmem
    exact hbefore j (by omega) he
  have hsplit : s = s.take length ++ 0x0a :: s.drop (length + 1) := by
    rw [← hnewline, List.getElem_cons_drop, List.take_append_drop]
  refine ⟨?_, hlt⟩
  conv => lhs; rw [hsplit]
  rw [List.splitOn_append_cons_self_of_not_mem hline]

/-- The loop invariant: what is left begins at `start` and ends with the text. -/
theorem linesFit_iff {size start : Nat} {rest : List UInt8} (h : start + rest.length = size) :
    linesFit size start rest = true ↔ ∀ piece ∈ rest.splitOn 0x0a, piece.length ≤ maxLine := by
  fun_induction linesFit size start rest with
  | case1 start rest hlt length hline hlong =>
    obtain ⟨hsplit, hlength⟩ := splitOn_of_idxOf hline
    refine iff_of_false nofun fun hall => ?_
    have hfirst := hall (rest.take length) (hsplit ▸ List.mem_cons_self)
    rw [List.length_take, Nat.min_eq_left (Nat.le_of_lt hlength)] at hfirst
    omega
  | case2 start rest hlt length hline hshort ih =>
    obtain ⟨hsplit, hlength⟩ := splitOn_of_idxOf hline
    have hnext : start + length + 1 + (rest.drop (length + 1)).length = size := by
      rw [List.length_drop]
      omega
    have hfirst : (rest.take length).length ≤ maxLine := by
      rw [List.length_take]
      omega
    rw [ih hnext, hsplit, List.forall_mem_cons, and_iff_right hfirst]
  | case3 start rest hlt hline =>
    rw [List.splitOn_eq_singleton (List.idxOf?_eq_none_iff.mp hline), List.forall_mem_singleton,
      decide_eq_true_eq]
    omega
  | case4 start rest hdone =>
    obtain rfl := List.length_eq_zero_iff.mp (by omega : rest.length = 0)
    simp

/-- The pieces of a text are, in order, the beginnings of pieces of any text that goes on from
it. -/
theorem splitOn_append (s more : List UInt8) :
    ∃ pieces, pieces <+: (s ++ more).splitOn 0x0a ∧
      List.Forall₂ (· <+: ·) (s.splitOn 0x0a) pieces := by
  induction s with
  | nil =>
    obtain ⟨piece, pieces, hsplit⟩ :=
      List.exists_cons_of_ne_nil (List.splitOn_ne_nil (0x0a : UInt8) more)
    rw [List.nil_append, hsplit]
    exact ⟨[piece], List.cons_prefix_cons.mpr ⟨rfl, List.nil_prefix⟩,
      .cons List.nil_prefix .nil⟩
  | cons b s ih =>
    obtain ⟨pieces, hpieces, hbegin⟩ := ih
    by_cases hb : b = 0x0a
    · subst hb
      rw [List.cons_append, Byte.splitOn_newline, Byte.splitOn_newline]
      exact ⟨[] :: pieces, List.cons_prefix_cons.mpr ⟨rfl, hpieces⟩,
        .cons List.nil_prefix hbegin⟩
    · rw [List.cons_append, Byte.splitOn_cons_of_ne hb, Byte.splitOn_cons_of_ne hb]
      have hne := List.splitOn_ne_nil (0x0a : UInt8) s
      generalize s.splitOn 0x0a = own at hne hbegin
      cases hbegin with
      | nil => exact absurd rfl hne
      | @cons _ piece _ pieces hfirst hrest =>
        obtain ⟨others, hwhole⟩ := hpieces
        rw [← hwhole]
        exact ⟨(b :: piece) :: pieces, ⟨others, rfl⟩,
          .cons (List.cons_prefix_cons.mpr ⟨rfl, hfirst⟩) hrest⟩

variable {s : List UInt8}

theorem isPlainText_iff : isPlainText s = true ↔
    (∀ b ∈ s, ¬ IsControl b) ∧ ∀ piece ∈ s.splitOn 0x0a, piece.length ≤ maxLine := by
  have hcontrols : (!s.any isBinary) = true ↔ ∀ b ∈ s, ¬ IsControl b := by
    simp [← isBinary_iff]
  rw [isPlainText, Bool.and_eq_true, hcontrols, linesFit_iff (Nat.zero_add _)]

theorem isPlainText_take (h : isPlainText s = true) (n : Nat) : isPlainText (s.take n) = true := by
  obtain ⟨hcontrols, hlines⟩ := isPlainText_iff.mp h
  refine isPlainText_iff.mpr ⟨fun b hb => hcontrols b (List.mem_of_mem_take hb), ?_⟩
  obtain ⟨pieces, hpieces, hbegin⟩ := splitOn_append (s.take n) (s.drop n)
  rw [List.take_append_drop] at hpieces
  intro piece hpiece
  obtain ⟨i, hi, rfl⟩ := List.getElem_of_mem hpiece
  have hi' : i < pieces.length := hbegin.length_eq ▸ hi
  have hshort := hlines pieces[i] (hpieces.subset (List.getElem_mem hi'))
  exact Nat.le_trans (hbegin.get hi hi').length_le hshort

/-- A text is plain when it has none of the controls and every piece between newlines is short
enough, the last one included; and it stays plain when it is cut off anywhere. -/
theorem isPlainText_by_lines (s : List UInt8) :
    (isPlainText s = true ↔
      (∀ b ∈ s, ¬ IsControl b) ∧ ∀ piece ∈ s.splitOn 0x0a, piece.length ≤ 300) ∧
    ∀ n, isPlainText s = true → isPlainText (s.take n) = true :=
  ⟨isPlainText_iff, fun n h => isPlainText_take h n⟩

/-- A line of the greatest length, and a character of two bytes behind it. -/
def fullLine : List UInt8 :=
  List.replicate 300 0x61 ++ [0x0a, 0xc3, 0xa9]

/-- The cut falls into the character. -/
theorem isPlainText_by_lines_cut :
    isPlainText fullLine = true ∧ isPlainText (fullLine.take 302) = true := by
  have hplain : isPlainText fullLine = true := by decide +kernel
  exact ⟨hplain, (isPlainText_by_lines fullLine).2 302 hplain⟩

end PlainText

end ContentType
