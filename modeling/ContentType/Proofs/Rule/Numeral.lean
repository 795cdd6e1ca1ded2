import ContentType.Proofs.Byte
import ContentType.Rule.Numeral
import Mathlib.Algebra.Group.Int.Defs
import Mathlib.Algebra.Group.Nat.Defs

namespace ContentType.Numeral
open Byte

def IsDigits (radix : Nat) (s : List UInt8) : Prop :=
  ∀ b ∈ s, (digit? radix b).isSome = true

instance (radix : Nat) : DecidablePred (IsDigits radix) :=
  fun s => inferInstanceAs (Decidable (∀ b ∈ s, (digit? radix b).isSome = true))

/-- The mark of a hex number, behind its zero. -/
def IsHexMark (b : UInt8) : Prop :=
  b = 'x'.toUInt8 ∨ b = 'X'.toUInt8

instance : DecidablePred IsHexMark :=
  fun b => inferInstanceAs (Decidable (b = 'x'.toUInt8 ∨ b = 'X'.toUInt8))

/-- Digits as they are written: the text, its radix and its value. -/
inductive Unsigned : List UInt8 → Nat → Nat → Prop
  | hex {x : UInt8} {digits : List UInt8} (mark : IsHexMark x) (nonempty : digits ≠ [])
      (all : IsDigits 16 digits) : Unsigned ('0'.toUInt8 :: x :: digits) 16 (ofDigits 16 digits)
  | octal {digits : List UInt8} (all : IsDigits 8 digits) :
      Unsigned ('0'.toUInt8 :: digits) 8 (ofDigits 8 ('0'.toUInt8 :: digits))
  | decimal {d : UInt8} {digits : List UInt8} (nonzero : d ≠ '0'.toUInt8)
      (all : IsDigits 10 (d :: digits)) :
      Unsigned (d :: digits) 10 (ofDigits 10 (d :: digits))

/-- At most one sign, true for minus. -/
inductive Sign : List UInt8 → Bool → Prop
  | none : Sign [] false
  | plus : Sign ['+'.toUInt8] false
  | minus : Sign ['-'.toUInt8] true

/-- Blanks, a sign, and digits. -/
inductive Spells : List UInt8 → Int → Prop
  | mk {blanks sign digits : List UInt8} {negative : Bool} {radix n : Nat}
      (blank : ∀ b ∈ blanks, isSpace b = true) (signed : Sign sign negative)
      (unsigned : Unsigned digits radix n) :
      Spells (blanks ++ (sign ++ digits)) (if negative then -n else n)

/-- A number stands in front of the rest of a text, and no longer one does. -/
structure Leads (text : List UInt8) (z : Int) (rest : List UInt8) : Prop where
  spells : Spells text z
  longest : ∀ more tail w, rest = more ++ tail → Spells (text ++ more) w → more = []

/-- What follows digits does not go on with them, nor does it make a hex number of a zero. -/
structure Closes (digits : List UInt8) (radix : Nat) (rest : List UInt8) : Prop where
  next : Stops (fun b => (digit? radix b).isSome) rest
  mark : digits = ['0'.toUInt8] → ∀ x d tail, rest = x :: d :: tail → IsHexMark x →
    (digit? 16 d).isSome = false

section Range

/-- The nearest number of the signed 64-bit range. -/
def clamp (z : Int) : Int64 :=
  Int64.ofInt (max Int64.minValue.toInt (min z Int64.maxValue.toInt))

theorem toInt_clamp (z : Int) : (clamp z).toInt = max (-2 ^ 63) (min z (2 ^ 63 - 1)) := by
  have hmin : Int64.minValue.toInt = -2 ^ 63 := by decide
  have hmax : Int64.maxValue.toInt = 2 ^ 63 - 1 := by decide
  rw [clamp, hmin, hmax, Int64.toInt_ofInt_of_le (by omega) (by omega)]

theorem clamp_of_range {z : Int} (hle : -2 ^ 63 ≤ z) (hlt : z < 2 ^ 63) : (clamp z).toInt = z := by
  rw [toInt_clamp]
  omega

theorem clamp_toInt (n : Int64) : clamp n.toInt = n :=
  Int64.toInt_inj.mp (clamp_of_range n.le_toInt n.toInt_lt)

/-- Only the least number is not negated by negation. -/
theorem toInt_neg_of_lt {n : Int64} (h : -2 ^ 63 < n.toInt) : (-n).toInt = -n.toInt := by
  have hlt := n.toInt_lt
  rw [Int64.toInt_neg, Int.bmod_eq_of_le (by omega) (by omega)]

end Range

section Words

/-- What a magnitude tells of the number gathered in it. -/
structure Magnitude.Gathers (m : Magnitude) (n : Nat) : Prop where
  exact : m.overflow = false → m.word.toNat = n
  beyond : m.overflow = true → 2 ^ 64 ≤ n

variable {radix n : Nat} {m : Magnitude}

/-- A digit makes no number smaller, so what is beyond a word remains so. -/
theorem Magnitude.Gathers.push (h : m.Gathers n) (hradix : 0 < radix) (b : UInt8) :
    (m.push radix b).Gathers (n * radix + (digit? radix b).getD 0) := by
  have hgrows : n ≤ n * radix := Nat.le_mul_of_pos_right n hradix
  have hsize : UInt64.size = 2 ^ 64 := rfl
  cases hm : m.overflow with
  | true =>
    have hbeyond := h.beyond hm
    have hover : (m.push radix b).overflow = true := by
      unfold Magnitude.push
      dsimp only
      split
      · exact hm
      · rfl
    exact ⟨fun hnot => Bool.noConfusion (hnot.symm.trans hover), fun _ => by omega⟩
  | false =>
    unfold Magnitude.push
    rw [h.exact hm]
    dsimp only
    split
    · rename_i hlt
      exact ⟨fun _ => UInt64.toNat_ofNat_of_lt' hlt,
        fun hover => Bool.noConfusion (hm.symm.trans hover)⟩
    · exact ⟨nofun, fun _ => by omega⟩

theorem gathers_foldl (hradix : 0 < radix) (digits : List UInt8) (h : m.Gathers n) :
    (digits.foldl (Magnitude.push radix) m).Gathers
      (digits.foldl (fun n b => n * radix + (digit? radix b).getD 0) n) := by
  induction digits generalizing m n with
  | nil => exact h
  | cons b digits ih => exact ih (h.push hradix b)

/-- The magnitude of digits tells the number that they spell. -/
theorem gathers_ofDigits (hradix : 0 < radix) (digits : List UInt8) :
    (Magnitude.ofDigits radix digits).Gathers (ofDigits radix digits) :=
  gathers_foldl hradix digits ⟨fun _ => rfl, nofun⟩

/-- With its sign, the number comes out exactly or at the end of the range that it is beyond. -/
theorem Magnitude.Gathers.signed (h : m.Gathers n) (negative : Bool) :
    m.signed negative = clamp (if negative then -n else n) := by
  have hmin : Int64.minValue.toInt = -2 ^ 63 := by decide
  have hmax : Int64.maxValue.toInt = 2 ^ 63 - 1 := by decide
  have hgreatest : Int64.maxValue.toUInt64.toNat = 2 ^ 63 - 1 := by decide
  have hleast : (Int64.maxValue.toUInt64 + 1).toNat = 2 ^ 63 := by decide
  apply Int64.toInt_inj.mp
  rw [toInt_clamp]
  unfold Magnitude.signed
  cases hm : m.overflow with
  | true =>
    have hbeyond := h.beyond hm
    cases negative with
    | true => simp only [Bool.true_or, if_true, hmin]; omega
    | false => simp only [Bool.true_or, if_true, Bool.false_eq_true, if_false, hmax]; omega
  | false =>
    have hword := h.exact hm
    have hlt := m.word.toNat_lt
    have hsigned : m.word.toInt64.toInt = (m.word.toNat : Int).bmod (2 ^ 64) :=
      BitVec.toInt_eq_toNat_bmod m.word.toBitVec
    cases negative with
    | true =>
      simp only [Bool.false_or, decide_eq_true_eq, if_true, UInt64.lt_iff_toNat_lt, hleast]
      split
      · omega
      · rw [Int64.toInt_neg, hsigned, hword, Int.bmod_neg_bmod,
          Int.bmod_eq_of_le (by omega) (by omega)]
        omega
    | false =>
      simp only [Bool.false_or, decide_eq_true_eq, Bool.false_eq_true, if_false,
        UInt64.lt_iff_toNat_lt, hgreatest]
      split
      · omega
      · rw [hsigned, hword, Int.bmod_eq_of_le (by omega) (by omega)]
        omega

end Words

section Classes

theorem isDigit_of_decimal {b : UInt8} (h : (digit? 10 b).isSome = true) : isDigit b = true := by
  rwa [isSome_digit_ten] at h

theorem isDigits_takeWhile (radix : Nat) (s : List UInt8) :
    IsDigits radix (s.takeWhile fun b => (digit? radix b).isSome) :=
  fun _ hb => mem_takeWhile (p := fun b => (digit? radix b).isSome) hb

theorem isDigit_zero : isDigit '0'.toUInt8 = true := by decide

/-- The mark is no digit in any radix but its own letters' ones. -/
theorem not_octal_of_mark {b : UInt8} (h : IsHexMark b) : (digit? 8 b).isSome = false := by
  rcases h with rfl | rfl <;> decide

theorem Unsigned.head {text : List UInt8} {radix n : Nat} (h : Unsigned text radix n) :
    ∃ d digits, text = d :: digits ∧ isDigit d = true := by
  cases h with
  | hex => exact ⟨_, _, rfl, isDigit_zero⟩
  | octal => exact ⟨_, _, rfl, isDigit_zero⟩
  | decimal _ all => exact ⟨_, _, rfl, isDigit_of_decimal (all _ List.mem_cons_self)⟩

theorem Unsigned.radix_pos {text : List UInt8} {radix n : Nat} (h : Unsigned text radix n) :
    0 < radix := by
  cases h <;> decide

end Classes

section Radix

/-- What the beginning of a text tells about the radix of the digits there. -/
theorem radix_cases (s : List UInt8) :
    (∃ x d tail, s = '0'.toUInt8 :: x :: d :: tail ∧ IsHexMark x ∧ (digit? 16 d).isSome = true ∧
      radix s = (16, d :: tail)) ∨
    (∃ tail, s = '0'.toUInt8 :: tail ∧
      (∀ x d more, tail = x :: d :: more → IsHexMark x → (digit? 16 d).isSome = false) ∧
      radix s = (8, s)) ∨
    ((∀ tail, s ≠ '0'.toUInt8 :: tail) ∧ radix s = (10, s)) := by
  unfold radix
  split
  · rename_i z x d tail
    split
    · rename_i hz
      subst hz
      split
      · rename_i hx
        exact Or.inl ⟨x, d, tail, rfl, hx.1, hx.2, rfl⟩
      · rename_i hx
        refine Or.inr (Or.inl ⟨x :: d :: tail, rfl, fun x' d' more he hmark => ?_, rfl⟩)
        cases he
        exact Bool.eq_false_iff.mpr fun hd => hx ⟨hmark, hd⟩
    · rename_i hz
      exact Or.inr (Or.inr ⟨fun _ he => hz (List.cons.inj he).1, rfl⟩)
  · rename_i z tail hshort
    split
    · rename_i hz
      subst hz
      exact Or.inr (Or.inl ⟨tail, rfl, fun x d more he _ => (hshort x d more he).elim, rfl⟩)
    · rename_i hz
      exact Or.inr (Or.inr ⟨fun _ he => hz (List.cons.inj he).1, rfl⟩)
  · exact Or.inr (Or.inr ⟨fun _ he => (nomatch he), rfl⟩)

/-- Digits that are closed are read in their radix, without their mark. -/
theorem Unsigned.radix_append {text rest : List UInt8} {r n : Nat} (h : Unsigned text r n)
    (hc : Closes text r rest) :
    ∃ body, radix (text ++ rest) = (r, body ++ rest) ∧ body ≠ [] ∧ IsDigits r body ∧
      ofDigits r body = n := by
  cases h with
  | @hex x digits mark nonempty all =>
    obtain ⟨d, ds, rfl⟩ := List.exists_cons_of_ne_nil nonempty
    have hd : (digit? 16 d).isSome = true := all d List.mem_cons_self
    have hmark : (x = 'x'.toUInt8 ∨ x = 'X'.toUInt8) ∧ (digit? 16 d).isSome = true := ⟨mark, hd⟩
    exact ⟨d :: ds, by simp only [radix, List.cons_append, if_true, if_pos hmark], nonempty, all,
      rfl⟩
  | @octal digits all =>
    have hall : IsDigits 8 ('0'.toUInt8 :: digits) := List.forall_mem_cons.mpr ⟨by decide, all⟩
    refine ⟨_, ?_, List.cons_ne_nil _ _, hall, rfl⟩
    rcases radix_cases ('0'.toUInt8 :: digits ++ rest) with
      ⟨x, d, tail, he, hmark, hd, _⟩ | ⟨_, _, _, he⟩ | ⟨hne, _⟩
    · -- A mark would be the first byte of the rest, as it is no octal digit.
      have htail : digits ++ rest = x :: d :: tail := (List.cons.inj he).2
      cases digits with
      | nil =>
        have hnone := hc.mark rfl x d tail htail hmark
        rw [hd] at hnone
        cases hnone
      | cons a more =>
        obtain rfl := (List.cons.inj htail).1
        have hoctal := all a List.mem_cons_self
        rw [not_octal_of_mark hmark] at hoctal
        cases hoctal
    · exact he
    · exact absurd rfl (hne _)
  | @decimal d digits nonzero all =>
    refine ⟨_, ?_, List.cons_ne_nil _ _, all, rfl⟩
    rcases radix_cases (d :: digits ++ rest) with
      ⟨_, _, _, he, _⟩ | ⟨_, he, _⟩ | ⟨_, he⟩
    · exact absurd (List.cons.inj he).1 nonzero
    · exact absurd (List.cons.inj he).1 nonzero
    · exact he

/-- Whatever is read as digits is written as some, and closed. -/
theorem unsigned_of_radix {s : List UInt8}
    (hne : (radix s).2.takeWhile (fun b => (digit? (radix s).1 b).isSome) ≠ []) :
    ∃ text, s = text ++ (radix s).2.dropWhile (fun b => (digit? (radix s).1 b).isSome) ∧
      Unsigned text (radix s).1
        (ofDigits (radix s).1 ((radix s).2.takeWhile fun b => (digit? (radix s).1 b).isSome)) ∧
      Closes text (radix s).1
        ((radix s).2.dropWhile fun b => (digit? (radix s).1 b).isSome) := by
  rcases radix_cases s with ⟨x, d, tail, rfl, hmark, hd, he⟩ | ⟨tail, rfl, hmark, he⟩ | ⟨hs, he⟩
  · rw [he] at hne ⊢
    refine ⟨_, ?_, .hex hmark hne (isDigits_takeWhile 16 _), stops_dropWhile _ _,
      fun hone => by simp at hone⟩
    rw [List.cons_append, List.cons_append, List.takeWhile_append_dropWhile]
  · rw [he]
    have hzero : (digit? 8 '0'.toUInt8).isSome = true := by decide
    dsimp only
    rw [List.takeWhile_cons_of_pos (p := fun b => (digit? 8 b).isSome) hzero,
      List.dropWhile_cons_of_pos (p := fun b => (digit? 8 b).isSome) hzero]
    refine ⟨_, ?_, .octal (isDigits_takeWhile 8 tail), stops_dropWhile _ _, ?_⟩
    · rw [List.cons_append, List.takeWhile_append_dropWhile]
    · intro hone x d more hrest hx
      have hnone : tail.takeWhile (fun b => (digit? 8 b).isSome) = [] := by simpa using hone
      have hall := List.takeWhile_append_dropWhile (p := fun b => (digit? 8 b).isSome) (l := tail)
      rw [hnone, List.nil_append] at hall
      exact hmark x d more (hall ▸ hrest) hx
  · rw [he] at hne ⊢
    cases s with
    | nil => exact absurd rfl hne
    | cons d tail =>
      have hd : (digit? 10 d).isSome = true :=
        Classical.byContradiction fun hd => hne (List.takeWhile_cons_of_neg hd)
      have hnonzero : d ≠ '0'.toUInt8 := fun hz => hs tail (by rw [hz])
      dsimp only
      rw [List.takeWhile_cons_of_pos (p := fun b => (digit? 10 b).isSome) hd,
        List.dropWhile_cons_of_pos (p := fun b => (digit? 10 b).isSome) hd]
      refine ⟨_, ?_, .decimal hnonzero ?_, stops_dropWhile _ _, ?_⟩
      · rw [List.cons_append, List.takeWhile_append_dropWhile]
      · exact List.forall_mem_cons.mpr ⟨hd, isDigits_takeWhile 10 tail⟩
      · exact fun hone => absurd (List.cons.inj hone).1 hnonzero

end Radix

section Reader

theorem Sign.append {text rest : List UInt8} {negative : Bool} (h : Sign text negative)
    (hrest : Stops (fun b => b == '+'.toUInt8 || b == '-'.toUInt8) rest) :
    sign (text ++ rest) = (negative, rest) := by
  cases h with
  | none =>
    cases rest with
    | nil => rfl
    | cons b rest =>
      have hb : b ≠ '+'.toUInt8 ∧ b ≠ '-'.toUInt8 := by simpa using stops_cons.mp hrest
      rw [List.nil_append, sign, if_neg hb.2, if_neg hb.1]
  | plus => rfl
  | minus => rfl

theorem sign_split (s : List UInt8) : ∃ text, Sign text (sign s).1 ∧ s = text ++ (sign s).2 := by
  cases s with
  | nil => exact ⟨[], .none, rfl⟩
  | cons b s =>
    simp only [sign]
    split
    · rename_i hb
      exact ⟨_, .minus, by rw [hb]; rfl⟩
    · split
      · rename_i hb
        exact ⟨_, .plus, by rw [hb]; rfl⟩
      · exact ⟨_, .none, rfl⟩

/-- Blanks and a sign in front of a digit are passed over. -/
theorem sign_skipSpace {blanks signText tail : List UInt8} {negative : Bool} {d : UInt8}
    (hb : ∀ b ∈ blanks, isSpace b = true) (hs : Sign signText negative) (hd : isDigit d = true) :
    sign (skipSpace (blanks ++ (signText ++ d :: tail))) = (negative, d :: tail) := by
  obtain ⟨hspace, hplus, hminus⟩ := plain_of_isDigit d hd
  have hskip : skipSpace (blanks ++ (signText ++ d :: tail)) = signText ++ d :: tail := by
    refine dropWhile_run hb ?_
    cases hs with
    | none => exact stops_cons.mpr hspace
    | plus | minus => exact stops_cons.mpr (by decide)
  rw [hskip]
  exact hs.append (stops_cons.mpr (by simp [hplus, hminus]))

theorem read_unsigned {blanks signText digits rest : List UInt8} {negative : Bool} {r n : Nat}
    (hb : ∀ b ∈ blanks, isSpace b = true) (hs : Sign signText negative)
    (hu : Unsigned digits r n) (hc : Closes digits r rest) :
    read? (blanks ++ (signText ++ (digits ++ rest))) =
      some (clamp (if negative then -n else n), rest) := by
  have hsign : sign (skipSpace (blanks ++ (signText ++ (digits ++ rest)))) =
      (negative, digits ++ rest) := by
    obtain ⟨d, ds, rfl, hd⟩ := hu.head
    exact sign_skipSpace hb hs hd
  obtain ⟨body, hradix, hne, hall, hvalue⟩ := hu.radix_append hc
  have htake := takeWhile_run (p := fun b => (digit? r b).isSome) hall hc.next
  have hdrop := dropWhile_run (p := fun b => (digit? r b).isSome) hall hc.next
  have hsigned := (gathers_ofDigits hu.radix_pos body).signed negative
  rw [hvalue] at hsigned
  simp only [read?, hsign, hradix, htake, hdrop, if_neg hne, hsigned]

theorem read_digits {digits rest : List UInt8} {r n : Nat} (hu : Unsigned digits r n)
    (hc : Closes digits r rest) : read? (digits ++ rest) = some (clamp n, rest) := by
  simpa using read_unsigned (List.forall_mem_nil _) .none hu hc

/-- Everything that the reader finds. -/
theorem read_cases {s rest : List UInt8} {v : Int64} (h : read? s = some (v, rest)) :
    ∃ blanks signText digits negative r n, s = blanks ++ (signText ++ (digits ++ rest)) ∧
      (∀ b ∈ blanks, isSpace b = true) ∧ Sign signText negative ∧ Unsigned digits r n ∧
      Closes digits r rest ∧ v = clamp (if negative then -n else n) := by
  unfold read? at h
  dsimp only at h
  split at h
  · cases h
  · rename_i hne
    obtain ⟨signText, hsigned, hsplit⟩ := sign_split (skipSpace s)
    obtain ⟨text, htext, hu, hc⟩ := unsigned_of_radix hne
    cases h
    refine ⟨s.takeWhile isSpace, signText, text, _, _, _, ?_, fun b hb => mem_takeWhile hb,
      hsigned, hu, hc, (gathers_ofDigits hu.radix_pos _).signed _⟩
    rw [← htext, ← hsplit]
    exact List.takeWhile_append_dropWhile.symm

/-- Nothing is found only where no digit is, since every radix takes the digit that is there. -/
theorem read_eq_none_iff {s : List UInt8} :
    read? s = none ↔ Stops isDigit (sign (skipSpace s)).2 := by
  unfold read?
  generalize sign (skipSpace s) = signed
  obtain ⟨negative, t⟩ := signed
  dsimp only
  rcases radix_cases t with ⟨x, d, tail, rfl, _, hd, he⟩ | ⟨tail, rfl, _, he⟩ | ⟨_, he⟩
  · rw [he]
    dsimp only
    rw [List.takeWhile_cons_of_pos (p := fun b => (digit? 16 b).isSome) hd, stops_cons,
      isDigit_zero]
    simp
  · rw [he]
    dsimp only
    rw [List.takeWhile_cons_of_pos (p := fun b => (digit? 8 b).isSome) (by decide), stops_cons,
      isDigit_zero]
    simp
  · rw [he]
    cases t with
    | nil => simp [stops_nil]
    | cons d tail =>
      dsimp only
      by_cases hd : isDigit d = true <;> simp [stops_cons, isSome_digit_ten, hd]

/-- Blanks in front do not count. -/
theorem read_skipSpace (s : List UInt8) : read? (skipSpace s) = read? s := by
  have hskip : skipSpace (skipSpace s) = skipSpace s := dropWhile_of_stops (stops_dropWhile _ s)
  simp only [read?, hskip]

end Reader

section Longest

variable {text rest : List UInt8} {z : Int}

/-- A number that no longer one replaces is closed. -/
theorem Leads.closed (h : Leads text z rest) :
    ∃ blanks signText digits negative r n, text = blanks ++ (signText ++ digits) ∧
      (∀ b ∈ blanks, isSpace b = true) ∧ Sign signText negative ∧ Unsigned digits r n ∧
      Closes digits r rest ∧ z = if negative then -(n : Int) else n := by
  obtain ⟨hspells, hlongest⟩ := h
  cases hspells with
  | @mk blanks signText digits negative r n hb hs hu =>
    -- More digits, if they make a number, would be part of the text.
    have hmore : ∀ more tail radix m, rest = more ++ tail → Unsigned (digits ++ more) radix m →
        more = [] := by
      intro more tail radix m hrest hm
      refine hlongest more tail (if negative then -(m : Int) else m) hrest ?_
      rw [List.append_assoc, List.append_assoc]
      exact .mk hb hs hm
    refine ⟨_, _, _, _, _, _, rfl, hb, hs, hu, ⟨?_, ?_⟩, rfl⟩
    · intro b hrest
      obtain ⟨tail, rfl⟩ := List.head?_eq_some_iff.mp hrest
      refine Bool.eq_false_iff.mpr fun hdigit => ?_
      have hone : IsDigits r [b] := List.forall_mem_singleton.mpr hdigit
      cases hu with
      | hex mark nonempty all =>
        have hall := List.forall_mem_append.mpr ⟨all, hone⟩
        exact absurd (hmore [b] tail _ _ rfl (.hex mark (by simp) hall)) (by simp)
      | octal all =>
        have hall := List.forall_mem_append.mpr ⟨all, hone⟩
        exact absurd (hmore [b] tail _ _ rfl (.octal hall)) (by simp)
      | decimal nonzero all =>
        have hall := List.forall_mem_append.mpr ⟨all, hone⟩
        exact absurd (hmore [b] tail _ _ rfl (.decimal nonzero hall)) (by simp)
    · intro hzero x d tail hrest hmark
      refine Bool.eq_false_iff.mpr fun hdigit => ?_
      have hone : IsDigits 16 [d] := List.forall_mem_singleton.mpr hdigit
      have hhex : Unsigned (digits ++ [x, d]) 16 (ofDigits 16 [d]) := by
        rw [hzero]
        exact .hex hmark (by simp) hone
      exact absurd (hmore [x, d] tail _ _ hrest hhex) (by simp)

theorem Closes.nil (digits : List UInt8) (r : Nat) : Closes digits r [] :=
  ⟨stops_nil _, fun _ _ _ _ h => nomatch h⟩

/-- Digits end in front of a symbol. -/
theorem closes_symbol {b : UInt8} (hd : isDigit b = false) (hl : isLetter b = false)
    (digits : List UInt8) (r : Nat) (rest : List UInt8) : Closes digits r (b :: rest) := by
  refine ⟨stops_cons.mpr (by rw [digit_symbol hd hl]; rfl), fun _ x d tail hrest hmark => ?_⟩
  obtain rfl := (List.cons.inj hrest).1
  rcases hmark with rfl | rfl <;> cases hl

theorem Closes.of_append {digits more tail : List UInt8} {r : Nat}
    (h : Closes digits r (more ++ tail)) : Closes digits r more := by
  cases more with
  | nil => exact .nil digits r
  | cons b more =>
    refine ⟨h.next.cons _, fun hzero x d rest hmore => ?_⟩
    exact h.mark hzero x d (rest ++ tail) (by rw [hmore]; rfl)

/-- Only a mark makes it matter what comes second. -/
theorem Closes.append {digits tail : List UInt8} {r : Nat} {b : UInt8}
    (h : Closes digits r (b :: tail)) (hb : ¬ IsHexMark b) (more : List UInt8) :
    Closes digits r (b :: tail ++ more) := by
  refine ⟨h.next.cons _, fun _ x d rest hmore hx => ?_⟩
  obtain rfl := (List.cons.inj hmore).1
  exact absurd hx hb

/-- Closed digits end the longest number. A longer one would be read to its own end. -/
theorem leads_of_closes {blanks signText digits rest : List UInt8} {negative : Bool} {r n : Nat}
    (hb : ∀ b ∈ blanks, isSpace b = true) (hs : Sign signText negative) (hu : Unsigned digits r n)
    (hc : Closes digits r rest) :
    Leads (blanks ++ (signText ++ digits)) (if negative then -n else n) rest := by
  refine ⟨.mk hb hs hu, fun more tail w hrest hmore => ?_⟩
  subst hrest
  have hread := read_unsigned hb hs hu hc.of_append
  generalize hlong : blanks ++ (signText ++ digits) ++ more = long at hmore
  cases hmore with
  | @mk blanks' signText' digits' negative' r' n' hb' hs' hu' =>
    have hread' := read_unsigned hb' hs' hu' (.nil digits' r')
    rw [List.append_nil, ← hlong, List.append_assoc, List.append_assoc, hread] at hread'
    exact (Prod.mk.inj (Option.some.inj hread')).2

/-- The reader takes the longest number at the front of a text. -/
theorem read_eq_some_iff {s : List UInt8} {v : Int64} :
    read? s = some (v, rest) ↔ ∃ text z, s = text ++ rest ∧ Leads text z rest ∧ v = clamp z := by
  constructor
  · intro h
    obtain ⟨blanks, signText, digits, negative, r, n, rfl, hb, hs, hu, hc, rfl⟩ := read_cases h
    refine ⟨_, _, ?_, leads_of_closes hb hs hu hc, rfl⟩
    simp only [List.append_assoc]
  · intro hx
    obtain ⟨text, z, rfl, hleads, rfl⟩ := hx
    obtain ⟨blanks, signText, digits, negative, r, n, rfl, hb, hs, hu, hc, rfl⟩ := hleads.closed
    rw [List.append_assoc, List.append_assoc]
    exact read_unsigned hb hs hu hc

theorem Leads.of_append {more : List UInt8} (h : Leads text z (rest ++ more)) :
    Leads text z rest := by
  refine ⟨h.spells, fun longer tail w hrest => h.longest longer (tail ++ more) w ?_⟩
  rw [hrest, List.append_assoc]

/-- Behind a byte that is no mark it does not matter what comes. -/
theorem Leads.append {b : UInt8} (h : Leads text z (b :: rest)) (hb : ¬ IsHexMark b)
    (more : List UInt8) : Leads text z (b :: rest ++ more) := by
  obtain ⟨blanks, signText, digits, negative, r, n, rfl, hblank, hs, hu, hc, rfl⟩ := h.closed
  exact leads_of_closes hblank hs hu (hc.append hb more)

/-- A number begins with a blank, a sign or a digit. -/
theorem Spells.head (h : Spells text z) :
    ∃ b tail, text = b :: tail ∧
      (isSpace b = true ∨ b = '+'.toUInt8 ∨ b = '-'.toUInt8 ∨ isDigit b = true) := by
  cases h with
  | @mk blanks signText digits negative r n hb hs hu =>
    obtain ⟨d, ds, rfl, hd⟩ := hu.head
    cases blanks with
    | cons b blanks => exact ⟨b, _, rfl, Or.inl (hb b List.mem_cons_self)⟩
    | nil =>
      cases hs with
      | none => exact ⟨d, ds, rfl, Or.inr (Or.inr (Or.inr hd))⟩
      | plus => exact ⟨_, _, rfl, Or.inr (Or.inl rfl)⟩
      | minus => exact ⟨_, _, rfl, Or.inr (Or.inr (Or.inl rfl))⟩

end Longest

end ContentType.Numeral
