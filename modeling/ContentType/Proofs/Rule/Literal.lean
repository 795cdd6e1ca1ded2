import ContentType.Proofs.Rule.Constant
import ContentType.Proofs.Rule.Head

namespace ContentType
open Byte

namespace Literal

/-- The bytes before the first blank that no backslash escapes. The flag says whether the first byte
is escaped. -/
def tokenFrom : Bool → List UInt8 → List UInt8
  | _, [] => []
  | true, c :: s => c :: tokenFrom false s
  | false, c :: s => if isSpace c then [] else c :: tokenFrom (c == '\\'.toUInt8) s

def token (s : List UInt8) : List UInt8 :=
  tokenFrom false s

def afterToken (s : List UInt8) : List UInt8 :=
  s.drop (token s).length

/-- The first byte that a text decodes to, and what follows it. -/
def next : List UInt8 → Option (UInt8 × List UInt8)
  | [] => none
  | c :: s => if c = '\\'.toUInt8 then escape s else some (c, s)

/-- A byte that stands for itself in a token. -/
def IsPlain (b : UInt8) : Prop :=
  isSpace b = false ∧ b ≠ '\\'.toUInt8

instance (b : UInt8) : Decidable (IsPlain b) :=
  inferInstanceAs (Decidable (_ ∧ _))

theorem isPlain_of_digit {radix : Nat} {b : UInt8} (h : (digit? radix b).isSome = true) :
    IsPlain b := by
  have hclass := isDigit_or_isLetter h
  refine ⟨hclass.elim not_isSpace_of_isDigit not_isSpace_of_isLetter, ?_⟩
  rintro rfl
  rcases hclass with hdigit | hletter
  · cases hdigit
  · cases hletter

theorem isPlain_of_isOctal (b : UInt8) (h : isOctal b = true) : IsPlain b :=
  isPlain_of_digit h

theorem isPlain_of_isHex (b : UInt8) (h : isHex b = true) : IsPlain b :=
  isPlain_of_digit h

/-- An escape that begins with this byte is what some digits behind it spell, none when the byte is
a letter of its own. -/
def SpelledByDigits (c : UInt8) : Prop :=
  ∃ (n : Nat) (p : UInt8 → Bool) (value : List UInt8 → UInt8),
    (∀ b, p b = true → IsPlain b) ∧
    ∀ s, escape (c :: s) =
      some (value ((s.take n).takeWhile p), s.drop ((s.take n).takeWhile p).length)

theorem spelledByDigits (c : UInt8) : SpelledByDigits c := by
  have hletter : ∀ b, (∀ s, escape (c :: s) = some (b, s)) → SpelledByDigits c := fun b h =>
    ⟨0, isOctal, fun _ => b, isPlain_of_isOctal, h⟩
  by_cases hn : c = 'n'.toUInt8
  · exact hletter 0x0a fun s => by simp only [escape, if_pos hn]
  by_cases hr : c = 'r'.toUInt8
  · exact hletter 0x0d fun s => by simp only [escape, if_neg hn, if_pos hr]
  by_cases hb : c = 'b'.toUInt8
  · exact hletter 0x08 fun s => by simp only [escape, if_neg hn, if_neg hr, if_pos hb]
  by_cases ht : c = 't'.toUInt8
  · exact hletter 0x09 fun s => by simp only [escape, if_neg hn, if_neg hr, if_neg hb, if_pos ht]
  by_cases hf : c = 'f'.toUInt8
  · exact hletter 0x0c fun s => by
      simp only [escape, if_neg hn, if_neg hr, if_neg hb, if_neg ht, if_pos hf]
  by_cases hv : c = 'v'.toUInt8
  · exact hletter 0x0b fun s => by
      simp only [escape, if_neg hn, if_neg hr, if_neg hb, if_neg ht, if_neg hf, if_pos hv]
  by_cases hoctal : isOctal c = true
  · refine ⟨2, isOctal, fun digits => UInt8.ofNat (ofDigits 8 (c :: digits)), isPlain_of_isOctal,
      fun s => ?_⟩
    simp only [escape, if_neg hn, if_neg hr, if_neg hb, if_neg ht, if_neg hf, if_neg hv,
      if_pos hoctal]
  by_cases hx : c = 'x'.toUInt8
  · refine ⟨3, isHex, fun digits => if digits = [] then c else UInt8.ofNat (ofDigits 16 digits),
      isPlain_of_isHex, fun s => ?_⟩
    simp only [escape, if_neg hn, if_neg hr, if_neg hb, if_neg ht, if_neg hf, if_neg hv,
      if_neg hoctal, if_pos hx]
    by_cases hdigits : (s.take 3).takeWhile isHex = []
    · rw [if_pos hdigits, if_pos hdigits, hdigits]
      rfl
    · rw [if_neg hdigits, if_neg hdigits]
  · exact hletter c fun s => by
      simp only [escape, if_neg hn, if_neg hr, if_neg hb, if_neg ht, if_neg hf, if_neg hv,
        if_neg hoctal, if_neg hx]

theorem length_escape_lt {s rest : List UInt8} {b : UInt8} (h : escape s = some (b, rest)) :
    rest.length < s.length := by
  cases s with
  | nil => cases h
  | cons c s =>
    obtain ⟨n, p, value, _, hescape⟩ := spelledByDigits c
    rw [hescape s] at h
    cases h
    rw [List.length_drop, List.length_cons]
    omega

theorem length_next_lt {s rest : List UInt8} {b : UInt8} (h : next s = some (b, rest)) :
    rest.length < s.length := by
  cases s with
  | nil => cases h
  | cons c s =>
    simp only [next] at h
    split_ifs at h
    · exact Nat.lt_succ_of_lt (length_escape_lt h)
    · cases h
      exact Nat.lt_succ_self _

/-- All bytes that a text decodes to. -/
def decode (s : List UInt8) : List UInt8 :=
  match h : next s with
  | none => []
  | some (b, rest) =>
    have := length_next_lt h
    b :: decode rest
termination_by s.length

/-- What is left of a text when so many bytes of it are decoded. -/
def unread : Nat → List UInt8 → List UInt8
  | 0, s => s
  | n + 1, s =>
    match next s with
    | none => []
    | some (_, rest) => unread n rest

section Tokens

variable {c : UInt8} {s run : List UInt8}

theorem tokenFrom_begins (escaped : Bool) (s : List UInt8) : tokenFrom escaped s <+: s := by
  fun_induction tokenFrom escaped s with
  | case1 => exact List.nil_prefix
  | case2 c s ih => exact List.cons_prefix_cons.mpr ⟨rfl, ih⟩
  | case3 => exact List.nil_prefix
  | case4 c s _ ih => exact List.cons_prefix_cons.mpr ⟨rfl, ih⟩

theorem token_append_afterToken (s : List UInt8) : token s ++ afterToken s = s :=
  List.prefix_iff_eq_append.mp (tokenFrom_begins false s)

theorem stops_drop_tokenFrom (escaped : Bool) (s : List UInt8) :
    Stops (fun b => !isSpace b) (s.drop (tokenFrom escaped s).length) := by
  fun_induction tokenFrom escaped s with
  | case1 => exact stops_nil _
  | case2 c s ih => exact ih
  | case3 c s hspace => exact stops_cons.mpr (by rw [hspace]; rfl)
  | case4 c s _ ih => exact ih

/-- The text from the first blank on begins inside the token, or else it is all that stands behind
the token. -/
theorem dropWhile_token (s : List UInt8) :
    s.dropWhile (fun b => !isSpace b) =
      (token s).dropWhile (fun b => !isSpace b) ++ afterToken s := by
  have hstops : Stops (fun b => !isSpace b) (afterToken s) := stops_drop_tokenFrom false s
  have happend : (token s ++ afterToken s).dropWhile (fun b => !isSpace b) = _ :=
    List.dropWhile_append
  rw [token_append_afterToken, dropWhile_of_stops hstops] at happend
  rw [happend]
  split
  · rename_i hempty
    rw [List.isEmpty_iff.mp hempty, List.nil_append]
  · rfl

theorem token_plain (hc : IsPlain c) :
    token (c :: s) = c :: token s ∧ afterToken (c :: s) = afterToken s := by
  obtain ⟨hspace, hslash⟩ := hc
  have htoken : token (c :: s) = c :: token s := by
    simp only [token, tokenFrom, hspace, Bool.false_eq_true, if_false, beq_false_of_ne hslash]
  refine ⟨htoken, ?_⟩
  rw [afterToken, htoken]
  rfl

theorem token_backslash (c : UInt8) (s : List UInt8) :
    token ('\\'.toUInt8 :: c :: s) = '\\'.toUInt8 :: c :: token s ∧
      afterToken ('\\'.toUInt8 :: c :: s) = afterToken s :=
  ⟨rfl, rfl⟩

theorem token_run (hrun : ∀ b ∈ run, IsPlain b) :
    token (run ++ s) = run ++ token s ∧ afterToken (run ++ s) = afterToken s := by
  induction run with
  | nil => exact ⟨rfl, rfl⟩
  | cons b run ih =>
    obtain ⟨htoken, hafter⟩ := ih fun a ha => hrun a (List.mem_cons_of_mem b ha)
    obtain ⟨htoken', hafter'⟩ := token_plain (s := run ++ s) (hrun b List.mem_cons_self)
    exact ⟨by rw [List.cons_append, htoken', htoken, List.cons_append],
      by rw [List.cons_append, hafter', hafter]⟩

end Tokens

section Decoding

variable {b : UInt8} {s t rest : List UInt8} {p : UInt8 → Bool}

theorem decode_of_none (h : next s = none) : decode s = [] := by
  rw [decode]
  split
  · rfl
  · rename_i hsome
    rw [h] at hsome
    cases hsome

theorem decode_of_some (h : next s = some (b, rest)) : decode s = b :: decode rest := by
  rw [decode]
  split
  · rename_i hnone
    rw [h] at hnone
    cases hnone
  · rename_i hsome
    rw [h] at hsome
    cases hsome
    rfl

/-- What is left of a text decodes to what is left of its bytes. -/
theorem decode_unread (n : Nat) (s : List UInt8) : decode (unread n s) = (decode s).drop n := by
  fun_induction unread n s with
  | case1 => rfl
  | case2 n s hnone => rw [decode_of_none hnone, decode_of_none rfl, List.drop_nil]
  | case3 n s b rest hsome ih => rw [ih, decode_of_some hsome, List.drop_succ_cons]

theorem escape_cons_ne_none (c : UInt8) (s : List UInt8) : escape (c :: s) ≠ none := by
  obtain ⟨n, p, value, _, hescape⟩ := spelledByDigits c
  rw [hescape s]
  exact nofun

/-- Only a backslash at the very end is left when all bytes are decoded. -/
theorem solid_of_decode_eq_nil (h : decode s = []) : ∀ b ∈ s, isSpace b = false := by
  cases s with
  | nil => exact List.forall_mem_nil _
  | cons c s =>
    cases hnext : next (c :: s) with
    | some found =>
      rw [decode_of_some hnext] at h
      cases h
    | none =>
      rw [next] at hnext
      split_ifs at hnext with hslash
      cases s with
      | nil => exact List.forall_mem_singleton.mpr (by rw [hslash]; rfl)
      | cons d s => exact absurd hnext (escape_cons_ne_none d s)

section Digits

variable (hp : ∀ b, p b = true → IsPlain b)
include hp

/-- The digits of an escape all stand in the token. -/
theorem takeWhile_take_token (n : Nat) (s : List UInt8) :
    ((token s).take n).takeWhile p = (s.take n).takeWhile p := by
  induction n generalizing s with
  | zero => rfl
  | succ n ih =>
    cases s with
    | nil => rfl
    | cons c s =>
      by_cases hc : p c = true
      · rw [(token_plain (hp c hc)).1, List.take_succ_cons, List.take_succ_cons,
          List.takeWhile_cons_of_pos hc, List.takeWhile_cons_of_pos hc, ih]
      · rw [List.take_succ_cons, List.takeWhile_cons_of_neg hc, token, tokenFrom]
        split
        · rfl
        · exact List.takeWhile_cons_of_neg hc

theorem token_drop_digits (n : Nat) (s : List UInt8) :
    let digits := (s.take n).takeWhile p
    token (s.drop digits.length) = (token s).drop digits.length ∧
      afterToken (s.drop digits.length) = afterToken s := by
  intro digits
  have hprefix : digits <+: s := (List.takeWhile_prefix p).trans (List.take_prefix n s)
  obtain ⟨htoken, hafter⟩ := token_run (s := s.drop digits.length)
    fun b hb => hp b (mem_takeWhile hb)
  rw [List.prefix_iff_eq_append.mp hprefix] at htoken hafter
  exact ⟨by rw [htoken, List.drop_left], hafter.symm⟩

end Digits

/-- An escape is the same in the token as on the line, and leaves the same text behind. -/
theorem escape_token {c : UInt8} (h : escape (c :: s) = some (b, rest)) :
    escape (c :: token s) = some (b, token rest) ∧ afterToken rest = afterToken s := by
  obtain ⟨n, p, value, hp, hescape⟩ := spelledByDigits c
  obtain ⟨htoken, hafter⟩ := token_drop_digits hp n s
  rw [hescape s] at h
  rw [hescape (token s), takeWhile_take_token hp]
  cases h
  exact ⟨by rw [htoken], hafter⟩

/-- Reading keeps as many bytes of a token as there is room for, and goes on at the first blank that
is not read, in the token or behind it. -/
theorem read_eq_token (room : Nat) (s : List UInt8) :
    read room s = ((decode (token s)).take room,
      (unread room (token s)).dropWhile (fun b => !isSpace b) ++ afterToken s) := by
  fun_induction read room s with
  | case1 s =>
    rw [List.take_zero, unread, dropWhile_token]
  | case2 room => rw [token, tokenFrom, decode_of_none rfl]; rfl
  | case3 room c s hspace =>
    have htoken : token (c :: s) = [] := if_pos hspace
    rw [afterToken, htoken, decode_of_none rfl]
    rfl
  | case4 room s hnone hspace =>
    cases s with
    | cons d s => exact absurd hnone (escape_cons_ne_none d s)
    | nil =>
      have htoken : token ['\\'.toUInt8] = ['\\'.toUInt8] := rfl
      rw [afterToken, htoken, decode_of_none rfl]
      rfl
  | case5 room s b rest hescape bs tail hrest hspace ih =>
    cases s with
    | nil => cases hescape
    | cons d s =>
      obtain ⟨hread, hafter⟩ := escape_token hescape
      have hnext : next ('\\'.toUInt8 :: d :: token s) = some (b, token rest) := hread
      obtain ⟨htoken, htail⟩ := token_backslash d s
      rw [hrest] at ih
      rw [htoken, htail, decode_of_some hnext, unread, hnext, List.take_succ_cons, ← hafter]
      cases ih
      rfl
  | case6 room c s hspace hplain bs tail hrest ih =>
    have hnext : next (c :: token s) = some (c, token s) := if_neg hplain
    obtain ⟨htoken, htail⟩ := token_plain ⟨Bool.eq_false_iff.mpr hspace, hplain⟩
    rw [hrest] at ih
    rw [htoken, htail, decode_of_some hnext, unread, hnext, List.take_succ_cons]
    cases ih
    rfl

/-- Nothing of the token is left when no blank is in the part that is not read. -/
theorem rest_eq_afterToken {room : Nat} (h : ∀ b ∈ unread room (token s), isSpace b = false) :
    (unread room (token s)).dropWhile (fun b => !isSpace b) ++ afterToken s = afterToken s := by
  rw [List.append_left_eq_self, List.dropWhile_eq_nil_iff]
  intro b hb
  rw [h b hb]
  rfl

theorem solid_of_length_le {room : Nat} (h : (decode t).length ≤ room) :
    ∀ b ∈ unread room t, isSpace b = false :=
  solid_of_decode_eq_nil (by rw [decode_unread, List.drop_eq_nil_iff]; exact h)

end Decoding

end Literal

namespace Line

/-- What the literal of a test is read from, behind the relation and blanks. -/
def literalText (test : List UInt8) : List UInt8 :=
  skipSpace (testRelation .string test).2

/-- Whether the description is joined to what precedes it, and the description. -/
def ending (s : List UInt8) : Bool × String :=
  ((readNoSpace (skipSpace s)).1, description (readNoSpace (skipSpace s)).2)

theorem readTest_literal {head : Head} (ht : head.type = .string) (test : List UInt8) :
    (readTest head test).relation = (testRelation .string test).1 ∧
    ((testRelation .string test).1 ≠ .any →
      let found := Literal.read Literal.maxLength (literalText test)
      (readTest head test).expected = .bytes found.1 ∧
      ((readTest head test).noSpace, (readTest head test).description) = ending found.2) := by
  have hrelation : readRelation head.type (skipSpace (readMask head.type head.unsigned test).2) =
      testRelation .string test := by
    rw [readMask_eq, ht]
    rfl
  refine ⟨congrArg Prod.fst hrelation, fun hany => ?_⟩
  have hexpected : readExpected head.type head.unsigned (testRelation .string test).1
      (testRelation .string test).2 =
        (.bytes (Literal.read Literal.maxLength (literalText test)).1,
          (Literal.read Literal.maxLength (literalText test)).2) := by
    rw [ht, readExpected, if_neg hany]
    rfl
  simp only [readTest, hrelation, hexpected, ending, and_self]

/-- A string rule expects the first 63 bytes that the token of its literal decodes to. Its
description is what stands behind the token, unless the literal was cut in front of an escaped
blank: then it begins at this blank. -/
theorem read_decodes_token {line : List UInt8} {r : Rule} (h : read line = .ok (some r))
    (ht : r.type = .string) (hany : r.relation ≠ .any) :
    ∃ text test, strip line = text ++ test ∧ HeadText text r.head ∧
      r.relation = (testRelation .string test).1 ∧
      let s := literalText test
      let token := Literal.token s
      let unread := Literal.unread 63 token
      r.expected = .bytes ((Literal.decode token).take 63) ∧
      Literal.decode unread = (Literal.decode token).drop 63 ∧
      (r.noSpace, r.description) =
        ending (unread.dropWhile (fun b => !isSpace b) ++ Literal.afterToken s) ∧
      ((∀ b ∈ unread, isSpace b = false) →
        (r.noSpace, r.description) = ending (Literal.afterToken s)) ∧
      ((Literal.decode token).length ≤ 63 →
        (r.noSpace, r.description) = ending (Literal.afterToken s)) := by
  obtain ⟨head, test, hhead, rfl⟩ := read_cases h
  obtain ⟨text, hline, htext⟩ := headText_of_readHead hhead
  obtain ⟨hrelation, hliteral⟩ := readTest_literal ht test
  obtain ⟨hexpected, hending⟩ := hliteral (hrelation ▸ hany)
  have hread := Literal.read_eq_token Literal.maxLength (literalText test)
  rw [hread] at hexpected hending
  have hsolid : (∀ b ∈ Literal.unread 63 (Literal.token (literalText test)), isSpace b = false) →
      ((readTest head test).noSpace, (readTest head test).description) =
        ending (Literal.afterToken (literalText test)) := by
    intro hall
    rw [hending]
    exact congrArg ending (Literal.rest_eq_afterToken hall)
  have hwhole := fun hlength => hsolid (Literal.solid_of_length_le hlength)
  exact ⟨text, test, hline, htext, hrelation, hexpected, Literal.decode_unread 63 _, hending,
    hsolid, hwhole⟩

/-- A rule whose literal has no room for more. -/
def fullRule (description : String) : Rule :=
  ⟨0, none, 0, .string, -1, .equal, .bytes (List.replicate 63 0x41), false, description, false, 0⟩

def fullLine (tail : String) : List UInt8 :=
  ascii "0 string " ++ List.replicate 63 0x41 ++ ascii tail

/-- The rest of the token is a blank, but written as a number, and `0x`. -/
theorem read_decodes_token_cut :
    read (fullLine "\\0400x text/x-long") = .ok (some (fullRule "text/x-long")) ∧
      ∃ text test, strip (fullLine "\\0400x text/x-long") = text ++ test ∧
        HeadText text (fullRule "text/x-long").head ∧
        (Literal.decode (Literal.token (literalText test))).take 63 = List.replicate 63 0x41 := by
  have hread : read (fullLine "\\0400x text/x-long") = .ok (some (fullRule "text/x-long")) := by
    decide +kernel
  obtain ⟨text, test, hline, htext, _, hexpected, _⟩ := read_decodes_token hread rfl nofun
  exact ⟨hread, text, test, hline, htext, (Expected.bytes.inj hexpected).symm⟩

/-- The token goes on with an escaped blank, and behind it stands the description, but what is read
as the description begins inside the token. -/
theorem read_decodes_token_escaped_blank :
    HeadText (ascii "0 string") (fullRule "B text/x-long").head ∧
      read (fullLine "\\ B text/x-long") = .ok (some (fullRule "B text/x-long")) ∧
      ∃ test, fullLine "\\ B text/x-long" = ascii "0 string" ++ test ∧
        Literal.token (literalText test) = List.replicate 63 0x41 ++ ascii "\\ B" ∧
        ending (Literal.afterToken (literalText test)) = (false, "text/x-long") ∧
        ((fullRule "B text/x-long").noSpace, (fullRule "B text/x-long").description) ≠
          ending (Literal.afterToken (literalText test)) := by
  refine ⟨headText_zero false .string, by decide +kernel,
    ascii " " ++ List.replicate 63 0x41 ++ ascii "\\ B text/x-long", by decide +kernel,
    by decide +kernel, by decide +kernel, by decide +kernel⟩

end Line

end ContentType
