import ContentType.Proofs.Rule.Description
import ContentType.Proofs.Rule.Literal
import ContentType.Proofs.Text.Size

namespace ContentType
open Byte

/-- The rest of a text from a place on where no character is split: an ASCII byte stands in front of
the place, or behind it. -/
def IsTail (rest s : List UInt8) : Prop :=
  ∃ front, s = front ++ rest ∧
    ((∀ b, front.getLast? = some b → b < 0x80) ∨ ∀ b, rest.head? = some b → b < 0x80)

section Tails

variable {s t rest front : List UInt8}

theorem IsTail.refl (s : List UInt8) : IsTail s s :=
  ⟨[], rfl, Or.inl nofun⟩

theorem IsTail.trans (hst : IsTail rest t) (hs : IsTail t s) : IsTail rest s := by
  obtain ⟨first, rfl, hfirst⟩ := hs
  obtain ⟨second, rfl, hsecond⟩ := hst
  refine ⟨first ++ second, (List.append_assoc ..).symm, ?_⟩
  rcases hsecond with hlast | hhead
  · cases hend : second.getLast? with
    | some b =>
      refine Or.inl fun c hc => ?_
      rw [List.getLast?_append, hend, Option.some_or] at hc
      exact hlast c (hend.trans hc)
    | none =>
      rw [List.getLast?_eq_none_iff.mp hend, List.append_nil]
      rwa [List.getLast?_eq_none_iff.mp hend, List.nil_append] at hfirst
  · exact Or.inr hhead

theorem IsTail.suffix (h : IsTail rest s) : rest <:+ s := by
  obtain ⟨front, rfl, _⟩ := h
  exact List.suffix_append front rest

theorem isTail_append (h : ∀ b ∈ front, b < 0x80) (rest : List UInt8) :
    IsTail rest (front ++ rest) :=
  ⟨front, rfl, Or.inl fun b hb => h b (List.mem_of_getLast? hb)⟩

theorem isTail_cons {b : UInt8} (h : b < 0x80) (rest : List UInt8) : IsTail rest (b :: rest) :=
  isTail_append (List.forall_mem_singleton.mpr h) rest

/-- The rest of a text is a text. -/
theorem IsTail.text {cs : List Char} (h : IsTail rest (cs.flatMap String.utf8EncodeChar)) :
    ∃ ds : List Char, rest = ds.flatMap String.utf8EncodeChar := by
  obtain ⟨front, hcs, hascii⟩ := h
  obtain ⟨_, ds, _, hrest⟩ := Utf8.flatMap_of_append hcs hascii
  exact ⟨ds, hrest⟩

end Tails

namespace Numeral

theorem ascii_of_digit {radix : Nat} {b : UInt8} (h : (digit? radix b).isSome = true) :
    b < 0x80 :=
  (isDigit_or_isLetter h).elim lt_of_isDigit lt_of_isLetter

theorem Unsigned.ascii {text : List UInt8} {radix n : Nat} (h : Unsigned text radix n) :
    ∀ b ∈ text, b < 0x80 := by
  cases h with
  | hex mark _ all =>
    have hmark : ∀ b, IsHexMark b → b < 0x80 := by
      rintro b (rfl | rfl) <;> decide
    exact List.forall_mem_cons.mpr ⟨by decide, List.forall_mem_cons.mpr
      ⟨hmark _ mark, fun b hb => ascii_of_digit (all b hb)⟩⟩
  | octal all => exact List.forall_mem_cons.mpr ⟨by decide, fun b hb => ascii_of_digit (all b hb)⟩
  | decimal _ all => exact fun b hb => ascii_of_digit (all b hb)

theorem isTail_read {s rest : List UInt8} {v : Int64} (h : read? s = some (v, rest)) :
    IsTail rest s := by
  obtain ⟨blanks, signText, digits, negative, r, n, rfl, hb, hs, hu, _⟩ := read_cases h
  have hsign : ∀ b ∈ signText, b < 0x80 := by
    cases hs with
    | none => exact List.forall_mem_nil _
    | plus | minus => exact List.forall_mem_singleton.mpr (by decide)
  exact ((isTail_append hu.ascii rest).trans (isTail_append hsign _)).trans
    (isTail_append (fun b h => lt_of_isSpace (hb b h)) _)

end Numeral

theorem Literal.escape_suffix {s rest : List UInt8} {b : UInt8} (h : escape s = some (b, rest)) :
    rest <:+ s := by
  cases s with
  | nil => cases h
  | cons c s =>
    obtain ⟨n, p, value, _, hescape⟩ := spelledByDigits c
    rw [hescape s] at h
    cases h
    exact (List.drop_suffix _ s).trans (List.suffix_cons c s)

/-- A literal ends in front of a blank or at the end of the line. -/
theorem Literal.read_suffix (room : Nat) (s : List UInt8) :
    (read room s).2 <:+ s ∧ Stops (fun b => !isSpace b) (read room s).2 := by
  fun_induction read room s with
  | case1 s => exact ⟨List.dropWhile_suffix _, stops_dropWhile _ _⟩
  | case2 => exact ⟨List.suffix_rfl, stops_nil _⟩
  | case3 room c s hspace => exact ⟨List.suffix_rfl, stops_cons.mpr (by rw [hspace]; rfl)⟩
  | case4 => exact ⟨List.nil_suffix, stops_nil _⟩
  | case5 room s b rest hescape bs tail hrest hspace ih =>
    rw [hrest] at ih
    exact ⟨ih.1.trans ((escape_suffix hescape).trans (List.suffix_cons _ s)), ih.2⟩
  | case6 room c s hspace hplain bs tail hrest ih =>
    rw [hrest] at ih
    exact ⟨ih.1.trans (List.suffix_cons c s), ih.2⟩

namespace Line

section Readers

variable (type : FieldType) (unsigned : Bool) (s : List UInt8)

theorem isTail_skipSpace : IsTail (skipSpace s) s := by
  have hsplit : s.takeWhile isSpace ++ skipSpace s = s := List.takeWhile_append_dropWhile
  have hblank : ∀ b ∈ s.takeWhile isSpace, b < 0x80 := fun b hb =>
    lt_of_isSpace (mem_takeWhile hb)
  have htail := isTail_append hblank (skipSpace s)
  rwa [hsplit] at htail

theorem isTail_readConstant : IsTail (readConstant type unsigned s).2 s := by
  unfold readConstant
  split
  · exact .refl s
  · rename_i hread
    exact Numeral.isTail_read hread

theorem isTail_readMask : IsTail (readMask type unsigned s).2 s := by
  unfold readMask
  split
  · exact .refl []
  · rename_i c s
    split
    · rename_i hc
      exact (isTail_readConstant type unsigned s).trans (isTail_cons (by rw [hc]; decide) s)
    · exact .refl _

theorem ascii_of_ofByte {b : UInt8} {relation : Relation}
    (h : Relation.ofByte? b = some relation) : b < 0x80 := by
  have hsymbol := List.find?_some (p := fun r : Relation => r.symbol.toUInt8 == b) h
  rw [← eq_of_beq hsymbol]
  cases relation <;> decide

theorem isTail_readRelation : IsTail (readRelation type s).2 s := by
  unfold readRelation
  split
  · exact .refl []
  · rename_i c s
    split
    · exact .refl _
    · rename_i h
      split
      · exact .refl _
      · exact isTail_cons (ascii_of_ofByte h) s
    · rename_i h
      split
      · exact isTail_cons (ascii_of_ofByte h) s
      · exact .refl _
    · rename_i h
      exact isTail_cons (ascii_of_ofByte h) s

theorem isTail_literal (room : Nat) : IsTail (Literal.read room s).2 s := by
  obtain ⟨⟨front, hfront⟩, hstop⟩ := Literal.read_suffix room s
  refine ⟨front, hfront.symm, Or.inr fun b hb => lt_of_isSpace ?_⟩
  simpa using hstop b hb

theorem isTail_readExpected (relation : Relation) :
    IsTail (readExpected type unsigned relation s).2 s := by
  have hskip := isTail_skipSpace s
  by_cases hany : relation = .any
  · unfold readExpected
    rw [if_pos hany]
    exact .refl s
  · by_cases ht : type = .string
    · subst ht
      unfold readExpected
      rw [if_neg hany]
      exact (isTail_literal _ Literal.maxLength).trans hskip
    · rw [readExpected_of_ne_string _ _ hany ht]
      exact (isTail_readConstant type unsigned _).trans hskip

theorem isTail_readNoSpace : IsTail (readNoSpace s).2 s := by
  unfold readNoSpace
  split
  · exact .refl []
  · rename_i c s
    split
    · rename_i hc
      exact isTail_cons (by rw [hc]; decide) s
    · split
      · rename_i hescape
        rw [Bool.and_eq_true, decide_eq_true_eq, decide_eq_true_eq] at hescape
        obtain ⟨rfl, hnext⟩ := hescape
        obtain ⟨tail, rfl⟩ := List.head?_eq_some_iff.mp hnext
        exact (isTail_cons (by decide) tail).trans (isTail_cons (by decide) _)
      · exact .refl _

/-- A description is read from the rest of its test. -/
theorem isTail_readTest (head : Head) :
    ∃ tail, IsTail tail s ∧ (readTest head s).description = description tail := by
  refine ⟨_, ?_, rfl⟩
  exact (isTail_readNoSpace _).trans <| (isTail_skipSpace _).trans <|
    (isTail_readExpected _ _ _ _).trans <| (isTail_readRelation _ _).trans <|
    (isTail_skipSpace _).trans (isTail_readMask _ _ _)

end Readers

section Lines

variable {line : List UInt8} {r : Rule}

theorem isTail_strip (line : List UInt8) : ∃ ends, line = strip line ++ ends ∧
    ∀ b, ends.head? = some b → b < 0x80 := by
  obtain ⟨ends, hline, hall⟩ := strip_append line
  refine ⟨ends, hline, fun b hb => ?_⟩
  rcases hall b (List.mem_of_head? hb) with rfl | rfl <;> decide

/-- A stripped text is a text. -/
theorem strip_text {text : String} (h : line = Utf8.encode text) :
    ∃ cs : List Char, strip line = cs.flatMap String.utf8EncodeChar := by
  obtain ⟨ends, hline, hascii⟩ := isTail_strip line
  obtain ⟨cs, _, hstrip, _⟩ := Utf8.flatMap_of_append (h.symm.trans hline) (Or.inr hascii)
  exact ⟨cs, hstrip⟩

/-- The description of a rule is read from the rest of its line. -/
theorem isTail_description (h : read line = .ok (some r)) :
    ∃ tail, IsTail tail (strip line) ∧ r.description = description tail := by
  obtain ⟨head, test, hhead, rfl⟩ := read_cases h
  obtain ⟨text, hline, htext⟩ := headText_of_readHead hhead
  obtain ⟨tail, htail, hdescription⟩ := isTail_readTest test head
  obtain ⟨b, hlast, hletter⟩ := htext.getLast
  refine ⟨tail, htail.trans ⟨text, hline, Or.inl fun c hc => ?_⟩, hdescription⟩
  obtain rfl := Option.some.inj (hlast.symm.trans hc)
  exact lt_of_isLetter hletter

end Lines

section Bytes

variable {room : Nat} {s : List UInt8}

theorem length_descriptionBytes (room : Nat) (s : List UInt8) :
    (descriptionBytes room s).length ≤ room := by
  fun_induction descriptionBytes room s with
  | case1 => exact Nat.le_refl 0
  | case2 => exact Nat.zero_le _
  | case3 => exact Nat.zero_le _
  | case4 room c s hmark hescape ih => exact Nat.succ_le_succ ih
  | case5 room c s hmark hescape ih => exact Nat.succ_le_succ ih

theorem mem_of_mem_descriptionBytes {b : UInt8} (h : b ∈ descriptionBytes room s) : b ∈ s := by
  fun_induction descriptionBytes room s with
  | case1 => cases h
  | case2 => cases h
  | case3 => cases h
  | case4 room c s hmark hescape ih =>
    rw [Bool.and_eq_true, decide_eq_true_eq, decide_eq_true_eq] at hescape
    rcases List.mem_cons.mp h with rfl | hb
    · exact List.mem_cons_of_mem c (List.mem_of_head? hescape.2)
    · exact List.mem_cons_of_mem c (List.mem_of_mem_tail (ih hb))
  | case5 room c s hmark hescape ih =>
    rcases List.mem_cons.mp h with rfl | hb
    · exact List.mem_cons_self
    · exact List.mem_cons_of_mem c (ih hb)

/-- Bytes past the ASCII ones are copied as they are. -/
theorem descriptionBytes_append {run : List UInt8} (hrun : ∀ b ∈ run, ¬ b < 0x80) (room : Nat)
    (rest : List UInt8) :
    descriptionBytes room (run ++ rest) <+: run ++ descriptionBytes (room - run.length) rest := by
  induction run generalizing room with
  | nil => exact List.prefix_rfl
  | cons c run ih =>
    obtain ⟨hc, hall⟩ := List.forall_mem_cons.mp hrun
    have hmark : c ≠ '#'.toUInt8 := by rintro rfl; exact hc (by decide)
    have hslash : c ≠ '\\'.toUInt8 := by rintro rfl; exact hc (by decide)
    cases room with
    | zero => exact List.nil_prefix
    | succ room =>
      rw [List.cons_append, descriptionBytes, if_neg hmark, if_neg (by simp [hslash]),
        List.length_cons, Nat.add_sub_add_right, List.cons_append, List.cons_prefix_cons]
      exact ⟨rfl, ih hall room⟩

/-- What a description keeps of a text is a text, up to where it is cut off. -/
theorem descriptionBytes_text (room : Nat) (cs : List Char) :
    ∃ ds : List Char, descriptionBytes room (cs.flatMap String.utf8EncodeChar) <+:
      ds.flatMap String.utf8EncodeChar := by
  generalize hn : cs.length = n
  induction n using Nat.strongRecOn generalizing room cs with
  | ind n ih =>
    subst hn
    have hascii : ∀ {c : Char}, c.toNat < 0x80 → ∀ more, (c :: more).flatMap String.utf8EncodeChar =
        c.toUInt8 :: more.flatMap String.utf8EncodeChar := by
      intro c hc more
      rw [List.flatMap_cons, Utf8.utf8EncodeChar_ascii hc, List.singleton_append]
    cases cs with
    | nil => exact ⟨[], by cases room <;> exact List.nil_prefix⟩
    | cons c cs =>
      by_cases hc : c.toNat < 0x80
      · cases room with
        | zero => exact ⟨[], List.nil_prefix⟩
        | succ room =>
          rw [hascii hc, descriptionBytes]
          split
          · exact ⟨[], List.nil_prefix⟩
          · split
            · rename_i hescape
              rw [Bool.and_eq_true, decide_eq_true_eq, decide_eq_true_eq] at hescape
              cases cs with
              | nil => cases hescape.2
              | cons d cs =>
                have hd : d.toNat < 0x80 := by
                  refine Classical.byContradiction fun hd => ?_
                  obtain ⟨b, bytes, hbytes⟩ :=
                    List.exists_cons_of_ne_nil (Utf8.utf8EncodeChar_ne_nil d)
                  have hle := Utf8.le_of_mem_utf8EncodeChar (Nat.le_of_not_lt hd) (b := b)
                    (by rw [hbytes]; exact List.mem_cons_self)
                  rw [List.flatMap_cons, hbytes] at hescape
                  obtain rfl := Option.some.inj hescape.2
                  exact absurd hle (by decide)
                obtain ⟨ds, hds⟩ := ih cs.length (by simp) room cs rfl
                refine ⟨'#' :: ds, ?_⟩
                rw [hascii hd, List.tail_cons, hascii (by decide)]
                exact List.cons_prefix_cons.mpr ⟨rfl, hds⟩
            · obtain ⟨ds, hds⟩ := ih cs.length (by simp) room cs rfl
              exact ⟨c :: ds, by rw [hascii hc]; exact List.cons_prefix_cons.mpr ⟨rfl, hds⟩⟩
      · have hpast : ∀ b ∈ String.utf8EncodeChar c, ¬ b < 0x80 := by
          intro b hb
          rw [UInt8.lt_iff_toNat_lt]
          exact Nat.not_lt.mpr (Utf8.le_of_mem_utf8EncodeChar (Nat.le_of_not_lt hc) hb)
        obtain ⟨ds, hds⟩ := ih cs.length (by simp) (room - (String.utf8EncodeChar c).length) cs rfl
        refine ⟨c :: ds, ?_⟩
        rw [List.flatMap_cons, List.flatMap_cons]
        exact (descriptionBytes_append hpast room _).trans
          ((List.prefix_append_right_inj _).mpr hds)

end Bytes

/-- A description ends with no blank. It takes at most 49 bytes on a line of ASCII bytes, at most 51
on any text, whose last character may be cut off, and at most 147 on any bytes: it is decoded from
at most 49 bytes of the line, and each ill-formed piece among them makes it longer by two bytes at
most. -/
theorem read_description_size {line : List UInt8} {r : Rule} (h : read line = .ok (some r)) :
    (∀ b, (Utf8.encode r.description).getLast? = some b → isSpace b = false) ∧
    ((∀ b ∈ line, b < 0x80) → r.description.utf8ByteSize ≤ 49) ∧
    (∀ text, line = Utf8.encode text → r.description.utf8ByteSize ≤ 51) ∧
    r.description.utf8ByteSize ≤ 147 ∧
    ∃ tail kept, tail <:+ strip line ∧ kept <+: descriptionBytes 49 tail ∧ kept.length ≤ 49 ∧
      r.description = Utf8.decodeLossy kept ∧ kept.length ≤ r.description.utf8ByteSize ∧
      r.description.utf8ByteSize ≤ kept.length + 2 * Utf8.gaps kept := by
  obtain ⟨tail, htail, hdescription⟩ := isTail_description h
  obtain ⟨kept, hkept, hbegins, _⟩ := description_eq tail
  have hd : r.description = Utf8.decodeLossy kept := hdescription.trans hkept
  have hlength : kept.length ≤ 49 :=
    Nat.le_trans hbegins.length_le (length_descriptionBytes 49 tail)
  obtain ⟨hleast, hmost, hgaps⟩ := Utf8.size_decodeLossy kept
  rw [← hd] at hleast hmost
  refine ⟨fun b hb => ?_, fun hascii => ?_, fun text htext => ?_, by omega,
    tail, kept, htail.suffix, hbegins, hlength, hd, hleast, hmost⟩
  · rw [hdescription] at hb
    exact stops_reverse_description tail b (by rwa [List.head?_reverse])
  · have hall : ∀ b ∈ kept, b < 0x80 := by
      intro b hb
      have hmem := htail.suffix.subset (mem_of_mem_descriptionBytes (hbegins.subset hb))
      obtain ⟨ends, hline, _⟩ := strip_append line
      exact hascii b (hline ▸ List.mem_append_left ends hmem)
    rwa [hd, ← Utf8.length_encode, Utf8.decodeLossy_of_ascii hall]
  · obtain ⟨cs, hcs⟩ := strip_text htext
    rw [hcs] at htail
    obtain ⟨ds, rfl⟩ := htail.text
    obtain ⟨es, hes⟩ := descriptionBytes_text 49 ds
    have hgap := Utf8.gaps_cut (hbegins.trans hes)
    omega

/-- The line of a byte that may be anything, with a description. -/
def describedLine (s : List UInt8) : List UInt8 :=
  ascii "0 byte x " ++ s

def describedRule (description : String) : Rule :=
  ⟨0, none, 0, .byte, -1, .any, .none, false, description, false, 0⟩

theorem read_describedLine {s : List UInt8} {b : UInt8} (hlast : s.getLast? = some b)
    (hnl : b ≠ 0x0a) (hcr : b ≠ 0x0d) (hbegins : Stops isSpace s)
    (hspaced : readNoSpace s = (false, s)) :
    read (describedLine s) = .ok (some (describedRule (description s))) := by
  have hline : ascii "0 byte x " = ascii "0 " ++ typeText false .byte ++ ascii " x " := by rfl
  have hlast' : (ascii " x " ++ s).getLast? = some b := by
    rw [List.getLast?_append, hlast, Option.some_or]
  have hskip : skipSpace (0x20 :: s) = s := dropWhile_of_stops hbegins
  have htest : readTest ⟨0, none, 0, false, .byte⟩ (ascii " x " ++ s) =
      { describedRule (description (readNoSpace (skipSpace (0x20 :: s))).2) with
        noSpace := (readNoSpace (skipSpace (0x20 :: s))).1 } := rfl
  rw [hskip, hspaced] at htest
  rw [describedLine, hline, List.append_assoc, read_headText (headText_zero false .byte),
    strip_of_getLast hlast' hnl hcr, htest]
  rfl

theorem description_of_chars {s : List UInt8} {cs : List Char}
    (h : (Utf8.decode ((descriptionBytes maxDescription s).reverse.dropWhile isSpace).reverse).map
      (fun c => c.getD '\ufffd') = cs) : description s = String.ofList cs :=
  congrArg String.ofList h

/-- Two bytes of a character behind as many others as leave room for one. -/
def cutBytes : List UInt8 :=
  List.replicate 48 'a'.toUInt8 ++ [0xc3, 0xa9]

def cutText : String :=
  String.ofList ("0 byte x ".toList ++ (List.replicate 48 'a' ++ ['é']))

def cutRule : Rule :=
  describedRule (String.ofList (List.replicate 48 'a' ++ ['\ufffd']))

theorem encode_cutText : Utf8.encode cutText = describedLine cutBytes := by
  unfold Utf8.encode cutText
  rw [String.toList_ofList]
  rfl

theorem read_cutText : read (Utf8.encode cutText) = .ok (some cutRule) := by
  have hdescription : description cutBytes = String.ofList (List.replicate 48 'a' ++ ['\ufffd']) :=
    description_of_chars (by decide +kernel)
  have hread := read_describedLine (s := cutBytes) (b := 0xa9) rfl (by decide) (by decide)
    (stops_cons.mpr (by decide)) rfl
  rw [encode_cutText, hread, hdescription, cutRule]

theorem read_description_size_cut :
    read (Utf8.encode cutText) = .ok (some cutRule) ∧ cutRule.description.utf8ByteSize ≤ 51 :=
  ⟨read_cutText, (read_description_size read_cutText).2.2.1 cutText rfl⟩

/-- Both limits beyond 49 bytes are reached, one by a text and one by bytes that are none. -/
theorem read_description_size_exceeded :
    read (Utf8.encode cutText) = .ok (some cutRule) ∧ cutRule.description.utf8ByteSize = 51 ∧
      read (describedLine (List.replicate 49 0xff)) =
        .ok (some (describedRule (String.ofList (List.replicate 49 '\ufffd')))) ∧
      (String.ofList (List.replicate 49 '\ufffd')).utf8ByteSize = 147 := by
  have hdescription : description (List.replicate 49 0xff) =
      String.ofList (List.replicate 49 '\ufffd') :=
    description_of_chars (by decide +kernel)
  have hread := read_describedLine (s := List.replicate 49 0xff) (b := 0xff) rfl (by decide)
    (by decide) (stops_cons.mpr (by decide)) rfl
  rw [hdescription] at hread
  exact ⟨read_cutText, Utf8.size_ofList _, hread, Utf8.size_ofList _⟩

end Line

end ContentType
