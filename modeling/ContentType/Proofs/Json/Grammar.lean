import ContentType.Json.Parser
import ContentType.Proofs.Byte
import ContentType.Text.Decimal
import Mathlib.Data.List.Basic

namespace ContentType.Json

/-- A code unit in four hex digits of either case. -/
inductive UnitText : List Char → Nat → Prop
  | mk {a b c d : Char} {w x y z : Nat} (ha : hexValue? a = some w) (hb : hexValue? b = some x)
      (hc : hexValue? c = some y) (hd : hexValue? d = some z) :
      UnitText [a, b, c, d] (((w * 16 + x) * 16 + y) * 16 + z)

/-- A character inside a string: itself, escaped by a letter, or by its one or two code units. -/
inductive CharText : List Char → Char → Prop
  | plain {c : Char} (hlow : 0x20 ≤ c.toNat) (hquote : c ≠ '"') (hslash : c ≠ '\\') : CharText [c] c
  | letter {e c : Char} (h : simpleEscape? e = some c) : CharText ['\\', e] c
  | unit {s : List Char} {c : Char} (h : UnitText s c.toNat) : CharText ('\\' :: 'u' :: s) c
  | pair {s t : List Char} {c : Char} {n : Nat} (hc : c.toNat = 0x10000 + n)
      (hhigh : UnitText s (0xd800 + n / 0x400)) (hlow : UnitText t (0xdc00 + n % 0x400)) :
      CharText ('\\' :: 'u' :: s ++ '\\' :: 'u' :: t) c

inductive StringText : List Char → List Char → Prop
  | nil : StringText [] []
  | cons {s t cs : List Char} {c : Char} (h : CharText s c) (hrest : StringText t cs) :
      StringText (s ++ t) (c :: cs)

def Blanks (s : List Char) : Prop :=
  ∀ c ∈ s, isBlank c = true

mutual
/-- The texts of a document from its first character to its last one. -/
inductive Spells : List Char → Json → Prop
  | null : Spells ['n', 'u', 'l', 'l'] .null
  | yes : Spells ['t', 'r', 'u', 'e'] (.bool true)
  | no : Spells ['f', 'a', 'l', 's', 'e'] (.bool false)
  | int (n : Int) : Spells (Text.decimal n) (.int n)
  | string {s cs : List Char} (h : StringText s cs) :
      Spells ('"' :: s ++ ['"']) (.text (String.ofList cs))
  | noItems {s : List Char} (h : Blanks s) : Spells ('[' :: s ++ [']']) (.array [])
  | array {s : List Char} {items : List Json} (h : ItemsText s items) :
      Spells ('[' :: s) (.array items)
  | noMembers {s : List Char} (h : Blanks s) : Spells ('\x7b' :: s ++ ['\x7d']) (.object [])
  | object {s : List Char} {members : List (Option String × Json)} (h : MembersText s members) :
      Spells ('\x7b' :: s) (.object members)
/-- The texts of a document with blanks around it. -/
inductive ValueText : List Char → Json → Prop
  | mk {before s after : List Char} {v : Json} (hbefore : Blanks before) (h : Spells s v)
      (hafter : Blanks after) : ValueText (before ++ s ++ after) v
/-- At least one item, up to the closing bracket. -/
inductive ItemsText : List Char → List Json → Prop
  | last {s : List Char} {v : Json} (h : ValueText s v) : ItemsText (s ++ [']']) [v]
  | cons {s t : List Char} {v : Json} {items : List Json} (h : ValueText s v)
      (hrest : ItemsText t items) : ItemsText (s ++ ',' :: t) (v :: items)
inductive MemberText : List Char → Option String × Json → Prop
  | mk {before name cs between s : List Char} {v : Json} (hbefore : Blanks before)
      (hname : StringText name cs) (hbetween : Blanks between) (h : ValueText s v) :
      MemberText (before ++ '"' :: name ++ '"' :: between ++ ':' :: s) (some (String.ofList cs), v)
/-- At least one member, up to the closing brace. -/
inductive MembersText : List Char → List (Option String × Json) → Prop
  | last {s : List Char} {m : Option String × Json} (h : MemberText s m) :
      MembersText (s ++ ['\x7d']) [m]
  | cons {s t : List Char} {m : Option String × Json} {members : List (Option String × Json)}
      (h : MemberText s m) (hrest : MembersText t members) :
      MembersText (s ++ ',' :: t) (m :: members)
end

section Strings

variable {s t rest left : List Char} {c : Char} {cs : List Char} {ps qs : List Piece}

theorem UnitText.hexUnit {n : Nat} (h : UnitText s n) :
    ∃ a b c d, s = [a, b, c, d] ∧ hexUnit? a b c d = some n := by
  obtain ⟨ha, hb, hc, hd⟩ := h
  exact ⟨_, _, _, _, rfl, by simp [hexUnit?, ha, hb, hc, hd]⟩

theorem readPieces_quote (rest : List Char) : readPieces ('"' :: rest) = some ([], rest) := by
  rw [readPieces.eq_def]
  simp

theorem readPieces_plain (hlow : 0x20 ≤ c.toNat) (hquote : c ≠ '"') (hslash : c ≠ '\\')
    (h : readPieces rest = some (qs, left)) :
    readPieces (c :: rest) = some (.char c :: qs, left) := by
  rw [readPieces.eq_def]
  simp [hquote, hslash, Nat.not_lt.mpr hlow, h]

theorem readPieces_letter {e : Char} (he : simpleEscape? e = some c)
    (h : readPieces rest = some (qs, left)) :
    readPieces ('\\' :: e :: rest) = some (.char c :: qs, left) := by
  have hu : e ≠ 'u' := by
    rintro rfl
    simp [simpleEscape?] at he
  rw [readPieces.eq_def]
  simp [hu, he, h]

theorem readPieces_unit {n : Nat} (hs : UnitText s n) (h : readPieces rest = some (qs, left)) :
    readPieces ('\\' :: 'u' :: s ++ rest) = some (.unit n :: qs, left) := by
  obtain ⟨a, b, c, d, rfl, hunit⟩ := hs.hexUnit
  rw [readPieces.eq_def]
  simp [hunit, h]

theorem assemble_unit {ds : List Char} (h : assemble? qs = some ds) (c : Char) :
    assemble? (.unit c.toNat :: qs) = some (c :: ds) := by
  have hvalid : c.toNat < 0xd800 ∨ 0xdfff < c.toNat ∧ c.toNat < 0x110000 := c.valid
  have hlow : ¬ (0xdc00 ≤ c.toNat ∧ c.toNat ≤ 0xdfff) := by omega
  have hhigh : ¬ (0xd800 ≤ c.toNat ∧ c.toNat ≤ 0xdbff) := by omega
  rw [assemble?.eq_def]
  simp [hlow, hhigh, h]

/-- The two halves of a pair stand for one character. -/
theorem assemble_pair {ds : List Char} {n : Nat} (hc : c.toNat = 0x10000 + n)
    (h : assemble? qs = some ds) :
    assemble? (.unit (0xd800 + n / 0x400) :: .unit (0xdc00 + n % 0x400) :: qs) =
      some (c :: ds) := by
  have hvalid : c.toNat < 0xd800 ∨ 0xdfff < c.toNat ∧ c.toNat < 0x110000 := c.valid
  have hlead : 0xd800 ≤ 0xd800 + n / 0x400 ∧ 0xd800 + n / 0x400 ≤ 0xdbff := by omega
  have htrail : 0xdc00 ≤ 0xdc00 + n % 0x400 ∧ 0xdc00 + n % 0x400 ≤ 0xdfff := by omega
  have hsum : 0x10000 + (0xd800 + n / 0x400 - 0xd800) * 0x400 +
      (0xdc00 + n % 0x400 - 0xdc00) = c.toNat := by omega
  rw [assemble?, if_neg (by omega), if_pos hlead, if_pos htrail, hsum, Char.ofNat_toNat, h,
    Option.map_some]

/-- What a character inside a string is read as, whatever follows. -/
theorem CharText.reads (h : CharText s c) :
    ∃ ps, (∀ rest qs left, readPieces rest = some (qs, left) →
        readPieces (s ++ rest) = some (ps ++ qs, left)) ∧
      ∀ qs ds, assemble? qs = some ds → assemble? (ps ++ qs) = some (c :: ds) := by
  cases h with
  | plain hlow hquote hslash =>
    exact ⟨[.char c], fun _ _ _ => readPieces_plain hlow hquote hslash,
      fun _ _ h => by simp [assemble?, h]⟩
  | letter he =>
    exact ⟨[.char c], fun _ _ _ => readPieces_letter he, fun _ _ h => by simp [assemble?, h]⟩
  | unit hs =>
    exact ⟨[.unit c.toNat], fun _ _ _ => readPieces_unit hs, fun _ _ h => assemble_unit h c⟩
  | @pair s t c n hc hhigh hlow =>
    refine ⟨[.unit (0xd800 + n / 0x400), .unit (0xdc00 + n % 0x400)], fun rest qs left h => ?_,
      fun _ _ => assemble_pair hc⟩
    simpa using readPieces_unit hhigh (readPieces_unit hlow h)

theorem StringText.reads (h : StringText s cs) :
    ∃ ps, (∀ rest, readPieces (s ++ '"' :: rest) = some (ps, rest)) ∧ assemble? ps = some cs := by
  induction h with
  | nil => exact ⟨[], readPieces_quote, rfl⟩
  | cons hchar _ ih =>
    obtain ⟨ps, hread, htext⟩ := hchar.reads
    obtain ⟨qs, hreads, htexts⟩ := ih
    exact ⟨ps ++ qs, fun rest => by simpa using hread _ _ _ (hreads rest), htext _ _ htexts⟩

theorem readString_text (h : StringText s cs) (rest : List Char) :
    readString (s ++ '"' :: rest) = some (some (String.ofList cs), rest) := by
  obtain ⟨ps, hread, htext⟩ := h.reads
  simp [readString, hread, htext]

end Strings

end ContentType.Json
