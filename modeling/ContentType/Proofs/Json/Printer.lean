import ContentType.Json.Printer
import ContentType.Proofs.Json.Reading

namespace ContentType.Json

/-- A document of values that have more than their spelling: no number with a fraction or an
exponent, no string that is no text. -/
inductive Plain : Json → Prop
  | null : Plain .null
  | bool (b : Bool) : Plain (.bool b)
  | int (n : Int) : Plain (.int n)
  | text (s : String) : Plain (.text s)
  | array {items : List Json} (h : ∀ v ∈ items, Plain v) : Plain (.array items)
  | record {members : List (String × Json)} (h : ∀ m ∈ members, Plain m.2) :
      Plain (.record members)

theorem Plain.nat (n : Nat) : Plain (nat n) :=
  .int n

theorem unitText_unitEscape {n : Nat} (h : n < 0x10000) :
    ∃ s, unitEscape n = '\\' :: 'u' :: s ∧ UnitText s n := by
  have hdigit : ∀ d < 16, hexValue? (Nat.digitChar d) = some d := by decide
  have hunit := UnitText.mk (hdigit (n / 4096 % 16) (by omega)) (hdigit (n / 256 % 16) (by omega))
    (hdigit (n / 16 % 16) (by omega)) (hdigit (n % 16) (by omega))
  have hn : ((n / 4096 % 16 * 16 + n / 256 % 16) * 16 + n / 16 % 16) * 16 + n % 16 = n := by omega
  rw [hn] at hunit
  exact ⟨_, rfl, hunit⟩

theorem charText_escaped (c : Char) : CharText (escaped c) c := by
  unfold escaped
  split_ifs with hquote hslash hback hfeed hline hreturn htab hlow
  all_goals try (subst c; exact .letter rfl)
  · obtain ⟨s, hs, hunit⟩ := unitText_unitEscape (Nat.lt_trans hlow (by decide))
    rw [hs]
    exact .unit hunit
  · exact .plain (Nat.not_lt.mp hlow) hquote hslash

theorem stringText_escaped (cs : List Char) : StringText (cs.flatMap escaped) cs := by
  induction cs with
  | nil => exact .nil
  | cons c cs ih => exact .cons (charText_escaped c) ih

theorem blanks_nil : Blanks [] := fun _ h => nomatch h

theorem Spells.valueText {s : List Char} {v : Json} (h : Spells s v) : ValueText s v := by
  simpa using ValueText.mk blanks_nil h blanks_nil

theorem itemsText_itemChars {items : List Json} (h : ∀ v ∈ items, Spells v.chars v)
    (hne : items ≠ []) : ItemsText (itemChars items) items := by
  induction items with
  | nil => exact absurd rfl hne
  | cons v items ih =>
    have hv := (h v List.mem_cons_self).valueText
    cases items with
    | nil => exact .last hv
    | cons w items => exact .cons hv (ih (fun u hu => h u (.tail v hu)) (List.cons_ne_nil w items))

theorem memberText_chars {v : Json} (h : Spells v.chars v) (name : String) :
    MemberText (quoted (some name) ++ ':' :: v.chars) (some name, v) := by
  have htext := MemberText.mk blanks_nil (stringText_escaped name.toList) blanks_nil h.valueText
  simpa [quoted] using htext

theorem membersText_memberChars {members : List (String × Json)}
    (h : ∀ m ∈ members, Spells m.2.chars m.2) (hne : members ≠ []) :
    MembersText (memberChars (members.map (fun m => (some m.1, m.2))))
      (members.map (fun m => (some m.1, m.2))) := by
  induction members with
  | nil => exact absurd rfl hne
  | cons m members ih =>
    have hm := memberText_chars (h m List.mem_cons_self) m.1
    cases members with
    | nil => exact .last hm
    | cons n members =>
      exact .cons hm (ih (fun u hu => h u (.tail m hu)) (List.cons_ne_nil n members))

theorem Plain.spells {v : Json} (h : Plain v) : Spells v.chars v := by
  induction h with
  | null => exact .null
  | bool b => cases b <;> constructor
  | int n => exact .int n
  | text s => simpa [Json.text, chars, quoted] using Spells.string (stringText_escaped s.toList)
  | @array items _ ih =>
    cases items with
    | nil => exact .noItems blanks_nil
    | cons v items => exact .array (itemsText_itemChars ih (List.cons_ne_nil v items))
  | @record members _ ih =>
    cases members with
    | nil => exact .noMembers blanks_nil
    | cons m members => exact .object (membersText_memberChars ih (List.cons_ne_nil m members))

/-- Whatever its strings and however deep it is, a printed document is read as itself. -/
theorem parse_print {v : Json} (h : Plain v) : parse? v.print = some v := by
  apply parse_of_valueText
  rw [print, String.toList_ofList]
  exact h.spells.valueText

end ContentType.Json
