import ContentType.Json.Decode
import Mathlib.Data.List.Nodup

namespace ContentType.Json

section Leaves

@[simp] theorem bool_bool (b : Bool) : (Json.bool b).bool? = some b := rfl

@[simp] theorem text_text (s : String) : (text s).text? = some s := rfl

theorem natBelow_nat {n bound : Nat} (h : n < bound) : (nat n).natBelow? bound = some n := by
  simp [nat, natBelow?, h]

@[simp] theorem uint8_nat (n : UInt8) : (nat n.toNat).uint8? = some n := by
  simp [uint8?, natBelow_nat n.toNat_lt_size]

@[simp] theorem uint16_nat (n : UInt16) : (nat n.toNat).uint16? = some n := by
  simp [uint16?, natBelow_nat n.toNat_lt_size]

@[simp] theorem uint64_nat (n : UInt64) : (nat n.toNat).uint64? = some n := by
  simp [uint64?, natBelow_nat n.toNat_lt_size]

@[simp] theorem int64_int (n : Int64) : (Json.int n.toInt).int64? = some n := by
  have hmin : Int64.minValue.toInt = -2 ^ 63 := by decide
  have hmax : Int64.maxValue.toInt = 2 ^ 63 - 1 := by decide
  have hle := n.le_toInt
  have hlt := n.toInt_lt
  have hrange : Int64.minValue.toInt ≤ n.toInt ∧ n.toInt ≤ Int64.maxValue.toInt := by omega
  rw [int64?, if_pos hrange, Int64.ofInt_toInt]

theorem mapM_of_some {α β : Type} {f : α → Option β} {g : α → β} {l : List α}
    (h : ∀ a ∈ l, f a = some (g a)) : l.mapM f = some (l.map g) := by
  induction l with
  | nil => rfl
  | cons a l ih =>
    rw [List.forall_mem_cons] at h
    simp [List.mapM_cons, h.1, ih h.2]

theorem list_map {α : Type} {item : Json → Option α} {write : α → Json} {l : List α}
    (h : ∀ a ∈ l, item (write a) = some a) : (Json.array (l.map write)).list? item = some l := by
  have hitems : l.mapM (item ∘ write) = some (l.map id) := mapM_of_some h
  rw [list?, List.mapM_map, hitems, List.map_id]

end Leaves

section Keys

variable {α κ : Type} [BEq κ] [LawfulBEq κ] {key : α → κ}

/-- Where no two items have the same key, an item is found by its own. -/
theorem find_key {all : List α} (h : (all.map key).Nodup) {a : α} (ha : a ∈ all) :
    all.find? (fun b => key b == key a) = some a := by
  induction all with
  | nil => cases ha
  | cons b all ih =>
    obtain ⟨hb, hall⟩ := List.nodup_cons.mp h
    rcases List.mem_cons.mp ha with rfl | ha
    · simp
    · have hne : key b ≠ key a := fun heq => hb (heq ▸ List.mem_map_of_mem ha)
      rw [List.find?_cons_of_neg (by simpa using hne), ih hall ha]

theorem constant_text {name : α → String} {all : List α} (h : (all.map name).Nodup) {a : α}
    (ha : a ∈ all) : (text (name a)).constant? name all = some a := by
  simp [constant?, text, variant?, find_key h ha]

variable {members : List (String × Json)}

/-- The fields of a record whose names differ, whatever their order. -/
theorem record_find (h : (members.map Prod.fst).Nodup) (names : List String) :
    (record members).record? names =
      some (names.map (fun name => (members.find? (fun m => m.1 == name)).map Prod.snd)) := by
  have hcount : ∀ name, members.countP (fun m => m.1 == name) ≤ 1 := by
    intro name
    have hname := List.nodup_iff_count_le_one.mp h name
    rwa [List.count_eq_countP, List.countP_map] at hname
  simp [record, record?, hcount, List.find?_map, Function.comp_def]

/-- A record read by the names it was written with. -/
theorem record_names {names : List String} (hnames : members.map Prod.fst = names)
    (h : names.Nodup) :
    (record members).record? names = some (members.map (fun m => some m.2)) := by
  subst hnames
  rw [record_find h, List.map_map]
  refine congrArg some (List.map_congr_left fun m hm => ?_)
  simp [find_key h hm]

/-- A record of some of the fields, in any order: the fields left out are missing. -/
theorem record_chosen [DecidableEq α] {name : α → String} (hname : name.Injective)
    {chosen all : List α} (h : chosen.Nodup) (value : α → Json) {names : List String}
    (hnames : all.map name = names) :
    (record (chosen.map (fun a => (name a, value a)))).record? names =
      some (all.map (fun a => if a ∈ chosen then some (value a) else none)) := by
  have hkeys : ((chosen.map (fun a => (name a, value a))).map Prod.fst).Nodup := by
    simpa [Function.comp_def] using h.map hname
  subst hnames
  rw [record_find hkeys, List.map_map]
  refine congrArg some (List.map_congr_left fun a _ => ?_)
  by_cases ha : a ∈ chosen
  · have hfound := find_key hkeys (List.mem_map_of_mem (f := fun a => (name a, value a)) ha)
    simp only [Function.comp_apply, hfound, Option.map_some, if_pos ha]
  · have hnone : chosen.find? (fun b => name b == name a) = none := by
      refine List.find?_eq_none.mpr fun b hb heq => ha ?_
      rwa [← hname (eq_of_beq heq)]
    simp [List.find?_map, Function.comp_def, hnone, ha]

end Keys

end ContentType.Json
