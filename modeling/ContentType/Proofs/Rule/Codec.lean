import ContentType.Proofs.Json.Decode
import ContentType.Proofs.Json.Printer
import ContentType.Rule.Codec
import ContentType.Verdict

namespace ContentType

theorem Pointer.ofJson_toJson (p : Pointer) : Pointer.ofJson? p.toJson = some p := by
  have hwidth : (Json.text p.width.tag).constant? PointerWidth.tag PointerWidth.all =
      some p.width :=
    Json.constant_text (by decide) (by cases p.width <;> decide)
  rw [ofJson?, toJson, Json.record_names]
  · simp [hwidth]
  · rfl
  · decide

/-- A pointer is never taken for one that is missing. -/
theorem Pointer.optional_toJson (p : Pointer) :
    Json.optional? Pointer.ofJson? (some p.toJson) = some (some p) :=
  congrArg (Option.map some) p.ofJson_toJson

theorem Expected.ofJson_toJson (e : Expected) : Expected.ofJson? e.toJson = some e := by
  cases e with
  | number n => simp [toJson, ofJson?, Json.record, Json.variant?]
  | bytes literal =>
    have hbytes := Json.list_map (l := literal) fun b _ => Json.uint8_nat b
    simp [toJson, ofJson?, Json.record, Json.variant?, hbytes]
  | none => rfl

theorem Verdict.ofJson_toJson (v : Verdict) : Verdict.ofJson? v.toJson = some v := by
  rw [ofJson?, toJson, Json.record_names]
  · simp
  · rfl
  · decide

namespace Rule

/-- A rule is put together from its fields, each read on its own. -/
theorem ofJson_record {r : Rule}
    {level pointer offset type mask relation expected unsigned description noSpace line : Json}
    (hlevel : level.uint16? = some r.level)
    (hpointer : Json.optional? Pointer.ofJson? (some pointer) = some r.pointer)
    (hoffset : offset.int64? = some r.offset)
    (htype : type.constant? FieldType.tag FieldType.all = some r.type)
    (hmask : mask.uint64? = some r.mask)
    (hrelation : relation.constant? Relation.tag Relation.all = some r.relation)
    (hexpected : Expected.ofJson? expected = some r.expected)
    (hunsigned : unsigned.bool? = some r.unsigned)
    (hdescription : description.text? = some r.description)
    (hnoSpace : noSpace.bool? = some r.noSpace)
    (hline : line.natBelow? UInt64.size = some r.line) :
    ofJson? (.record (fieldNames.zip [level, pointer, offset, type, mask, relation, expected,
      unsigned, description, noSpace, line])) = some r := by
  rw [ofJson?, Json.record_names]
  · -- no field is missing, so reading starts with the first
    change level.uint16?.bind _ = some r
    simp only [hlevel, hpointer, hoffset, htype, hmask, hrelation, hexpected, hunsigned,
      hdescription, hnoSpace, hline, Option.bind_eq_bind, Option.bind_some, Option.pure_def]
  · rfl
  · decide

theorem ofJson_toJson {r : Rule} (h : r.line < UInt64.size) : ofJson? r.toJson = some r := by
  apply ofJson_record
  case hlevel => exact Json.uint16_nat r.level
  case hpointer =>
    cases r.pointer with
    | none => rfl
    | some p => exact p.optional_toJson
  case hoffset => exact Json.int64_int r.offset
  case htype => exact Json.constant_text (by decide) (by cases r.type <;> decide)
  case hmask => exact Json.uint64_nat r.mask
  case hrelation => exact Json.constant_text (by decide) (by cases r.relation <;> decide)
  case hexpected => exact r.expected.ofJson_toJson
  case hunsigned => exact Json.bool_bool r.unsigned
  case hdescription => exact Json.text_text r.description
  case hnoSpace => exact Json.bool_bool r.noSpace
  case hline => exact Json.natBelow_nat h

end Rule

theorem Pointer.plain_toJson (p : Pointer) : Json.Plain p.toJson := by
  apply Json.Plain.record
  rw [List.forall_mem_cons, List.forall_mem_singleton]
  exact ⟨.text _, .int _⟩

theorem Expected.plain_toJson (e : Expected) : Json.Plain e.toJson := by
  cases e with
  | number n =>
    apply Json.Plain.record
    simpa using Json.Plain.nat n.toNat
  | bytes literal =>
    apply Json.Plain.record
    simpa using Json.Plain.array (List.forall_mem_map.mpr fun b _ => Json.Plain.nat b.toNat)
  | none => exact .text _

theorem Rule.plain_toJson (r : Rule) : Json.Plain r.toJson := by
  apply Json.Plain.record
  simp only [List.forall_mem_cons]
  refine ⟨.nat _, ?_, .int _, .text _, .nat _, .text _, r.expected.plain_toJson, .bool _, .text _,
    .bool _, .nat _, List.forall_mem_nil _⟩
  cases r.pointer with
  | none => exact .null
  | some p => exact p.plain_toJson

theorem Verdict.plain_toJson (v : Verdict) : Json.Plain v.toJson := by
  apply Json.Plain.record
  rw [List.forall_mem_cons, List.forall_mem_singleton]
  exact ⟨.text _, .nat _⟩

theorem Rule.parse_print {r : Rule} (h : r.line < UInt64.size) :
    (Json.parse? r.toJson.print).bind Rule.ofJson? = some r := by
  rw [Json.parse_print r.plain_toJson, Option.bind_some, Rule.ofJson_toJson h]

theorem Verdict.parse_print (v : Verdict) :
    (Json.parse? v.toJson.print).bind Verdict.ofJson? = some v := by
  rw [Json.parse_print v.plain_toJson, Option.bind_some, Verdict.ofJson_toJson]

/-- The printed JSON of a rule is read as this rule, so no two rules share it, and the printed JSON
of a verdict is read as this verdict. Lines are counted in words of 64 bits. -/
theorem printed_read_back :
    (∀ r : Rule, r.line < UInt64.size →
      (Json.parse? r.toJson.print).bind Rule.ofJson? = some r) ∧
    (∀ r s : Rule, r.line < UInt64.size → s.line < UInt64.size →
      r.toJson.print = s.toJson.print → r = s) ∧
    ∀ v : Verdict, (Json.parse? v.toJson.print).bind Verdict.ofJson? = some v := by
  refine ⟨fun r => Rule.parse_print, fun r s hr hs htext => ?_, Verdict.parse_print⟩
  have hread := Rule.parse_print hr
  rw [htext, Rule.parse_print hs] at hread
  exact (Option.some.inj hread).symm

theorem printed_read_back_escaped :
    (Json.parse? (Rule.toJson ⟨2, some ⟨.long, -8⟩, Int64.minValue, .string, 0xffffffffffffffff,
      .equal, .bytes [0, 255], true, "a\"b\\\x01é", false, 7⟩).print).bind Rule.ofJson? =
      some ⟨2, some ⟨.long, -8⟩, Int64.minValue, .string, 0xffffffffffffffff, .equal,
        .bytes [0, 255], true, "a\"b\\\x01é", false, 7⟩ :=
  printed_read_back.1 _ (by decide)

end ContentType
