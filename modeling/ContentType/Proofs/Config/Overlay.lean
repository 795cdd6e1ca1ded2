import ContentType.Config.File
import ContentType.Proofs.Json.Decode
import ContentType.Proofs.Json.Printer
import ContentType.Proofs.Text.Utf8

namespace ContentType

/-- A field that is there if it is chosen, and then is read. -/
theorem Json.field_chosen {α : Type} {read : Json → Option α} {v : Json} {a : α}
    (h : read v = some a) (d : α) (p : Prop) [Decidable p] :
    Json.field? read d (if p then some v else none) = some (if p then a else d) := by
  split <;> simp [Json.field?, h]

/-- The settings that are written under one name together. -/
inductive Limits.Field
  | window
  | ruleFile
deriving DecidableEq

namespace Limits.Field

def all : List Field :=
  [window, ruleFile]

def name : Field → String
  | window => "max_window"
  | ruleFile => "max_rule_file_size"

def value (l : Limits) : Field → Json
  | window => .nat l.window.toNat
  | ruleFile => .nat l.ruleFile.toNat

theorem name_injective : name.Injective := by
  intro f g h
  cases f <;> cases g <;> first | rfl | simp [name] at h

theorem plain_value (l : Limits) (f : Field) : Json.Plain (f.value l) := by
  cases f <;> exact .nat _

end Limits.Field

namespace Limits

variable (l : Limits) {chosen : List Field}

/-- The default limits, with the chosen ones taken from `l`. -/
def overlay (chosen : List Field) : Limits where
  window := if .window ∈ chosen then l.window else default.window
  ruleFile := if .ruleFile ∈ chosen then l.ruleFile else default.ruleFile

theorem ofJson_chosen (h : chosen.Nodup) :
    ofJson? (.record (chosen.map (fun f => (f.name, f.value l)))) = some (l.overlay chosen) := by
  have hnames : Field.all.map Field.name = ["max_window", "max_rule_file_size"] := rfl
  rw [ofJson?, Json.record_chosen Field.name_injective h _ hnames]
  simp [Field.all, Field.value, Json.field_chosen (Json.uint64_nat _), overlay]

end Limits

inductive Config.Field
  | limits
  | followLinks
  | timeDirs
  | ruleFiles
deriving DecidableEq

namespace Config.Field

def all : List Field :=
  [limits, followLinks, timeDirs, ruleFiles]

def name : Field → String
  | limits => "io"
  | followLinks => "follow_links"
  | timeDirs => "atime_dirs"
  | ruleFiles => "rule_files"

theorem name_injective : name.Injective := by
  intro f g h
  cases f <;> cases g <;> first | rfl | simp [name] at h

end Config.Field

namespace Path

/-- The path is text. -/
def IsText (path : Path) : Prop :=
  ∃ s, path = ofText s

theorem shown_ofText (s : String) : (ofText s).shown = s :=
  Utf8.decodeLossy_encode s

variable {path : Path}

theorem IsText.toJson_eq (h : path.IsText) : path.toJson? = some (.text path.shown) := by
  obtain ⟨s, rfl⟩ := h
  rw [toJson?, shown_ofText]
  exact congrArg (Option.map Json.text) (Utf8.decode?_encode s)

theorem IsText.ofJson_text (h : path.IsText) : ofJson? (.text path.shown) = some path := by
  obtain ⟨s, rfl⟩ := h
  rw [ofJson?, Json.text_text, shown_ofText]
  rfl

end Path

/-- The settings name no path that is no text. -/
structure Config.Textual (c : Config) : Prop where
  timeDirs : ∀ p ∈ c.timeDirs, p.IsText
  ruleFiles : ∀ p ∈ c.ruleFiles, p.IsText

/-- Which settings a document names, in the order in which it names them. -/
structure Config.Choice where
  fields : List Config.Field
  /-- Named inside the limits, when these are named. -/
  limits : List Limits.Field
  fields_nodup : fields.Nodup
  limits_nodup : limits.Nodup

namespace Config.Choice

/-- Every setting, in the order of the printer. -/
def all : Choice :=
  ⟨Field.all, Limits.Field.all, by decide, by decide⟩

variable (choice : Choice) (c : Config) (temporary : Path)

def texts (paths : List Path) : Json :=
  .array (paths.map (fun p => .text p.shown))

def value : Field → Json
  | .limits => .record (choice.limits.map (fun f => (f.name, f.value c.limits)))
  | .followLinks => .bool c.followLinks
  | .timeDirs => texts c.timeDirs
  | .ruleFiles => texts c.ruleFiles

/-- The chosen settings as they are in `c`. -/
def document : Json :=
  .record (choice.fields.map (fun f => (f.name, choice.value c f)))

/-- The defaults, with the chosen settings taken from `c`. -/
def overlay : Config where
  limits := if .limits ∈ choice.fields then c.limits.overlay choice.limits else .default
  followLinks :=
    if .followLinks ∈ choice.fields then c.followLinks else (default temporary).followLinks
  timeDirs := if .timeDirs ∈ choice.fields then c.timeDirs else (default temporary).timeDirs
  ruleFiles := if .ruleFiles ∈ choice.fields then c.ruleFiles else (default temporary).ruleFiles

variable {c}

theorem ofJson_document (h : c.Textual) :
    ofJson? temporary (choice.document c) = some (choice.overlay c temporary) := by
  have hnames : Field.all.map Field.name = ["io", "follow_links", "atime_dirs", "rule_files"] := rfl
  have hlimits := c.limits.ofJson_chosen choice.limits_nodup
  have htimes : (texts c.timeDirs).list? Path.ofJson? = some c.timeDirs :=
    Json.list_map fun p hp => (h.timeDirs p hp).ofJson_text
  have hrules : (texts c.ruleFiles).list? Path.ofJson? = some c.ruleFiles :=
    Json.list_map fun p hp => (h.ruleFiles p hp).ofJson_text
  rw [document, ofJson?,
    Json.record_chosen Field.name_injective choice.fields_nodup _ hnames]
  simp [Field.all, Json.field_chosen hlimits, Json.field_chosen (Json.bool_bool _),
    Json.field_chosen htimes, Json.field_chosen hrules, value, overlay, default]

theorem toJson_eq (h : c.Textual) : c.toJson? = some (all.document c) := by
  have htimes := Json.mapM_of_some fun p hp => (h.timeDirs p hp).toJson_eq
  have hrules := Json.mapM_of_some fun p hp => (h.ruleFiles p hp).toJson_eq
  rw [toJson?, htimes, hrules]
  rfl

variable (c)

theorem plain_document : Json.Plain (choice.document c) := by
  have htexts : ∀ paths, Json.Plain (texts paths) := fun paths =>
    .array (List.forall_mem_map.mpr fun p _ => .text p.shown)
  apply Json.Plain.record
  refine List.forall_mem_map.mpr fun f _ => ?_
  cases f with
  | limits => exact .record (List.forall_mem_map.mpr fun f _ => f.plain_value c.limits)
  | followLinks => exact .bool c.followLinks
  | timeDirs => exact htexts c.timeDirs
  | ruleFiles => exact htexts c.ruleFiles

theorem overlay_all : all.overlay c temporary = c := by
  simp [overlay, all, Field.all, Limits.overlay, Limits.Field.all]

end Config.Choice

namespace Config

variable {c : Config}

theorem parse_choice (h : c.Textual) (temporary : Path) (choice : Choice) {text : String}
    (htext : Json.ValueText text.toList (choice.document c)) :
    parse temporary text = .ok (choice.overlay c temporary) := by
  simp [parse, Json.parse_of_valueText htext, choice.ofJson_document temporary h]

theorem valueText_print (c : Config) (choice : Choice) :
    Json.ValueText (choice.document c).print.toList (choice.document c) := by
  rw [Json.print, String.toList_ofList]
  exact (choice.plain_document c).spells.valueText

/-- Each text that sets a choice of the settings gives the defaults with this choice changed, the
printed text of the choice among them. With every setting, the printed settings are read back. The
directory for temporary files is a default like the others. -/
theorem parse_overlays (h : c.Textual) (temporary : Path) :
    (∀ (choice : Choice) (text : String), Json.ValueText text.toList (choice.document c) →
      parse temporary text = .ok (choice.overlay c temporary)) ∧
    (∀ choice : Choice,
      Json.ValueText (choice.document c).print.toList (choice.document c)) ∧
    ∃ v, c.toJson? = some v ∧ parse temporary v.print = .ok c := by
  refine ⟨fun choice text => c.parse_choice h temporary choice, c.valueText_print, _,
    Choice.toJson_eq h, ?_⟩
  rw [parse_choice h temporary .all (c.valueText_print .all), Choice.overlay_all]

theorem parse_overlays_reordered :
    (⟨⟨1, 64000⟩, true, [], ["a\"b"]⟩ : Config).Textual ∧
      parse "/var/tmp"
          " \x7b\"rule_files\":[\"a\\\"b\"],\"io\":\x7b\"max_rule_file_size\":64000\x7d\x7d\n" =
        .ok ⟨⟨4000, 64000⟩, false, ["/var/tmp"], ["a\"b"]⟩ := by
  have htextual : (⟨⟨1, 64000⟩, true, [], ["a\"b"]⟩ : Config).Textual :=
    ⟨List.forall_mem_nil _, List.forall_mem_singleton.mpr ⟨_, rfl⟩⟩
  refine ⟨htextual, (parse_overlays htextual "/var/tmp").1
    ⟨[.ruleFiles, .limits], [.ruleFile], by decide, by decide⟩ _ ?_⟩
  have hblank : Json.Blanks [' '] := by simp [Json.Blanks, Json.isBlank]
  have hnewline : Json.Blanks ['\n'] := by simp [Json.Blanks, Json.isBlank]
  convert Json.ValueText.mk hblank (Choice.plain_document _ _).spells hnewline using 1
  rw [← String.ofList_inj, String.ofList_toList]
  decide +kernel

end Config

end ContentType
