import ContentType.Proofs.Detector.Agreement
import ContentType.Proofs.Guess.PlainText
import ContentType.Proofs.RuleTable.Deepest

namespace ContentType

namespace Guess
open PlainText

/-- What a stage and those behind it come to: a type that is known, or nothing, and nothing exactly
when all of them decline. -/
inductive Concluded (declined : Prop) : TextGuess → Prop
  | settled {v : Verdict} (known : v.mime ≠ Detector.unknown) (taken : ¬ declined) :
      Concluded declined (.settled v)
  | undecided {accuracy : UInt8} (passed : declined) : Concluded declined (.undecided accuracy)

/-- A stage in front that hands the buffer on. -/
theorem Concluded.after {earlier declined : Prop} {guess : TextGuess} (he : earlier)
    (h : Concluded declined guess) : Concluded (earlier ∧ declined) guess := by
  cases h with
  | settled known taken => exact .settled known fun hx => taken hx.2
  | undecided passed => exact .undecided ⟨he, passed⟩

theorem mime_ne_unknown (l : Language) : l.mime ≠ Detector.unknown := by
  cases l <;> decide

theorem opening_ne_unknown {buffer : List UInt8} {mime : String}
    (h : opening? buffer = some mime) : mime ≠ Detector.unknown := by
  revert h
  fun_cases opening? buffer
  all_goals intro h
  all_goals cases h
  all_goals decide

section Stages

variable {buffer : List UInt8}

theorem ofStructure_concluded (accuracy : UInt8) :
    Concluded (Tar.kind buffer = .none ∧ isAscii buffer = false) (ofStructure buffer accuracy) := by
  unfold ofStructure
  split
  · rename_i harchive
    exact .settled (by decide) fun hx => harchive hx.1
  · rename_i harchive
    refine .after (not_not.mp harchive) ?_
    split
    · rename_i hascii
      exact .settled (by decide) (by simp [hascii])
    · rename_i hascii
      exact .undecided (Bool.eq_false_iff.mpr hascii)

theorem ofWeight_concluded (tally : Tally) (accuracy : UInt8) :
    Concluded (tally.weightedPick = none ∧ Tar.kind buffer = .none ∧ isAscii buffer = false)
      (ofWeight buffer tally accuracy) := by
  unfold ofWeight
  split
  · rename_i l share hpick
    exact .settled (mime_ne_unknown l) fun hx => Option.some_ne_none _ (hpick.symm.trans hx.1)
  · rename_i hpick
    exact .after hpick (ofStructure_concluded accuracy)

theorem ofText_concluded (buffer : List UInt8) :
    Concluded (opening? buffer = none ∧ (Tally.scan buffer).familyPick = none ∧
      (Tally.scan buffer).weightedPick = none ∧ Tar.kind buffer = .none ∧ isAscii buffer = false)
      (ofText buffer) := by
  unfold ofText
  split
  · rename_i mime hmime
    exact .settled (opening_ne_unknown hmime) fun hx =>
      Option.some_ne_none _ (hmime.symm.trans hx.1)
  · rename_i hopening
    refine .after hopening ?_
    dsimp only
    split
    · split
      · rename_i l hpick
        exact .settled (mime_ne_unknown l) fun hx => Option.some_ne_none _ (hpick.symm.trans hx.1)
      · rename_i hpick
        exact .after hpick (ofWeight_concluded _ 60)
    · rename_i hfamily
      have hpick : (Tally.scan buffer).familyPick = none := by simp [Tally.familyPick, hfamily]
      exact .after hpick (ofWeight_concluded _ 70)

end Stages

theorem isAscii_eq_false_iff {s : List UInt8} : isAscii s = false ↔ ∃ b ∈ s, 0x80 ≤ b := by
  simp [isAscii]

theorem isPlainText_eq_false_iff {s : List UInt8} : isPlainText s = false ↔
    (∃ b ∈ s, IsControl b) ∨ ∃ piece ∈ s.splitOn 0x0a, 300 < piece.length := by
  rw [Bool.eq_false_iff, Ne, isPlainText_iff, not_and_or]
  simp [maxLine]

/-- A buffer that each stage of the guess hands on: it has no opening, no language and no header of
an archive, some byte is not ASCII, and a control or a long line keeps it from being plain text. -/
structure Declined (buffer : List UInt8) : Prop where
  opening : opening? buffer = none
  family : (Tally.scan buffer).familyPick = none
  weight : (Tally.scan buffer).weightedPick = none
  archive : Tar.kind buffer = .none
  high : ∃ b ∈ buffer, 0x80 ≤ b
  binary : (∃ b ∈ buffer, IsControl b) ∨ ∃ piece ∈ buffer.splitOn 0x0a, 300 < piece.length

/-- A guess names a type that is known; there is none just when all stages decline. -/
theorem verdict_cases (buffer : List UInt8) :
    (∃ v, verdict? buffer = some v ∧ v.mime ≠ Detector.unknown ∧ ¬ Declined buffer) ∨
    (verdict? buffer = none ∧ Declined buffer) := by
  have hc := ofText_concluded buffer
  unfold verdict?
  generalize ofText buffer = guess at hc
  cases hc with
  | @settled v known taken =>
    refine Or.inl ⟨v, rfl, known, fun h => taken ?_⟩
    exact ⟨h.opening, h.family, h.weight, h.archive, isAscii_eq_false_iff.mpr h.high⟩
  | @undecided accuracy passed =>
    by_cases hplain : isPlainText buffer = true
    · have hmime : "text/plain" ≠ Detector.unknown := by decide
      refine Or.inl ⟨.make "text/plain" accuracy, if_pos hplain, hmime, fun h => ?_⟩
      exact Bool.eq_false_iff.mp (isPlainText_eq_false_iff.mpr h.binary) hplain
    · obtain ⟨hopening, hfamily, hweight, harchive, hascii⟩ := passed
      exact Or.inr ⟨if_neg hplain, hopening, hfamily, hweight, harchive,
        isAscii_eq_false_iff.mp hascii,
        isPlainText_eq_false_iff.mp (Bool.eq_false_iff.mpr hplain)⟩

end Guess

theorem RuleTable.accuracy_of_find {t : RuleTable} {buffer : List UInt8} {v : Verdict}
    (h : t.find buffer = some v) : v.accuracy = 100 := by
  obtain ⟨title, _, rfl⟩ := Option.map_eq_some_iff.mp h
  rfl

namespace Detector

variable {d : Detector} {buffer : List UInt8}

/-- The verdict of unknown data is given when the rules tell nothing and no guess is made. -/
theorem judge_eq_unknown_iff {w : List UInt8} :
    d.judge w = ⟨unknown, 0⟩ ↔ d.table.find w = none ∧ Guess.Declined w := by
  unfold judge
  cases hfind : d.table.find w with
  | some v =>
    have haccuracy := RuleTable.accuracy_of_find hfind
    refine iff_of_false (fun he => ?_) fun hx => Option.some_ne_none v hx.1
    rw [congrArg Verdict.accuracy he] at haccuracy
    exact absurd haccuracy (by decide)
  | none =>
    rcases Guess.verdict_cases w with ⟨v, hv, hknown, hnot⟩ | ⟨hnone, hdeclined⟩
    · rw [hv]
      exact iff_of_false (fun he => hknown (congrArg Verdict.mime he)) fun hx => hnot hx.2
    · rw [hnone]
      exact iff_of_true (by decide) ⟨rfl, hdeclined⟩

/-- Data that nothing tells the type of: no rule chain gives it a name, and no guess is made. -/
structure Unrecognized (t : RuleTable) (w : List UInt8) : Prop extends Guess.Declined w where
  unfound : t.find w = none
  unnamed : ∀ i title, ¬ t.Named w i title

/-- A buffer is reported as unknown data exactly when what is looked at is not recognized. So text
never is, whatever the rules, and whatever comments, keywords or fields of an archive are in it. -/
theorem classify_eq_unknown_iff (ht : RuleTable.Reachable d.table) (buffer : List UInt8) :
    d.classify buffer = ⟨"application/octet-stream", 0⟩ ↔
      Unrecognized d.table (buffer.take d.window) := by
  cases hw : buffer.take d.window with
  | nil =>
    have hempty : d.classify buffer = .certain zeroSize := by simp only [classify, hw]
    have hne : Verdict.certain zeroSize ≠ ⟨unknown, 0⟩ := by decide
    refine iff_of_false (hempty ▸ hne) fun h => ?_
    obtain ⟨b, hb, _⟩ := h.high
    exact List.not_mem_nil hb
  | cons b s =>
    rw [classify_of_take hw]
    refine judge_eq_unknown_iff.trans ⟨fun hx => ?_, fun h => ⟨h.unfound, h.toDeclined⟩⟩
    exact ⟨hx.2, hx.1, RuleTable.unnamed_of_find ht hx.1⟩

/-- The first rule holds of the data below, without a name; the one that it leads to does not. -/
def unnamedRule : RuleTable :=
  (RuleTable.empty.merge (Byte.ascii "0 byte 0xff\n>1 byte 0x41 text/x-abc\n")).1

theorem classify_eq_unknown_iff_binary :
    RuleTable.Reachable unnamedRule ∧
      (⟨unnamedRule, Config.default "/tmp"⟩ : Detector).classify [0xff, 0x00, 0x80, 0x01] =
        ⟨"application/octet-stream", 0⟩ ∧
      Unrecognized unnamedRule ([0xff, 0x00, 0x80, 0x01].take
        (⟨unnamedRule, Config.default "/tmp"⟩ : Detector).window) := by
  have ht : RuleTable.Reachable unnamedRule := .merge _ .empty
  have h : (⟨unnamedRule, Config.default "/tmp"⟩ : Detector).classify [0xff, 0x00, 0x80, 0x01] =
      ⟨"application/octet-stream", 0⟩ := by decide +kernel
  exact ⟨ht, h, (classify_eq_unknown_iff ht _).mp h⟩

end Detector

end ContentType
