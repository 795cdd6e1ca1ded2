import ContentType.Builtin
import ContentType.Config.Basic
import ContentType.Detector.Named
import ContentType.Guess.Basic
import ContentType.RuleTable.File
import ContentType.RuleTable.Search

namespace ContentType

structure Detector where
  table : RuleTable
  config : Config
deriving DecidableEq, Repr

namespace Detector

def zeroSize : String := "application/x-zerosize"

def unknown : String := "application/octet-stream"

/-- A detector with the rules of a table and then of the configured files; those that cannot be read
are passed over. -/
def make (fs : FileSystem) (table : RuleTable) (config : Config) : Detector :=
  ⟨table.mergeFiles fs config.ruleFiles config.limits.ruleFile.toNat, config⟩

/-- Bytes that are looked at. -/
def window (d : Detector) : Nat :=
  d.config.limits.window.toNat

/-- The rules, then a guess, then unknown data. -/
def judge (d : Detector) (buffer : List UInt8) : Verdict :=
  match d.table.find buffer with
  | some v => v
  | none =>
    match Guess.verdict? buffer with
    | some v => v
    | none => .make unknown 0

/-- The verdict on a buffer, by its first bytes. -/
def classify (d : Detector) (buffer : List UInt8) : Verdict :=
  match buffer.take d.window with
  | [] => .certain zeroSize
  | b :: s => d.judge (b :: s)

/-- The verdict on a buffer that comes from a file of a known name. -/
def classifyNamed (d : Detector) (buffer : List UInt8) (name : String) : Verdict :=
  (d.classify buffer).named name

end Detector

end ContentType
