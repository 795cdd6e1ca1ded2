import ContentType.Proofs.Rule.Head
import ContentType.Proofs.Text.Utf8

namespace ContentType.Line
open Byte

/-- A count that stops at its limit against one that wraps. -/
theorem stopped_eq_wrapped_iff (n : Nat) :
    UInt16.ofNat n = UInt16.ofNat (min n 65535) ↔ n < 65536 ∨ n % 65536 = 65535 := by
  rw [← UInt16.toNat_inj, UInt16.toNat_ofNat', UInt16.toNat_ofNat']
  omega

/-- The level of a rule is the depth of its line where there are fewer than 65536 marks. From there
on the level is 65535 and the depth is what is left of the marks modulo 65536, so the two agree only
where this is 65535 as well. -/
theorem depth_eq_level_iff {line : List UInt8} {r : Rule} (h : read line = .ok (some r)) :
    (depth line = r.level ↔ marks line < 65536 ∨ marks line % 65536 = 65535) ∧
      r.level.toNat = min (marks line) 65535 ∧ (depth line).toNat = marks line % 65536 := by
  rw [level_read h, depth, UInt16.toNat_ofNat', UInt16.toNat_ofNat']
  exact ⟨stopped_eq_wrapped_iff _, by omega, rfl⟩

/-- So many marks in front of a rule. -/
def markedLine (n : Nat) : List UInt8 :=
  List.replicate n '>'.toUInt8 ++ ascii "0 byte x"

def markedRule (level : UInt16) : Rule :=
  ⟨level, none, 0, .byte, -1, .any, .none, false, "", false, 0⟩

theorem marks_markedLine (n : Nat) : marks (markedLine n) = n := by
  have hmarks : ∀ b ∈ List.replicate n '>'.toUInt8, isMark b = true :=
    fun b hb => by rw [List.eq_of_mem_replicate hb]; decide
  have hzero : ascii "0 byte x" = '0'.toUInt8 :: ascii " byte x" := by rfl
  have hskip : skipSpace (markedLine n) = markedLine n := by
    apply dropWhile_of_stops
    rw [markedLine, hzero]
    cases n <;> exact stops_cons.mpr (by decide)
  rw [marks, hskip, markedLine, hzero, takeWhile_run hmarks (stops_cons.mpr (by decide)),
    List.length_replicate]

theorem read_markedLine (n : Nat) :
    read (markedLine n) = .ok (some (markedRule (UInt16.ofNat (min n 65535)))) := by
  have hline : ascii "0 " ++ typeText false .byte ++ ascii " x" = ascii "0 byte x" := by rfl
  have htest : strip (ascii " x") = [0x20, 'x'.toUInt8] := by rfl
  have hempty : description [] = "" := Utf8.decodeLossy_nil
  have hrule : ∀ level, readTest ⟨level, none, 0, false, .byte⟩ [0x20, 'x'.toUInt8] =
      markedRule level := fun level => by rw [markedRule, ← hempty]; rfl
  have hread := read_headText (headText_marked n false .byte) (ascii " x")
  rw [List.append_assoc, hline, htest, hrule] at hread
  exact hread

theorem depth_eq_level_iff_last :
    read (markedLine 65535) = .ok (some (markedRule 65535)) ∧
      depth (markedLine 65535) = (markedRule 65535).level := by
  have hread := read_markedLine 65535
  have hmarks : marks (markedLine 65535) < 65536 := by
    rw [marks_markedLine]
    decide
  exact ⟨hread, (depth_eq_level_iff hread).1.mpr (Or.inl hmarks)⟩

/-- With one mark more the level stays and the depth is zero. -/
theorem depth_ne_level :
    read (markedLine 65536) = .ok (some (markedRule 65535)) ∧ depth (markedLine 65536) = 0 ∧
      depth (markedLine 65536) ≠ (markedRule 65535).level := by
  have hdepth : depth (markedLine 65536) = 0 := by
    rw [depth, marks_markedLine]
    rfl
  refine ⟨read_markedLine 65536, hdepth, ?_⟩
  rw [hdepth]
  decide

end ContentType.Line
