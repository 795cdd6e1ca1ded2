import ContentType.Proofs.Byte
import ContentType.Rule.Line

namespace ContentType.Line
open Byte

theorem strip_append (line : List UInt8) :
    ∃ tail, line = strip line ++ tail ∧ ∀ b ∈ tail, b = 0x0a ∨ b = 0x0d := by
  let isEnd : UInt8 → Bool := fun b => b == 0x0a || b == 0x0d
  refine ⟨(line.reverse.takeWhile isEnd).reverse, ?_, ?_⟩
  · change line = (line.reverse.dropWhile isEnd).reverse ++ (line.reverse.takeWhile isEnd).reverse
    rw [← List.reverse_append, List.takeWhile_append_dropWhile, List.reverse_reverse]
  · intro b hb
    have := List.all_eq_true.mp List.all_takeWhile b (List.mem_reverse.mp hb)
    simpa [isEnd] using this

/-- Nothing is stripped in front of a byte that stays. -/
theorem strip_append_of_getLast {s : List UInt8} {b : UInt8} (hs : s.getLast? = some b)
    (hnl : b ≠ 0x0a) (hcr : b ≠ 0x0d) (rest : List UInt8) :
    strip (s ++ rest) = s ++ strip rest := by
  obtain ⟨init, rfl⟩ := List.getLast?_eq_some_iff.mp hs
  have hb : (b == 0x0a || b == 0x0d) = false := by simp [hnl, hcr]
  unfold strip
  rw [List.reverse_append, List.dropWhile_append, List.reverse_append, List.reverse_singleton,
    List.singleton_append, List.dropWhile_cons_of_neg (by simp [hb])]
  split
  · rename_i hnone
    rw [List.isEmpty_iff.mp hnone]
    simp
  · simp

theorem strip_of_getLast {s : List UInt8} {b : UInt8} (hs : s.getLast? = some b)
    (hnl : b ≠ 0x0a) (hcr : b ≠ 0x0d) : strip s = s := by
  have hstrip := strip_append_of_getLast hs hnl hcr []
  have hnil : strip [] = [] := rfl
  rwa [hnil, List.append_nil] at hstrip

/-- What is stripped holds no mark, so a line that is not blank keeps its marks. -/
theorem takeWhile_marks_strip {line : List UInt8} (h : skipSpace (strip line) ≠ []) :
    (skipSpace (strip line)).takeWhile isMark = (skipSpace line).takeWhile isMark := by
  obtain ⟨tail, hline, htail⟩ := strip_append line
  have hspace : skipSpace line = skipSpace (strip line) ++ tail := by
    conv => lhs; rw [hline]
    unfold skipSpace at h ⊢
    rw [List.dropWhile_append, if_neg (by simpa using h)]
  have hstop : Stops isMark tail := by
    intro b hb
    rcases htail b (List.mem_of_head? hb) with rfl | rfl <;> rfl
  rw [hspace, takeWhile_append_of_stops _ hstop]

/-- However the head goes on, its level is the number of its marks, up to 65535. -/
theorem level_readHead {s rest : List UInt8} {head : Head} (h : readHead s = .ok (head, rest)) :
    head.level = UInt16.ofNat (min (s.takeWhile isMark).length 65535) := by
  simp only [readHead, bind, Except.bind, pure, Except.pure] at h
  repeat' first | split at h | cases h
  all_goals rfl

theorem level_read {line : List UInt8} {r : Rule} (h : read line = .ok (some r)) :
    r.level = UInt16.ofNat (min (marks line) 65535) := by
  unfold read at h
  split at h
  · cases h
  · rename_i c s hs
    split at h
    · cases h
    · cases hh : readHead (c :: s) with
      | error fault => simp [hh, bind, Except.bind] at h
      | ok pair =>
        simp only [hh, bind, Except.bind, pure, Except.pure, Except.ok.injEq,
          Option.some.injEq] at h
        subst h
        have hlevel := level_readHead hh
        rw [← hs, takeWhile_marks_strip (by simp [hs])] at hlevel
        exact hlevel

/-- The line holds nothing but blanks, or a comment behind them: no byte of it that is no blank
comes before a `#`. -/
def isBlank (line : List UInt8) : Bool :=
  (skipSpace line).head?.all (fun b => b == '#'.toUInt8)

/-- Marks in front of a line that is neither blank nor a comment. -/
def marks? (line : List UInt8) : Option Nat :=
  if isBlank line then none else some (marks line)

/-- What is stripped is blank, so the first byte that is no blank stays. -/
theorem head_skipSpace_strip (line : List UInt8) :
    (skipSpace (strip line)).head? = (skipSpace line).head? := by
  obtain ⟨tail, hline, htail⟩ := strip_append line
  have hskip : tail.dropWhile isSpace = [] := by
    have hspace : ∀ b ∈ tail, isSpace b = true := by
      intro b hb
      rcases htail b hb with rfl | rfl <;> rfl
    simpa using dropWhile_run hspace (stops_nil isSpace)
  conv => rhs; rw [hline]
  unfold skipSpace
  rw [List.dropWhile_append, hskip]
  cases (strip line).dropWhile isSpace <;> rfl

/-- No rule is read from a blank line or a comment, and nothing else is passed over. -/
theorem isBlank_iff {line : List UInt8} : isBlank line = true ↔ read line = .ok none := by
  unfold isBlank read
  rw [← head_skipSpace_strip]
  cases skipSpace (strip line) with
  | nil => simp
  | cons c s =>
    by_cases hc : c = '#'.toUInt8
    · simp [hc]
    · dsimp only
      rw [if_neg hc]
      cases readHead (c :: s) <;> simp [hc, bind, Except.bind, pure, Except.pure]

theorem marks_of_blank {line : List UInt8} (h : read line = .ok none) :
    marks? line = none :=
  if_pos (isBlank_iff.mpr h)

theorem marks_of_read_ne {line : List UInt8} (h : read line ≠ .ok none) :
    marks? line = some (marks line) :=
  if_neg fun hb => h (isBlank_iff.mp hb)

theorem marks_of_rule {line : List UInt8} {r : Rule} (h : read line = .ok (some r)) :
    marks? line = some (marks line) :=
  marks_of_read_ne (by simp [h])

theorem marks_of_fault {line : List UInt8} {fault : Fault} (h : read line = .error fault) :
    marks? line = some (marks line) :=
  marks_of_read_ne (by simp [h])

theorem toNat_depth {line : List UInt8} (h : marks line < 65535) :
    (depth line).toNat = marks line := by
  simp only [depth, UInt16.toNat_ofNat']
  omega

/-- Below the limits of both counts the level of a rule is the number of its marks. -/
theorem toNat_level_read {line : List UInt8} {r : Rule} (h : read line = .ok (some r))
    (hm : marks line < 65535) : r.level.toNat = marks line := by
  rw [level_read h, UInt16.toNat_ofNat']
  omega

end ContentType.Line
