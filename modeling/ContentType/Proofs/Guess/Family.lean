import ContentType.Proofs.Guess.Comments

namespace ContentType

namespace Language

/-- What the keywords of one word can be: none of the C family, or one of six sets in it. -/
inductive Shared : List Language → Prop
  | other {languages : List Language} (h : ∀ k ∈ languages, k ∉ cFamily) : Shared languages
  | java : Shared [java]
  | objc : Shared [objc]
  | cpp : Shared [cpp]
  | cppJava : Shared [java, cpp]
  | cCpp : Shared [c, cpp]
  | family : Shared cFamily

theorem shared_keywords : ∀ entry ∈ keywords, (∀ k ∈ entry.2, k ∉ cFamily) ∨
    entry.2 ∈ [[java], [objc], [cpp], [java, cpp], [c, cpp], cFamily] := by
  decide +kernel

theorem shared_of_lookup {word : List UInt8} {languages : List Language}
    (h : lookup word = some languages) : Shared languages := by
  obtain ⟨entry, hentry, -, rfl⟩ := lookup_eq_some_iff.mp h
  rcases shared_keywords entry hentry with hother | hset
  · exact .other hother
  · simp only [List.mem_cons, List.not_mem_nil, or_false] at hset
    rcases hset with hset | hset | hset | hset | hset | hset
    all_goals rw [hset]
    · exact .java
    · exact .objc
    · exact .cpp
    · exact .cppJava
    · exact .cCpp
    · exact .family

end Language

namespace Tally
open ContentType.Language

/-- The hits of the languages of the C family, by the counters of a tally and the number of keywords
that belong to all four. -/
structure Balanced (t : Tally) (hits : Language → Nat) (shared : Nat) : Prop where
  c : hits .c = t.cCpp + shared
  cpp : hits .cpp = t.cppOnly + t.cppJava + t.cCpp + shared
  java : hits .java = t.javaOnly + t.cppJava + shared
  objc : hits .objc = t.objcOnly + shared

theorem balanced_empty : empty.Balanced (fun _ => 0) 0 := ⟨rfl, rfl, rfl, rfl⟩

/-- A keyword that counts raises the counter of its set along with the hits of its languages. -/
theorem Balanced.hit {t : Tally} {hits : Language → Nat} {shared : Nat} {languages : List Language}
    (h : t.Balanced hits shared) (hs : Shared languages) (word : List UInt8) :
    (((t.see languages).hitFamily (languages.filter cFamily.contains) word).hit languages).Balanced
      (fun l => hits l + if l ∈ languages then 1 else 0)
      (shared + if ∀ l ∈ cFamily, l ∈ languages then 1 else 0) := by
  obtain ⟨hc, hcpp, hjava, hobjc⟩ := h
  cases hs with
  | other hother =>
    have hnone : ∀ l ∈ cFamily, l ∉ languages := fun l hl hmem => hother l hmem hl
    have hnot : ¬ ∀ l ∈ cFamily, l ∈ languages := fun hall =>
      hnone .c (by decide) (hall .c (by decide))
    have hfilter : languages.filter cFamily.contains = [] :=
      List.filter_eq_nil_iff.mpr (by simpa using hother)
    rw [hfilter, if_neg hnot]
    refine ⟨?_, ?_, ?_, ?_⟩
    · rw [if_neg (hnone .c (by decide))]
      exact hc
    · rw [if_neg (hnone .cpp (by decide))]
      exact hcpp
    · rw [if_neg (hnone .java (by decide))]
      exact hjava
    · rw [if_neg (hnone .objc (by decide))]
      exact hobjc
  | java | objc | cpp | cppJava | cCpp | family =>
    constructor <;> simp [Tally.hit, hitFamily, see, cFamily] <;> omega

end Tally

namespace Reading
open ContentType.Language Token

variable {tokens : List Token} {n : Nat}

/-- A keyword of all four languages of the C family stands at an index, in no comment. -/
def SharedAt (tokens : List Token) (i : Nat) : Prop :=
  ¬ Commented tokens i ∧ ∃ languages ∈ keywordAt tokens i, ∀ l ∈ cFamily, l ∈ languages

instance (tokens : List Token) : DecidablePred (SharedAt tokens) :=
  fun _ => inferInstanceAs (Decidable (_ ∧ ∃ _ ∈ _, _))

theorem sharedAt_iff {languages : List Language} (h : keywordAt tokens n = some languages) :
    SharedAt tokens n ↔ ¬ Commented tokens n ∧ ∀ l ∈ cFamily, l ∈ languages := by
  simp [SharedAt, h]

theorem shared_of_keywordAt {languages : List Language} (h : keywordAt tokens n = some languages) :
    Shared languages := by
  obtain ⟨t, _, ht⟩ := Option.bind_eq_some_iff.mp h
  exact shared_of_lookup ht

theorem balanced_after (hn : n ≤ tokens.length) :
    (after tokens n).tally.Balanced (fun l => Nat.count (CountsFor tokens l) n)
      (Nat.count (SharedAt tokens) n) := by
  induction n with
  | zero => exact Tally.balanced_empty
  | succ n ih =>
    have ih := ih (Nat.le_of_succ_le hn)
    rcases tally_after_succ (List.getElem?_eq_getElem hn) with
      ⟨hk, he⟩ | ⟨languages, hk, ⟨hc, he⟩ | ⟨hc, he⟩⟩
    · have hshared : ¬ SharedAt tokens n := by simp [SharedAt, hk]
      rw [he]
      simpa only [Nat.count_succ, if_neg (not_countsFor_of_none hk), if_neg hshared, Nat.add_zero]
        using ih
    · have hshared : ¬ SharedAt tokens n := fun hs => hc (Or.inl hs.1)
      have hcounts : ∀ l, ¬ CountsFor tokens l n := fun l hl => hc ((countsFor_iff hk).mp hl).2
      rw [he]
      simp only [Nat.count_succ, if_neg (hcounts _), if_neg hshared, Nat.add_zero]
      exact ⟨ih.c, ih.cpp, ih.java, ih.objc⟩
    · have hshared : SharedAt tokens n ↔ ∀ l ∈ cFamily, l ∈ languages := by
        rw [sharedAt_iff hk]
        refine ⟨And.right, fun hall => ⟨hc.resolve_right fun hother => ?_, hall⟩⟩
        exact hother .c (hall .c (by decide)) (by decide)
      rw [he]
      simp only [Nat.count_succ, countsFor_iff hk, hc, and_true, hshared]
      exact ih.hit (shared_of_keywordAt hk) _

end Reading

namespace Tally
open ContentType.Language Reading Token

theorem count_of_counts {t : Tally} {hits : Language → Nat}
    (h : t.counts = Language.all.map hits) (l : Language) : t.count l = hits l := by
  rw [count, h]
  cases l <;> rfl

/-- Between Java and C++ the keywords of all four languages do not tell. -/
theorem familyPick_of_balanced {t : Tally} {hits : Language → Nat} {shared : Nat}
    (h : t.Balanced hits shared) (hcounts : t.counts = Language.all.map hits)
    (hseen : .cpp ∈ t.languages) (hall : ∀ l ∈ t.languages, l ∈ cFamily)
    (hjava : ¬ (1 < t.javaOnly ∧ t.foundClass = true)) (hpair : 1 < t.cppJava) :
    t.familyPick = if t.javaOnly < t.cppOnly + t.cCpp then some .cpp else some .java := by
  have hfamily : t.hasCFamily = true :=
    List.any_eq_true.mpr ⟨.cpp, hseen, by decide⟩
  have hevery : t.languages.all cFamily.contains = true :=
    List.all_eq_true.mpr fun l hl => List.contains_iff_mem.mpr (hall l hl)
  have hless : t.count .java < t.count .cpp ↔ t.javaOnly < t.cppOnly + t.cCpp := by
    rw [count_of_counts hcounts, count_of_counts hcounts, h.java, h.cpp]
    omega
  rw [familyPick, if_neg (by simp [hfamily, hevery]), if_neg (by simpa using hjava), if_pos hpair]
  simp only [hless]

/-- Keywords of a text that belong to all four languages of the C family, outside comments. -/
def sharedHits (s : List UInt8) : Nat :=
  Nat.count (SharedAt (Token.scan s)) (Token.scan s).length

/-- The counters of a tally agree with its hits. So where all keywords seen are of the C family,
more than one belongs to C++ and Java alone, and these are not Java for their classes, C++ is picked
when it has more keywords that are not Java's than Java has of its own, and Java otherwise. -/
theorem scan_balanced (s : List UInt8) :
    (scan s).count .c = (scan s).cCpp + sharedHits s ∧
    (scan s).count .cpp = (scan s).cppOnly + (scan s).cppJava + (scan s).cCpp + sharedHits s ∧
    (scan s).count .java = (scan s).javaOnly + (scan s).cppJava + sharedHits s ∧
    (scan s).count .objc = (scan s).objcOnly + sharedHits s ∧
    (∀ l, (scan s).count l ≤ s.length) ∧
    ((∀ l ∈ (scan s).languages, l ∈ cFamily) → 1 < (scan s).cppJava →
      ¬ (1 < (scan s).javaOnly ∧ (scan s).foundClass = true) →
      (scan s).familyPick =
        if (scan s).javaOnly < (scan s).cppOnly + (scan s).cCpp then some .cpp
        else some .java) := by
  have hcounts := counts_after (Nat.le_refl (Token.scan s).length)
  have hbalanced := balanced_after (Nat.le_refl (Token.scan s).length)
  have hlanguages := languages_after (Nat.le_refl (Token.scan s).length)
  rw [← scan_eq_after] at hcounts hbalanced hlanguages
  have hcount := count_of_counts hcounts
  refine ⟨(hcount .c).trans hbalanced.c, (hcount .cpp).trans hbalanced.cpp,
    (hcount .java).trans hbalanced.java, (hcount .objc).trans hbalanced.objc, ?_, ?_⟩
  · intro l
    rw [hcount l]
    exact Nat.le_trans (Nat.count_le _) (Token.length_scanFrom_le true s)
  · intro hall hpair hjava
    have hne : Nat.count (CountsFor (Token.scan s) .cpp) (Token.scan s).length ≠ 0 := by
      rw [hbalanced.cpp]
      omega
    obtain ⟨i, hi, languages, hk, hmem, _⟩ := Nat.count_ne_iff_exists.mp hne
    have hseen : .cpp ∈ (scan s).languages := (hlanguages .cpp).mpr ⟨i, hi, languages, hk, hmem⟩
    exact familyPick_of_balanced hbalanced hcounts hseen hall hjava hpair

/-- One keyword of C++ is in a comment. -/
def commentedText : List UInt8 :=
  Byte.ascii "import // explicit b\npublic virtual private"

/-- With that one counted it would be C++. -/
theorem scan_balanced_commented :
    (∀ l ∈ (scan commentedText).languages, l ∈ cFamily) ∧ 1 < (scan commentedText).cppJava ∧
      ¬ (1 < (scan commentedText).javaOnly ∧ (scan commentedText).foundClass = true) ∧
      (scan commentedText).familyPick = some .java := by
  have hall : ∀ l ∈ (scan commentedText).languages, l ∈ cFamily := by decide +kernel
  have hpair : 1 < (scan commentedText).cppJava := by decide +kernel
  have honly : (scan commentedText).javaOnly = 1 := by decide +kernel
  have hcpp : (scan commentedText).cppOnly + (scan commentedText).cCpp = 1 := by decide +kernel
  have hclass : ¬ (1 < (scan commentedText).javaOnly ∧
    (scan commentedText).foundClass = true) := by omega
  obtain ⟨_, _, _, _, _, hpick⟩ := scan_balanced commentedText
  exact ⟨hall, hpair, hclass, (hpick hall hpair hclass).trans (if_neg (by omega))⟩

end Tally

end ContentType
