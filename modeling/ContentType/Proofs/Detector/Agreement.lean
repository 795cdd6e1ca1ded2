import ContentType.Detector.File
import ContentType.Proofs.FileSystem.Reading
import ContentType.Proofs.Guess.Id3
import ContentType.Proofs.Text.Utf8

namespace ContentType

/-- A tag's length fits in a word many times over. -/
theorem Id3.tagLength_offset (buffer : List UInt8) :
    (tagLength buffer : Int) ≤ Int64.maxValue.toInt := by
  have hle := tagLength_le buffer
  have hmax : Int64.maxValue.toInt = 2 ^ 63 - 1 := rfl
  omega

namespace Detector

variable {d : Detector} {fs : FileSystem} {path : Path} {node : Node} {content : List UInt8}

theorem landing_of_file (h : fs.inspect path = .ok node) (hk : node.kind = .file)
    (hsize : node.size ≠ 0) : d.landing fs path = .content path := by
  have hsurvey : survey fs path d.config.followLinks = .regular node.size := by
    simp only [survey, h, hk, if_neg hsize]
  rw [landing, land_eq, hsurvey]

theorem classify_of_take {buffer : List UInt8} {b : UInt8} {s : List UInt8}
    (h : buffer.take d.window = b :: s) : d.classify buffer = d.judge (b :: s) := by
  simp only [classify, h]

theorem take_window_ne_nil (hw : 1 ≤ d.window) {buffer : List UInt8} (hb : buffer ≠ []) :
    ∃ b s, buffer.take d.window = b :: s := by
  apply List.exists_cons_of_ne_nil
  intro hnil
  rcases List.take_eq_nil_iff.mp hnil with hzero | hempty
  · omega
  · exact hb hempty

/-- Without a tag the content is judged from its start. -/
theorem judgeFile_untagged (hw : 1 ≤ d.window) (hc : content ≠ []) {size : Nat}
    (hk : Id3.tagLength (content.take d.window) = 0) :
    d.judgeFile ⟨⟨content, none, true⟩, size⟩ = d.classify content := by
  have hread := OpenFile.readWindow_of_clear (f := ⟨⟨content, none, true⟩, size⟩) rfl rfl
    (by decide : ((0 : Nat) : Int) ≤ Int64.maxValue.toInt) d.window
  obtain ⟨b, s, htake⟩ := take_window_ne_nil hw hc
  simp only [judgeFile, hread, List.drop_zero, hk, if_true]
  rw [classify_of_take htake, htake]

/-- Behind a tag the rest of the content is judged, if there is one. -/
theorem judgeFile_tagged (hw : 1 ≤ d.window) {size : Nat}
    (hk : 0 < Id3.tagLength (content.take d.window)) :
    d.judgeFile ⟨⟨content, none, true⟩, size⟩ =
      if content.length ≤ Id3.tagLength (content.take d.window) then .certain zeroSize
      else d.classify (content.drop (Id3.tagLength (content.take d.window))) := by
  have hstart := OpenFile.readWindow_of_clear (f := ⟨⟨content, none, true⟩, size⟩) rfl rfl
    (by decide : ((0 : Nat) : Int) ≤ Int64.maxValue.toInt) d.window
  have hbehind := OpenFile.readWindow_of_clear (f := ⟨⟨content, none, true⟩, size⟩) rfl rfl
    (Id3.tagLength_offset (content.take d.window)) d.window
  simp only [judgeFile, hstart, List.drop_zero, if_neg (Nat.ne_of_gt hk), hbehind]
  by_cases hend : content.length ≤ Id3.tagLength (content.take d.window)
  · rw [if_pos hend, List.drop_of_length_le hend, List.take_nil]
  · have hrest : content.drop (Id3.tagLength (content.take d.window)) ≠ [] := by
      rw [Ne, List.drop_eq_nil_iff]
      exact hend
    obtain ⟨b, s, htake⟩ := take_window_ne_nil hw hrest
    rw [if_neg hend, classify_of_take htake, htake]

theorem classifyFile_of_holds (h : fs.inspect path = .ok node) (hnode : node.Holds content)
    (hc : content ≠ []) {name : String} (hn : path.fileName? = some (Utf8.encode name)) :
    d.classifyFile fs path = (d.judgeFile ⟨⟨content, none, true⟩, node.size⟩).named name := by
  simp only [classifyFile, landing_of_file h hnode.kind (hnode.size_ne hc), classifyContent,
    FileSystem.openFile_of_holds h hnode, Verdict.namedBy, hn, Utf8.decodeLossy_encode]

/-- A file that is not reached through a link is judged as the buffer with its content: all of it
when no tag stands in front, what comes after the tag otherwise. A file that ends with its tag
is empty. -/
theorem classifyFile_agrees (hw : 1 ≤ d.window) (h : fs.inspect path = .ok node)
    (hnode : node.Holds content) (hc : content ≠ []) {name : String}
    (hn : path.fileName? = some (Utf8.encode name)) {tag : Nat}
    (ht : tag = Id3.tagLength (content.take d.window)) :
    (tag = 0 → d.classifyFile fs path = d.classifyNamed content name) ∧
    (0 < tag → tag < content.length →
      d.classifyFile fs path = d.classifyNamed (content.drop tag) name) ∧
    (content.length ≤ tag → d.classifyFile fs path = ⟨"application/x-zerosize", 100⟩) := by
  subst ht
  rw [classifyFile_of_holds h hnode hc hn]
  refine ⟨fun hk => ?_, fun hk hin => ?_, fun hend => ?_⟩
  · rw [judgeFile_untagged hw hc hk, classifyNamed]
  · rw [judgeFile_tagged hw hk, if_neg (Nat.not_le.mpr hin), classifyNamed]
  · have hk : 0 < Id3.tagLength (content.take d.window) :=
      Nat.lt_of_lt_of_le (List.length_pos_iff.mpr hc) hend
    rw [judgeFile_tagged hw hk, if_pos hend]
    rfl

/-- Forty bytes of tag in front of a program. -/
def taggedContent : List UInt8 :=
  Byte.ascii "ID3" ++ [3, 0, 0, 0, 0, 0, 30] ++ List.replicate 30 0 ++ Byte.ascii "#!/bin/sh"

def taggedFile : FileSystem where
  root := .directory 4096 ⟨0, 0⟩
  entries := [([Byte.ascii "song.mp3"], .file taggedContent ⟨0, 0⟩)]
  working := []

def plainDetector : Detector :=
  ⟨.empty, .default "/tmp"⟩

theorem classifyFile_agrees_tagged :
    1 ≤ plainDetector.window ∧
      taggedFile.inspect "./song.mp3" = .ok (.file taggedContent ⟨0, 0⟩) ∧
      (Node.file taggedContent ⟨0, 0⟩).Holds taggedContent ∧ taggedContent ≠ [] ∧
      Path.fileName? "./song.mp3" = some (Utf8.encode "song.mp3") ∧
      40 = Id3.tagLength (taggedContent.take plainDetector.window) ∧
      plainDetector.classifyFile taggedFile "./song.mp3" =
        plainDetector.classifyNamed (Byte.ascii "#!/bin/sh") "song.mp3" := by
  obtain ⟨hinspect, hname⟩ :
      taggedFile.inspect "./song.mp3" = .ok (.file taggedContent ⟨0, 0⟩) ∧
        Path.fileName? "./song.mp3" = some (Utf8.encode "song.mp3") :=
    ⟨rfl, rfl⟩
  obtain ⟨hw, hc, htag, hdrop, hin⟩ : 1 ≤ plainDetector.window ∧ taggedContent ≠ [] ∧
      40 = Id3.tagLength (taggedContent.take plainDetector.window) ∧
      taggedContent.drop 40 = Byte.ascii "#!/bin/sh" ∧ 40 < taggedContent.length := by
    decide +kernel
  have hholds := Node.holds_file taggedContent ⟨0, 0⟩
  have hjudged := (classifyFile_agrees hw hinspect hholds hc hname htag).2.1 (by decide) hin
  rw [hdrop] at hjudged
  exact ⟨hw, hinspect, hholds, hc, hname, htag, hjudged⟩

end Detector

end ContentType
