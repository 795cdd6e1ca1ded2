import ContentType.Detector.Basic
import ContentType.FileSystem.Edit
import ContentType.Guess.Id3

namespace ContentType

/-- What a file system tells about a path without opening it. -/
inductive Survey
  | settled (verdict : Verdict)
  | follow (target : Path)
  /-- A file that reports to have something in it. -/
  | regular (size : Nat)
deriving DecidableEq, Repr

/-- A verdict corrected by the last component of a path, if that is a name. -/
def Verdict.namedBy (v : Verdict) (path : Path) : Verdict :=
  match path.fileName? with
  | some name => v.named (Utf8.decodeLossy name)
  | none => v

namespace Detector

def unreadable : String := "application/x-unreadable"

def link : String := "inode/link"

/-- A link's target as a path, seen from the directory that holds the link. -/
def targetOf (path target : Path) : Path :=
  if target.isAbsolute then target
  else
    match path.parent? with
    | some directory => directory.join target
    | none => target

def surveyLink (fs : FileSystem) (path target : Path) (follow : Bool) : Survey :=
  let target := targetOf path target
  match fs.resolve true target with
  | .error _ => .settled (.certain "inode/link-broken")
  | .ok _ => if follow then .follow target else .settled (.certain link)

def survey (fs : FileSystem) (path : Path) (follow : Bool) : Survey :=
  match fs.inspect path with
  | .error _ => .settled (.make unreadable 0)
  | .ok n =>
    match n.kind with
    | .directory _ =>
      match n.opening with
      | .ok _ => .settled (.certain "inode/directory")
      | .error _ => .settled (.certain "inode/directory-locked")
    | .link (.ok target) => surveyLink fs path target follow
    | .link (.error _) => .settled (.certain link)
    | .charDevice => .settled (.certain "inode/chardevice")
    | .blockDevice => .settled (.certain "inode/blockdevice")
    | .pipe => .settled (.certain "inode/fifo")
    | .socket => .settled (.certain "inode/socket")
    | .file => if n.size = 0 then .settled (.certain zeroSize) else .regular n.size

/-- Links followed before a path is left for a link. -/
def maxHops : Nat := 16

/-- Where following links ends. -/
inductive Landing
  | settled (verdict : Verdict)
  | content (path : Path)
deriving DecidableEq, Repr

/-- Follow links, at most so many, in any way of looking at a path. -/
def landBy {m : Type → Type} [Monad m] (look : Path → m Survey) (hops : Nat) (path : Path) :
    m Landing := do
  match ← look path with
  | .settled v => return .settled v
  | .regular _ => return .content path
  | .follow target =>
    match hops with
    | 0 => return .settled (.certain link)
    | hops + 1 => landBy look hops target

/-- Follow links, each look being a survey and nothing else. -/
def land (fs : FileSystem) (follow : Bool) (hops : Nat) (path : Path) : Landing :=
  (landBy (m := Id) (fun path => survey fs path follow) hops path).run

theorem land_eq (fs : FileSystem) (follow : Bool) (hops : Nat) (path : Path) :
    land fs follow hops path =
      match survey fs path follow, hops with
      | .settled v, _ => .settled v
      | .regular _, _ => .content path
      | .follow _, 0 => .settled (.certain link)
      | .follow target, hops + 1 => land fs follow hops target := by
  unfold land
  rw [landBy]
  simp only [Id.run_bind]
  cases survey fs path follow
  case follow => cases hops <;> rfl
  all_goals rfl

/-- The verdict on an opened file. A tag is skipped and what comes after it is looked at. -/
def judgeFile (d : Detector) (f : OpenFile) : Verdict :=
  match f.readWindow 0 d.window with
  | .error _ => .certain unreadable
  | .ok start =>
    let tag := Id3.tagLength start
    if tag = 0 then d.judge start
    else
      match f.readWindow tag d.window with
      | .error _ => .certain unreadable
      | .ok [] => .certain zeroSize
      | .ok (b :: s) => d.judge (b :: s)

def classifyContent (d : Detector) (fs : FileSystem) (path : Path) : Verdict :=
  match fs.openFile path with
  | .error _ => .certain unreadable
  | .ok f => d.judgeFile f

def landing (d : Detector) (fs : FileSystem) (path : Path) : Landing :=
  land fs d.config.followLinks maxHops path

/-- The verdict on a file, corrected by the name it was asked for. What is no regular file is told
by its kind, and a regular file is judged by its content. -/
def classifyFile (d : Detector) (fs : FileSystem) (path : Path) : Verdict :=
  let v :=
    match d.landing fs path with
    | .settled v => v
    | .content p => d.classifyContent fs p
  v.namedBy path

/-- The file system after a verdict on a file: reading it changed its access time, which is put back
where the settings say so and the system lets it. -/
def afterwards (d : Detector) (fs : FileSystem) (path : Path) (now : Nat) : FileSystem :=
  match d.landing fs path with
  | .settled _ => fs
  | .content p =>
    match fs.openFile p, fs.times? p with
    | .ok _, some times =>
      let after := if d.window = 0 then fs else fs.touch p now
      if d.config.restoresTimes p then after.setTimes p times else after
    | _, _ => fs

end Detector

end ContentType
