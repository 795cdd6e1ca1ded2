import ContentType.Byte
import ContentType.FileSystem.Basic

namespace ContentType.FileSystem

def set (fs : FileSystem) (l : Location) (n : Node) : FileSystem :=
  if l = [] then { fs with root := n }
  else { fs with entries := fs.entries.filter (fun e => e.1 != l) ++ [(l, n)] }

/-- The directory that a name leads to, if it leads to one. -/
def directory? (fs : FileSystem) (here : Location) (name : List UInt8) : Option Location :=
  match fs.walk true maxLinks here [name] with
  | .error _ => none
  | .ok (l, n) =>
    match n.kind with
    | .directory _ => some l
    | _ => none

/-- Go down through directories, making those that are missing. These are like the root. -/
def descend (fs : FileSystem) (here : Location) : List (List UInt8) → FileSystem × Location
  | [] => (fs, here)
  | piece :: rest =>
    if piece = [] ∨ piece = [Path.dot] then fs.descend here rest
    else if piece = [Path.dot, Path.dot] then fs.descend here.dropLast rest
    else
      match fs.directory? here piece with
      | some l => fs.descend l rest
      | none => (fs.set (here ++ [piece]) fs.root).descend (here ++ [piece]) rest

/-- Put a node at a path, with the directories on the way. Writing a file writes through a link to
another file. -/
def put (fs : FileSystem) (path : Path) (n : Node) : FileSystem :=
  let names := path.pieces.filter (fun p => p != [] && p != [Path.dot])
  match names.getLast? with
  | none => fs
  | some name =>
    let (fs, here) := fs.descend (origin path fs.working) names.dropLast
    match fs.walk true maxLinks here [name] with
    | .error _ => fs.set (here ++ [name]) n
    | .ok (l, there) =>
      match n.kind, there.kind with
      | .file, .file => fs.set l n
      | .directory _, .directory _ => fs
      | _, _ => fs.set (here ++ [name]) n

/-- Take away what a path names, and everything below it. -/
def remove (fs : FileSystem) (path : Path) : FileSystem :=
  match fs.resolve false path with
  | .error _ => fs
  | .ok (l, _) => { fs with entries := fs.entries.filter (fun e => !l.isPrefixOf e.1) }

/-- The times of what a path leads to. -/
def times? (fs : FileSystem) (path : Path) : Option Times :=
  match fs.resolve true path with
  | .ok (_, n) => some n.times
  | .error _ => none

/-- Only the times of a node of one's own are set. -/
def setTimes (fs : FileSystem) (path : Path) (times : Times) : FileSystem :=
  match fs.resolve true path with
  | .ok (l, n) => if n.owned then fs.set l { n with times := times } else fs
  | .error _ => fs

/-- Note that a file was read. -/
def touch (fs : FileSystem) (path : Path) (now : Nat) : FileSystem :=
  match fs.resolve true path with
  | .ok (l, n) => fs.set l { n with times := { n.times with accessed := now } }
  | .error _ => fs

/-- An empty working directory, and a null device. Directories have the given size. -/
def initial (size : Nat) : FileSystem where
  root := .directory size ⟨0, 0⟩
  entries :=
    [([Byte.ascii "dev"], .directory size ⟨0, 0⟩),
      ([Byte.ascii "dev", Byte.ascii "null"], .nullDevice ⟨0, 0⟩),
      ([Byte.ascii "tmp"], .directory size ⟨0, 0⟩),
      ([Byte.ascii "tmp", Byte.ascii "work"], .directory size ⟨0, 0⟩)]
  working := [Byte.ascii "tmp", Byte.ascii "work"]

end ContentType.FileSystem
