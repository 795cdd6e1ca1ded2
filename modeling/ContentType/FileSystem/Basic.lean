import ContentType.LimitedReader
import ContentType.Path

namespace ContentType

structure Times where
  accessed : Nat
  modified : Nat
deriving DecidableEq, Repr

/-- Why a path leads nowhere, or a file is not read. -/
inductive FileError
  | notFound
  | denied
  | notDirectory
  | isDirectory
  | tooManyLinks
  | nameTooLong
  | noDevice
  /-- The hardware, or what stands for it, did not do it. -/
  | failed
  /-- What is open has no places to go to. -/
  | unseekable
  | invalidOffset
  | zeroInPath
  | notText
  | tooLarge (size limit : Nat)
deriving DecidableEq, Repr

def FileError.message : FileError → String
  | notFound => "No such file or directory (os error 2)"
  | denied => "Permission denied (os error 13)"
  | notDirectory => "Not a directory (os error 20)"
  | isDirectory => "Is a directory (os error 21)"
  | tooManyLinks => "Too many levels of symbolic links (os error 40)"
  | nameTooLong => "File name too long (os error 36)"
  | noDevice => "No such device or address (os error 6)"
  | failed => "Input/output error (os error 5)"
  | unseekable => "Illegal seek (os error 29)"
  | invalidOffset => "Invalid argument (os error 22)"
  | zeroInPath => "file name contained an unexpected NUL byte"
  | notText => "stream did not contain valid UTF-8"
  | tooLarge size limit =>
    "file too large: " ++ Nat.repr size ++ " bytes (limit: " ++ Nat.repr limit ++ ")"

/-- What comes of a node that is open for reading. -/
structure Stream where
  /-- What there is to read, up to the end or to where reading fails. -/
  bytes : List UInt8
  /-- Why reading fails behind these bytes, if it does. -/
  failure : Option FileError
  /-- Whether reading can start at any place. -/
  seekable : Bool

/-- All that there is to read. -/
def Stream.readToEnd (s : Stream) : Except FileError (List UInt8) :=
  match s.failure with
  | none => .ok s.bytes
  | some e => .error e

inductive NodeKind
  | file
  /-- Names in it can be looked up, or cannot. -/
  | directory (searchable : Bool)
  | link (target : Except FileError Path)
  | pipe
  | socket
  | charDevice
  | blockDevice

/-- What stands at one place. Each node has its own rights, which are told by what is let happen. -/
structure Node where
  kind : NodeKind
  /-- As it is reported, whatever there is to read. -/
  size : Nat
  times : Times
  /-- Whether its times can be set. -/
  owned : Bool
  /-- What opening it for reading, or for listing, comes to. -/
  opening : Except FileError Stream

namespace Node

/-- A file with nothing special about it. -/
def file (content : List UInt8) (times : Times) : Node where
  kind := .file
  size := content.length
  times := times
  owned := true
  opening := .ok ⟨content, none, true⟩

/-- A directory that can be listed and searched. It opens and cannot be read. -/
def directory (size : Nat) (times : Times) : Node where
  kind := .directory true
  size := size
  times := times
  owned := true
  opening := .ok ⟨[], some .isDirectory, true⟩

/-- A link is opened by what it leads to, and never itself. -/
def link (target : Path) (times : Times) : Node where
  kind := .link (.ok target)
  size := target.bytes.length
  times := times
  owned := true
  opening := .error .tooManyLinks

/-- A pipe, with what is written to it until it is closed. -/
def pipe (written : List UInt8) (times : Times) : Node where
  kind := .pipe
  size := 0
  times := times
  owned := true
  opening := .ok ⟨written, none, false⟩

def socket (times : Times) : Node where
  kind := .socket
  size := 0
  times := times
  owned := true
  opening := .error .noDevice

/-- The device that is always at its end. -/
def nullDevice (times : Times) : Node where
  kind := .charDevice
  size := 0
  times := times
  owned := false
  opening := .ok ⟨[], none, true⟩

def isSearchable (n : Node) : Bool :=
  match n.kind with
  | .directory searchable => searchable
  | _ => true

end Node

/-- A place, by the names on the way down from the root. -/
abbrev Location := List (List UInt8)

structure FileSystem where
  root : Node
  entries : List (Location × Node)
  /-- The directory in which relative paths start. -/
  working : Location

namespace FileSystem

def node? (fs : FileSystem) (l : Location) : Option Node :=
  if l = [] then some fs.root
  else (fs.entries.find? (fun e => e.1 == l)).map Prod.snd

/-- Links that one path may lead through. -/
def maxLinks : Nat := 40

/-- Longest name, and longest path, in bytes. -/
def maxName : Nat := 255

def maxPath : Nat := 4095

/-- The directory in which a path starts. -/
def origin (path : Path) (here : Location) : Location :=
  if path.isAbsolute then [] else here

/-- Walk down from a directory up to the first link that is to be followed. There the rest is left
to `jump`, which is told the directory that the link stands in. A link is followed when something
comes after it, be it no more than a slash, and at the end when `follow` says so. -/
def walkToLink (fs : FileSystem) (follow : Bool)
    (jump : Location → Except FileError Path → List (List UInt8) →
      Except FileError (Location × Node))
    (here : Location) : List (List UInt8) → Except FileError (Location × Node)
  | [] =>
    match fs.node? here with
    | some n => .ok (here, n)
    | none => .error .notFound
  | piece :: rest =>
    if piece = [] then fs.walkToLink follow jump here rest
    else if (fs.node? here).any (fun n => !n.isSearchable) then .error .denied
    else if piece = [Path.dot] then fs.walkToLink follow jump here rest
    else if piece = [Path.dot, Path.dot] then fs.walkToLink follow jump here.dropLast rest
    else if maxName < piece.length then .error .nameTooLong
    else
      match fs.node? (here ++ [piece]) with
      | none => .error .notFound
      | some n =>
        match n.kind with
        | .directory _ => fs.walkToLink follow jump (here ++ [piece]) rest
        | .link target =>
          if rest = [] ∧ follow = false then .ok (here ++ [piece], n) else jump here target rest
        | _ =>
          if rest = [] then .ok (here ++ [piece], n) else .error .notDirectory

/-- Walk down from a directory through so many links at most. -/
def walk (fs : FileSystem) (follow : Bool) :
    Nat → Location → List (List UInt8) → Except FileError (Location × Node)
  | 0 => fs.walkToLink follow (fun _ _ _ => .error .tooManyLinks)
  | links + 1 => fs.walkToLink follow fun here target rest =>
    match target with
    | .error e => .error e
    | .ok target =>
      if target.bytes = [] then .error .notFound
      else fs.walk follow links (origin target here) (target.pieces ++ rest)

/-- Where a path leads and what stands there. -/
def resolve (fs : FileSystem) (follow : Bool) (path : Path) :
    Except FileError (Location × Node) :=
  if path.bytes.contains 0 then .error .zeroInPath
  else if path.bytes = [] then .error .notFound
  else if maxPath < path.bytes.length then .error .nameTooLong
  else fs.walk follow maxLinks (origin path fs.working) path.pieces

/-- The node that a path names, without following it when it is a link itself. -/
def inspect (fs : FileSystem) (path : Path) : Except FileError Node :=
  (fs.resolve false path).map Prod.snd

end FileSystem

/-- A node opened for reading, with the size that it reports. -/
structure OpenFile extends Stream where
  size : Nat

namespace OpenFile

/-- Up to `length` bytes from an offset. It does not matter where reading fails behind them. -/
def readWindow (f : OpenFile) (offset length : Nat) : Except FileError (List UInt8) :=
  if f.seekable = false then .error .unseekable
  else if Int64.maxValue.toInt < offset then .error .invalidOffset
  else
    let window := (LimitedReader.start (f.bytes.drop offset) length).readToEnd
    match f.failure with
    | none => .ok window
    | some e => if window.length < length then .error e else .ok window

/-- The first bytes of a file that reports to be no larger than the limit. -/
def readAll (f : OpenFile) (limit : Nat) : Except FileError (List UInt8) :=
  if limit < f.size then .error (.tooLarge f.size limit)
  else f.readWindow 0 limit

end OpenFile

namespace FileSystem

/-- Open what a path leads to. -/
def openFile (fs : FileSystem) (path : Path) : Except FileError OpenFile :=
  match fs.resolve true path with
  | .error e => .error e
  | .ok (_, n) => n.opening.map (fun stream => ⟨stream, n.size⟩)

end FileSystem

end ContentType
