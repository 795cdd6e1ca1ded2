import ContentType.Text.Utf8

namespace ContentType

/-- A path as a system has it: bytes, whether they are text or not. -/
structure Path where
  bytes : List UInt8
deriving DecidableEq, Repr

namespace Path

/-- The path that a text spells. -/
def ofText (s : String) : Path :=
  ⟨Utf8.encode s⟩

instance : Coe String Path := ⟨ofText⟩

/-- The text that a path is shown as. -/
def shown (path : Path) : String :=
  Utf8.decodeLossy path.bytes

def slash : UInt8 := '/'.toUInt8

def dot : UInt8 := '.'.toUInt8

/-- Repeated and trailing slashes and inner dots make no component; a leading dot does, and two dots
are kept. -/
inductive Component
  | root
  /-- A leading dot. -/
  | here
  /-- Two dots. -/
  | up
  | name (s : List UInt8)
deriving DecidableEq, Repr

/-- What stands between slashes. -/
def pieces (path : Path) : List (List UInt8) :=
  path.bytes.splitOn slash

/-- The start of a path, if it has one of its own, and the pieces after it. -/
def split (path : Path) : Option Component × List (List UInt8) :=
  match path.pieces with
  | [] :: p :: ps => (some .root, p :: ps)
  | ps => if ps.head? = some [dot] then (some .here, ps.tail) else (none, ps)

/-- Whether a piece after the start makes no component. -/
def isIdle (piece : List UInt8) : Bool :=
  piece == [] || piece == [dot]

def component (piece : List UInt8) : Component :=
  if piece = [dot, dot] then .up else .name piece

def components (path : Path) : List Component :=
  let (start, body) := path.split
  start.toList ++ (body.filter (fun p => !isIdle p)).map component

/-- Equality by components. -/
def same (p q : Path) : Bool :=
  p.components == q.components

def isAbsolute (path : Path) : Bool :=
  path.bytes.head? == some slash

def joinPieces (ps : List (List UInt8)) : List UInt8 :=
  [slash].intercalate ps

/-- The path with a start and the pieces kept after it. -/
def ofPieces (start : Option Component) (body : List (List UInt8)) : Path :=
  match start, body with
  | some .here, [] => ⟨[dot]⟩
  | some .here, ps => ⟨dot :: slash :: joinPieces ps⟩
  | some _, ps => ⟨slash :: joinPieces ps⟩
  | none, ps => ⟨joinPieces ps⟩

/-- The path without its last component, as far as the bytes before it name one. The root and the
empty path have no parent. -/
def parent? (path : Path) : Option Path :=
  let (start, body) := path.split
  match body.reverse.dropWhile isIdle with
  | [] => if start = some .here then some ⟨[]⟩ else none
  | _ :: above => some (ofPieces start (above.dropWhile isIdle).reverse)

/-- The last component, when it is a name. -/
def fileName? (path : Path) : Option (List UInt8) :=
  match path.components.getLast? with
  | some (.name s) => some s
  | _ => none

/-- A path seen from a directory. -/
def join (directory path : Path) : Path :=
  if path.isAbsolute then path
  else if directory.bytes = [] then path
  else if directory.bytes.getLast? = some slash then ⟨directory.bytes ++ path.bytes⟩
  else ⟨directory.bytes ++ slash :: path.bytes⟩

end Path

end ContentType
