import ContentType.Guess.Language
import ContentType.Guess.Token

namespace ContentType

/-- The keywords of a text, counted. Those of C and its relatives do not count inside a comment. -/
structure Tally where
  /-- Keywords seen. -/
  tokens : Nat
  /-- Languages of the keywords seen. -/
  languages : List Language
  /-- Hits for each language, in the order of all languages. -/
  counts : List Nat
  javaOnly : Nat
  objcOnly : Nat
  cppOnly : Nat
  cppJava : Nat
  cCpp : Nat
  foundClass : Bool
deriving DecidableEq, Repr

namespace Tally

def empty : Tally :=
  ⟨0, [], Language.all.map (fun _ => 0), 0, 0, 0, 0, 0, false⟩

/-- Hits for one language. -/
def count (t : Tally) (l : Language) : Nat :=
  t.counts.getD (Language.all.idxOf l) 0

def see (t : Tally) (languages : List Language) : Tally :=
  { t with tokens := t.tokens + 1, languages := Language.union t.languages languages }

def hit (t : Tally) (languages : List Language) : Tally :=
  { t with
    counts := List.zipWith (fun l n => if languages.contains l then n + 1 else n) Language.all
      t.counts }

/-- Tell a keyword of the C family by the relatives that share it. -/
def hitFamily (t : Tally) (family : List Language) (word : List UInt8) : Tally :=
  if family = [.java] then { t with javaOnly := t.javaOnly + 1 }
  else if family = [.objc] then { t with objcOnly := t.objcOnly + 1 }
  else if family = [.cpp] then { t with cppOnly := t.cppOnly + 1 }
  else if family = [.java, .cpp] then
    { t with cppJava := t.cppJava + 1, foundClass := t.foundClass || word == Byte.ascii "class" }
  else if family = [.c, .cpp] then { t with cCpp := t.cCpp + 1 }
  else t

end Tally

/-- A tally under way, and whether the next token stands in a comment of either kind. -/
structure Reading where
  tally : Tally
  inLine : Bool
  inBlock : Bool
deriving DecidableEq, Repr

namespace Reading

def start : Reading :=
  ⟨.empty, false, false⟩

/-- Take a keyword into account, in or out of a comment. -/
def keyword (r : Reading) (word : List UInt8) (languages : List Language) : Reading :=
  let seen := r.tally.see languages
  let family := languages.filter Language.cFamily.contains
  if family = [] then { r with tally := seen.hit languages }
  else if r.inLine || r.inBlock then { r with tally := seen }
  else
    { tally := (seen.hitFamily family word).hit languages
      inLine := word == Byte.ascii "//"
      inBlock := word == Byte.ascii "/*" }

/-- A line comment ends where a line starts, a block comment at its own closing mark. -/
def step (r : Reading) (t : Token) : Reading :=
  let r := { r with inLine := r.inLine && !t.startsLine }
  if r.inBlock && t.text == Byte.ascii "*/" then { r with inBlock := false }
  else
    match Language.lookup t.text with
    | none => r
    | some languages => r.keyword t.text languages

end Reading

namespace Tally

def ofTokens (tokens : List Token) : Tally :=
  (tokens.foldl Reading.step .start).tally

def scan (s : List UInt8) : Tally :=
  ofTokens (Token.scan s)

def hasCFamily (t : Tally) : Bool :=
  t.languages.any Language.cFamily.contains

/-- The language of a text whose keywords are all from C and its relatives, if one can be told. -/
def familyPick (t : Tally) : Option Language :=
  if !t.hasCFamily || !t.languages.all Language.cFamily.contains then none
  else if 1 < t.javaOnly && t.foundClass then some .java
  else if 1 < t.cppJava then
    if t.count .java < t.count .cpp then some .cpp else some .java
  else if 1 < t.cCpp + t.cppOnly then
    if 0 < t.cppOnly then some .cpp else some .c
  else if 0 < t.objcOnly then some .objc
  else none

end Tally

end ContentType
