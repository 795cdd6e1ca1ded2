import ContentType.Byte

namespace ContentType

/-- Languages and formats of text. -/
inductive Language
  | html | c | make | pli | asm | pascal | java | cpp | mail | news | diff | objc
deriving DecidableEq, Repr

namespace Language

/-- Sets of languages are lists in this order. -/
def all : List Language :=
  [html, c, make, pli, asm, pascal, java, cpp, mail, news, diff, objc]

def mime : Language → String
  | html => "text/html"
  | c => "text/x-c"
  | make => "text/x-makefile"
  | pli => "text/x-pli"
  | asm => "text/x-assembler"
  | pascal => "text/x-pascal"
  | java => "text/x-java"
  | cpp => "text/x-c++"
  | mail => "message/rfc822"
  | news => "message/news"
  | diff => "text/x-diff"
  | objc => "text/x-objc"

/-- How many hits on a language's keywords make one point, before its weight. -/
def hitsPerPoint : Language → Nat
  | html => 19
  | c => 13
  | make => 4
  | pli => 1
  | asm => 6
  | pascal => 1
  | java => 12
  | cpp => 19
  | mail => 4
  | news => 3
  | diff => 4
  | objc => 10

def weight : Language → Float
  | html => 2
  | c => 1
  | make => 1.9
  | pli => 3
  | asm => 2.1
  | pascal => 1
  | java => 1
  | cpp => 1
  | mail => 1.9
  | news => 2
  | diff => 2
  | objc => 1

/-- Languages that share keywords and have to be told apart. -/
def cFamily : List Language :=
  [c, java, cpp, objc]

def keywords : List (String × List Language) :=
  [("<html", [html]), ("<HTML", [html]), ("<head", [html]), ("<HEAD", [html]),
    ("<body", [html]), ("<BODY", [html]), ("<title", [html]), ("<TITLE", [html]),
    ("<h1", [html]), ("<H1", [html]), ("<a", [html]), ("<A", [html]),
    ("<img", [html]), ("<IMG", [html]), ("<!--", [html]),
    ("<!doctype", [html]), ("<!DOCTYPE", [html]), ("<div", [html]), ("<DIV", [html]),
    ("<frame", [html]), ("<FRAME", [html]), ("<frameset", [html]), ("<FRAMESET", [html]),
    ("<script", [html]), ("<SCRIPT", [html]),
    ("/*", cFamily), ("//", cFamily),
    ("#include", [c, cpp]), ("#ifdef", [c, cpp]), ("#ifndef", [c, cpp]), ("bool", [c, cpp]),
    ("char", cFamily), ("int", cFamily), ("float", cFamily), ("void", cFamily),
    ("extern", [c, cpp]), ("struct", [c, cpp]), ("union", [c, cpp]),
    ("implements", [java]), ("super", [java]), ("import", [java]),
    ("class", [java, cpp]), ("public", [java, cpp]), ("private", [java, cpp]),
    ("explicit", [cpp]), ("virtual", [cpp]), ("namespace", [cpp]),
    ("#import", [objc]), ("@interface", [objc]), ("@implementation", [objc]),
    ("@protocol", [objc]),
    ("CFLAGS", [make]), ("LDFLAGS", [make]), ("all:", [make]), (".PHONY:", [make]),
    ("srcdir", [make]), ("exec_prefix", [make]),
    (".ascii", [asm]), (".asciiz", [asm]), (".byte", [asm]), (".even", [asm]),
    (".globl", [asm]), ("clr", [asm]),
    ("(input", [pascal]), ("dcl", [pli]),
    ("Received:", [mail]), ("Return-Path:", [mail]), ("Cc:", [mail]),
    ("Newsgroups:", [news]), ("Path:", [news]), ("Organization:", [news]),
    ("---", [diff]), ("+++", [diff]), ("***", [diff]), ("@@", [diff])]

def keywordBytes : List (List UInt8 × List Language) :=
  keywords.map (fun (word, languages) => (Byte.ascii word, languages))

/-- The languages that a word of the text is a keyword of, `none` for any other word. -/
def lookup (word : List UInt8) : Option (List Language) :=
  (keywordBytes.find? (fun entry => entry.1 == word)).map Prod.snd

/-- No word is listed twice, so each has the languages it is listed with. -/
theorem lookup_listed : ∀ entry ∈ keywords, lookup (Byte.ascii entry.1) = some entry.2 := by
  decide +kernel

theorem lookup_eq_some_iff {word : List UInt8} {languages : List Language} :
    lookup word = some languages ↔
      ∃ entry ∈ keywords, Byte.ascii entry.1 = word ∧ entry.2 = languages := by
  constructor
  · intro h
    obtain ⟨found, hfound, rfl⟩ := Option.map_eq_some_iff.mp h
    obtain ⟨entry, hentry, rfl⟩ := List.mem_map.mp (List.mem_of_find?_eq_some hfound)
    have hword := List.find?_some hfound
    exact ⟨entry, hentry, beq_iff_eq.mp hword, rfl⟩
  · rintro ⟨entry, hentry, rfl, rfl⟩
    exact lookup_listed entry hentry

theorem lookup_eq_none_iff {word : List UInt8} :
    lookup word = none ↔ ∀ entry ∈ keywords, Byte.ascii entry.1 ≠ word := by
  constructor
  · rintro h entry hentry rfl
    exact nomatch h.symm.trans (lookup_listed entry hentry)
  · intro h
    cases hword : lookup word with
    | none => rfl
    | some languages =>
      obtain ⟨entry, hentry, he, _⟩ := lookup_eq_some_iff.mp hword
      exact absurd he (h entry hentry)

/-- A set with another set's members put in. -/
def union (a b : List Language) : List Language :=
  all.filter (fun l => a.contains l || b.contains l)

end Language

end ContentType
