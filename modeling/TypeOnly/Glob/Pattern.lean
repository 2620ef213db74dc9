import TypeOnly.Text.Split

/-!
Patterns for paths. A question mark stands for a character, a star for any characters of one part of
a path, brackets for one of some characters, and two stars for any number of folders. None of them
stands for a point at the beginning of a part.
-/

namespace TypeOnly.Glob

set_option autoImplicit false

open Text (breakAt)

/-- Some of the characters that brackets stand for. -/
inductive CharClass where
  | single (c : Char)
  | range (first last : Char)
deriving DecidableEq, Repr

namespace CharClass

def holds (c : Char) : CharClass → Bool
  | single x => c = x
  | range first last => first ≤ c && c ≤ last

def parse : List Char → List CharClass
  | a :: '-' :: b :: rest => range a b :: parse rest
  | a :: rest => single a :: parse rest
  | [] => []

end CharClass

inductive Token where
  | char (c : Char)
  | anyChar
  | oneOf (classes : List CharClass)
  | noneOf (classes : List CharClass)
  /-- Any characters but slashes. -/
  | anySequence
  /-- Any number of folders, each with the slash after it. -/
  | anyFolders
deriving DecidableEq, Repr

/-- A pattern for a path or for one of its parts. -/
abbrev Pattern := List Token

namespace Pattern

/-! ### Reading -/

/-- Reads the inside of brackets, after the opening one; gives what is left after the closing
one. -/
def parseClass : List Char → Option (Token × List Char)
  | '!' :: x :: rest =>
    (breakAt ']' rest).map fun (inside, after) => (.noneOf (CharClass.parse (x :: inside)), after)
  | '!' :: [] => none
  | x :: rest =>
    (breakAt ']' rest).map fun (inside, after) => (.oneOf (CharClass.parse (x :: inside)), after)
  | [] => none

/-- Adds any number of folders to a pattern given in reverse, where it does not stand there yet. -/
def addFolders (read : List Token) : List Token :=
  match read with
  | .anyFolders :: _ :: _ => read
  | _ => .anyFolders :: read

/-- Reads a pattern; `previous` is the character before it. -/
def parseFrom : Nat → Option Char → List Token → List Char → Option Pattern
  | 0, _, read, _ => some read.reverse
  | _, _, read, [] => some read.reverse
  | steps + 1, previous, read, '*' :: rest =>
    match rest with
    | '*' :: '*' :: _ => none
    | '*' :: rest =>
      if previous = none || previous = some '/' then
        match rest with
        | [] => some (addFolders read).reverse
        | '/' :: rest => parseFrom steps (some '/') (addFolders read) rest
        | _ => none
      else none
    | rest => parseFrom steps (some '*') (.anySequence :: read) rest
  | steps + 1, _, read, '?' :: rest => parseFrom steps (some '?') (.anyChar :: read) rest
  | steps + 1, _, read, '[' :: rest =>
    match parseClass rest with
    | some (token, rest) => parseFrom steps (some ']') (token :: read) rest
    | none => none
  | steps + 1, _, read, c :: rest => parseFrom steps (some c) (.char c :: read) rest

def parse? (s : String) : Option Pattern := parseFrom s.length none [] s.toList

/-- A text as a pattern that stands for nothing else. -/
def escape (s : String) : String :=
  String.ofList (s.toList.flatMap fun c =>
    if c = '?' || c = '*' || c = '[' || c = ']' then ['[', c, ']'] else [c])

/-! ### Matching -/

/-- What is left of a text after any characters but slashes; `fresh` at the beginning of a part. -/
def skipSequence (after : Bool → List Char → Bool) : Bool → List Char → Bool
  | fresh, [] => after fresh []
  | fresh, c :: rest =>
    after fresh (c :: rest)
      || (!(fresh && c = '.') && c ≠ '/' && skipSequence after false rest)

/-- What is left of a text after a part of a path has begun, up to the beginning of another one. -/
def skipFolders (after : Bool → List Char → Bool) : Bool → List Char → Bool
  | fresh, [] => after fresh []
  | fresh, c :: rest =>
    !(fresh && c = '.')
      && ((c = '/' && after true rest) || skipFolders after (c = '/') rest)

/-- Whether a pattern stands for a text; `fresh` at the beginning of a part. -/
def matchesFrom : Pattern → Bool → List Char → Bool
  | [], _, cs => cs.isEmpty
  | .anySequence :: rest, fresh, cs => skipSequence (matchesFrom rest) fresh cs
  | .anyFolders :: rest, fresh, cs =>
    matchesFrom rest fresh cs || skipFolders (matchesFrom rest) fresh cs
  | _ :: _, _, [] => false
  | .char x :: rest, _, c :: cs => c = x && matchesFrom rest (c = '/') cs
  | token :: rest, fresh, c :: cs =>
    c ≠ '/' && !(fresh && c = '.')
      && (match token with
        | .oneOf classes => classes.any (CharClass.holds c)
        | .noneOf classes => !classes.any (CharClass.holds c)
        | _ => true)
      && matchesFrom rest false cs

def holds (p : Pattern) (s : String) : Bool := p.matchesFrom true s.toList

end Pattern

end TypeOnly.Glob
