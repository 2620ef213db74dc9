import TypeOnly.Diagnostic
import TypeOnly.Digest

/-!
Insertions into texts, and those that mark what a project imports and exports only as types.
-/

namespace TypeOnly

set_option autoImplicit false

/-- What an insertion mends. -/
inductive Repair where
  /-- A type imported as if it were a value. -/
  | import_
  /-- A type exported again as if it were a value. -/
  | reExport
deriving DecidableEq, Repr

namespace Repair

/-- The repair that the number of a diagnostic asks for. -/
def ofCode? (code : Nat) : Option Repair :=
  if code = 1484 then some import_
  else if code = 1205 then some reExport
  else none

def text : Repair → String
  | import_ => "import"
  | reExport => "re_export"

end Repair

/-- The diagnostics that an insertion can mend. -/
def fixable (ds : List Diagnostic) : List Diagnostic :=
  ds.filter fun d => (Repair.ofCode? d.code).isSome

/-- A text to put at an offset of another. -/
structure Insertion where
  offset : Nat
  literal : String
  repair : Repair
deriving DecidableEq, Repr

inductive SpliceError where
  | outOfBounds (offset length : Nat)
  | insideCharacter (offset : Nat)
deriving DecidableEq, Repr

namespace SpliceError

def message : SpliceError → String
  | outOfBounds offset length =>
    s!"Insertion offset {offset} out of bounds (content length: {length})"
  | insideCharacter offset => s!"Insertion offset {offset} is not on a character boundary"

end SpliceError

namespace Insertion

/-- Insertions by their offsets; those at the same offset keep their order. -/
def sort (is : List Insertion) : List Insertion :=
  is.mergeSort fun a b => a.offset ≤ b.offset

/-- Puts insertions, in the order of their offsets, into the text from `offset` on. -/
def splice : List Insertion → Nat → List Char → Except SpliceError (List Char)
  | pending, offset, cs =>
    let literals := (pending.takeWhile (·.offset = offset)).flatMap (·.literal.toList)
    match pending.dropWhile (·.offset = offset), cs with
    | [], cs => .ok (literals ++ cs)
    | next :: _, [] => .error (.outOfBounds next.offset offset)
    | next :: later, c :: rest =>
      if next.offset < offset + c.utf8Size then .error (.insideCharacter next.offset)
      else (splice (next :: later) (offset + c.utf8Size) rest).map fun tail => literals ++ c :: tail

/-- The text with everything inserted. Offsets are those of the text before any insertion. -/
def apply (text : String) (is : List Insertion) : Except SpliceError String :=
  (splice (sort is) 0 text.toList).map String.ofList

end Insertion

/-- The insertions into one file. -/
structure EditSet where
  /-- The file as it was when it was checked. -/
  source : SourceFile
  insertions : List Insertion
  /-- What stands behind each insertion in the file. -/
  names : List String
deriving Repr

namespace EditSet

def path (s : EditSet) : Path := s.source.path

/-- The digest of the file as it was when it was checked. -/
def digest (s : EditSet) : String := Digest.ofText s.source.text

def patched (s : EditSet) : Except SpliceError String := Insertion.apply s.source.text s.insertions

def add (s : EditSet) (i : Insertion) (name : String) : EditSet :=
  { s with insertions := s.insertions ++ [i], names := s.names ++ [name] }

/-- Adds an insertion to the set of its file, which may be a new one. -/
def addTo (file : SourceFile) (i : Insertion) (name : String) : List EditSet → List EditSet
  | [] => [⟨file, [i], [name]⟩]
  | s :: rest =>
    if s.path.same file.path then s.add i name :: rest else s :: addTo file i name rest

/-- What is inserted before each thing that is only a type. -/
def marker : String := "type "

def gather (sets : List EditSet) (d : Diagnostic) : List EditSet :=
  match Repair.ofCode? d.code, d.file with
  | some repair, some file => addTo file ⟨d.span.start, marker, repair⟩ d.quotedText sets
  | _, _ => sets

/-- The insertions that diagnostics ask for, file by file in the order of their first mention. -/
def ofDiagnostics (ds : List Diagnostic) : List EditSet := ds.foldl gather []

end EditSet

end TypeOnly
