import TypeOnly.Disk
import TypeOnly.Glob.Pattern

/-!
The files and folders that a pattern stands for.
-/

namespace TypeOnly.Glob

set_option autoImplicit false

/-- A pattern for one part of a path. -/
inductive Segment where
  | literal (name : String)
  | wild (pattern : Pattern)
  /-- Any number of folders. -/
  | folders
deriving DecidableEq, Repr

namespace Segment

def isPlain : Token → Bool
  | .char _ => true
  | _ => false

def parse? (s : String) : Option Segment :=
  (Pattern.parse? s).map fun p =>
    if p.all isPlain then literal s
    else if p.contains .anyFolders then folders
    else wild p

def holds (name : String) : Segment → Bool
  | literal s => name = s
  | wild p => p.holds name
  | folders => true

end Segment

/-- Leaves one of several numbers of folders that follow each other. -/
def collapse : List Segment → List Segment
  | [] => []
  | s :: rest =>
    if s = .folders && rest.head? = some .folders then collapse rest else s :: collapse rest

/-- The parts of a pattern for absolute paths; none if it is not well formed. -/
def segments? (pattern : String) : Option (List Segment) := do
  let _ ← Pattern.parse? pattern
  let segments ← ((Text.fields '/' pattern).drop 1).mapM Segment.parse?
  return collapse segments

/-- Whether wildcards can stand for a name. -/
def isVisible (name : String) : Bool := !Text.beginsWith "." name

/-- What is below a folder and visible, each by the names on the way. -/
def visibleBelow (disk : Disk) (folder : Path) : List (List String) :=
  match disk.find folder with
  | .ok loc =>
    if disk.isFolderAt loc then (disk.below loc).filter fun names => names.all isVisible else []
  | .error _ => []

def descend (folder : Path) (names : List String) : Path := names.foldl Path.child folder

/-- The dots that a pattern for a name stands for: it must begin with one. -/
def dots (p : Pattern) : List String :=
  if p.head? = some (.char '.') then [".", ".."].filter p.holds else []

def expandFrom (disk : Disk) : List Segment → Path → List Path
  | [], p => [p]
  | [.folders], p =>
    ((visibleBelow disk p).map (descend p)).filter disk.isFolder
  | .folders :: s :: rest, p =>
    (visibleBelow disk p).flatMap fun names =>
      if s.holds (names.getLast?.getD "") then expandFrom disk rest (descend p names) else []
  | .literal name :: rest, p =>
    let next := p.child name
    let there := if name = "." || name = ".." then disk.isFolder p else disk.exists? next
    if there then expandFrom disk rest next else []
  | .wild pattern :: rest, p =>
    if disk.isFolder p then
      (((disk.list p).filter fun name => isVisible name && pattern.holds name) ++
        dots pattern).flatMap
        fun name => expandFrom disk rest (p.child name)
    else []

/-- The files and folders that a pattern for absolute paths stands for. -/
def expand (disk : Disk) (pattern : String) : List Path :=
  match segments? pattern with
  | some segments => expandFrom disk segments ⟨"/"⟩
  | none => []

end TypeOnly.Glob
