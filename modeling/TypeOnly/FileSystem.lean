import TypeOnly.Disk

/-!
Replacing a file. The text is written to a draft next to the file, and the draft is then moved to
where the file is. Every step is a request to the file system and can be refused; if one is, the
draft is taken away again.
-/

namespace TypeOnly

set_option autoImplicit false

/-- A failure, and the file system that it leaves behind. -/
structure Setback (σ ε : Type) where
  error : ε
  disk : σ

/-- What is asked of a file system. A request that is refused can leave something behind. -/
class FileSystem (σ : Type) where
  /-- The text of a file. -/
  read : σ → Path → Except DiskError String
  /-- Makes an empty file next to another one, with a name that is new. -/
  create : Path → EStateM Obstacle σ Location
  write : Location → ByteArray → EStateM Obstacle σ Unit
  /-- Waits until a file is stored. -/
  sync : Location → EStateM Obstacle σ Unit
  /-- The permissions of what a path leads to, if they can be told. -/
  mode? : σ → Path → Option Nat
  setMode : Location → Nat → EStateM Obstacle σ Unit
  /-- Moves a file to where a path leads, over what is there. -/
  rename : Location → Path → EStateM Obstacle σ Unit
  remove : Location → EStateM Obstacle σ Unit

namespace FileSystem

variable {σ : Type} [FileSystem σ]

/-- Writes a draft and moves it to where the file is, with the permissions of the file. -/
def finish (draft : Location) (p : Path) (text : String) : EStateM Obstacle σ Unit := do
  write draft text.toUTF8
  sync draft
  match mode? (← get) p with
  | some mode => setMode draft mode
  | none => pure ()
  rename draft p

/-- Puts a text in the place of a file, by way of a draft. A draft that cannot be finished is taken
away, unless that is refused as well. -/
def replace (disk : σ) (p : Path) (text : String) : Except (Setback σ DiskError) σ :=
  match create p disk with
  | .error o disk => .error ⟨.blocked p o, disk⟩
  | .ok draft disk =>
    match finish draft p text disk with
    | .ok _ disk => .ok disk
    | .error o disk =>
      match remove draft disk with
      | .ok _ disk | .error _ disk => .error ⟨.blocked p o, disk⟩

end FileSystem

/-! ### Drafts -/

namespace Draft

def digits : Nat := 32

/-- How much longer than the name of a file is the name of its draft. -/
def extra : Nat := digits + 6

def name (file : String) (number : Nat) : String :=
  let written := Nat.toDigits 10 number
  let padded := List.replicate (digits - written.length) '0' ++ written
  "." ++ file ++ "." ++ String.ofList padded ++ ".tmp"

/-- A name for the draft of a file that is not taken, if no more names are than the bound says. -/
def freeName (p : Path) (bound : Nat) (taken : String → Bool) : String :=
  (((List.range (bound + 1)).map (name (p.fileName?.getD ""))).find? fun s => !taken s).getD ""

/-- The folder that the draft of a file goes to, next to the file itself. -/
def folder (find : Path → Except Obstacle Location) (isFolderAt : Location → Bool) (p : Path) :
    Except Obstacle Location := do
  let size := (p.fileName?.getD "").utf8ByteSize + extra
  if (p.parent.child "").text.utf8ByteSize + size > Disk.maxPath then throw .tooLong
  let folder ← find p.parent
  unless isFolderAt folder do throw .notFolder
  if size > Disk.maxName then throw .tooLong
  return folder

/-- The stretches of a path without the empty ones at its end. -/
def written (p : Path) : List String := (p.segments.reverse.dropWhile (· = "")).reverse

/-- Where a draft is moved to when it is finished: a name, in a folder that must be there. -/
def target (walk : List String → Except Obstacle Location) (isFolderAt : Location → Bool)
    (p : Path) : Except Obstacle Location := do
  if p.text.utf8ByteSize > Disk.maxPath then throw .tooLong
  let folder ← walk (written p).dropLast
  unless isFolderAt folder do throw .notFolder
  let name := (written p).getLast?.getD "."
  if name = "." || name = ".." then throw .busy
  if p.text.toList.getLast? = some '/' then throw .notFolder
  if isFolderAt (folder ++ [name]) then throw .isFolder
  return folder ++ [name]

end Draft

namespace Disk

/-- A name for the draft of a file that is new to its folder and to the path itself. -/
def newDraft (d : Disk) (folder : Location) (p : Path) : String :=
  Draft.freeName p (d.entries.length + p.segments.length) fun name =>
    (d.get? (folder ++ [name])).isSome || p.segments.contains name

def draftFolder (d : Disk) (p : Path) : Except Obstacle Location :=
  Draft.folder d.find d.isFolderAt p

def target (d : Disk) (p : Path) : Except Obstacle Location :=
  Draft.target (d.walk []) d.isFolderAt p

/-- A disk does what the tree allows. It has no permissions. -/
instance : FileSystem Disk where
  read := Disk.read
  create p d :=
    match d.draftFolder p with
    | .error o => .error o d
    | .ok folder =>
      let draft := folder ++ [d.newDraft folder p]
      .ok draft (d.put draft (.file .empty))
  write draft bytes d := .ok () (d.put draft (.file bytes))
  sync _ := pure ()
  mode? _ _ := none
  setMode _ _ := pure ()
  rename draft p d :=
    match d.target p with
    | .ok loc => .ok () (d.move draft loc)
    | .error o => .error o d
  remove draft d := .ok () (d.unlink draft)

abbrev replace (d : Disk) (p : Path) (text : String) : Except (Setback Disk DiskError) Disk :=
  FileSystem.replace d p text

end Disk

end TypeOnly
