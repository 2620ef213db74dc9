import TypeOnly.Path

/-!
A tree of files and folders, and what can be done with it: looking a path up, reading a file,
listing a folder, putting something at a place.
-/

namespace TypeOnly

set_option autoImplicit false

inductive Entry where
  | file (content : ByteArray)
  | folder

instance : DecidableEq Entry
  | .file a, .file b =>
    decidable_of_iff (a.data = b.data)
      ⟨fun h => congrArg Entry.file (ByteArray.ext h),
        fun h => congrArg ByteArray.data (Entry.file.inj h)⟩
  | .folder, .folder => isTrue rfl
  | .file _, .folder => isFalse Entry.noConfusion
  | .folder, .file _ => isFalse Entry.noConfusion

/-- The names on the way from the top folder to a file or folder. -/
abbrev Location := List String

namespace Location

variable {α : Type}

/-- Puts something at a place, in a list of what is at which place. -/
def put (entries : List (Location × α)) (loc : Location) (e : α) : List (Location × α) :=
  if (entries.lookup loc).isSome then
    entries.map fun old => if old.1 = loc then (loc, e) else old
  else entries ++ [(loc, e)]

/-- Takes away what is at a place, and nothing below. -/
def unlink (entries : List (Location × α)) (loc : Location) : List (Location × α) :=
  entries.filter fun old => old.1 ≠ loc

end Location

/-- A tree of files and folders, as the list of what it holds. The top folder is always there. -/
structure Disk where
  entries : List (Location × Entry)

/-- Why the system does not do what is asked of it. -/
inductive Obstacle where
  | missing
  | notFolder
  | isFolder
  | tooLong
  | busy
  | linkLoop
  | denied
  | full
  | failed
deriving DecidableEq, Repr

namespace Obstacle

def message : Obstacle → String
  | missing => "No such file or directory (os error 2)"
  | notFolder => "Not a directory (os error 20)"
  | isFolder => "Is a directory (os error 21)"
  | tooLong => "File name too long (os error 36)"
  | busy => "Device or resource busy (os error 16)"
  | linkLoop => "Too many levels of symbolic links (os error 40)"
  | denied => "Permission denied (os error 13)"
  | full => "No space left on device (os error 28)"
  | failed => "Input/output error (os error 5)"

end Obstacle

/-- Why a file could not be read or replaced. -/
inductive DiskError where
  | notFound (path : Path)
  | blocked (path : Path) (obstacle : Obstacle)
  | notText (path : Path)
deriving DecidableEq, Repr

namespace DiskError

def message : DiskError → String
  | notFound p => s!"File not found: {p.text}"
  | blocked p o => s!"I/O error on {p.text}: {o.message}"
  | notText p => s!"Invalid UTF-8 in file: {p.text}"

end DiskError

namespace Disk

def empty : Disk := ⟨[]⟩

def get? (d : Disk) : Location → Option Entry
  | [] => some .folder
  | loc => d.entries.lookup loc

def isFolderAt (d : Disk) (loc : Location) : Bool := d.get? loc == some .folder

def put (d : Disk) (loc : Location) (e : Entry) : Disk := ⟨Location.put d.entries loc e⟩

def unlink (d : Disk) (loc : Location) : Disk := ⟨Location.unlink d.entries loc⟩

def move (d : Disk) (source target : Location) : Disk :=
  match d.get? source with
  | some e => (d.unlink source).put target e
  | none => d

/-- Takes away what is at a place and everything below. -/
def remove (d : Disk) (loc : Location) : Disk :=
  ⟨d.entries.filter fun old => !loc.isPrefixOf old.1⟩

/-- Makes the folders on the way to a place, and the last one there too. -/
def makeFolders (d : Disk) (loc : Location) : Disk :=
  (List.range (loc.length + 1)).foldl
    (fun d n => if (d.get? (loc.take n)).isSome then d else d.put (loc.take n) .folder) d

/-- Puts something at a place and makes the folders on the way. -/
def create (d : Disk) (loc : Location) (e : Entry) : Disk :=
  (d.makeFolders loc.dropLast).put loc e

def namesIn (d : Disk) (loc : Location) : List String :=
  d.entries.filterMap fun (l, _) =>
    if l.dropLast = loc then l.getLast? else none

/-- What is below a folder, at any depth, each by the names on the way from the folder. -/
def below (d : Disk) (loc : Location) : List (List String) :=
  d.entries.filterMap fun (l, _) =>
    if loc.isPrefixOf l && l ≠ loc then some (l.drop loc.length) else none

/-! ### Paths -/

/-- The longest name in a folder and the longest path, in bytes. -/
def maxName : Nat := 255
def maxPath : Nat := 4095

/-- Follows the stretches of a path from a place. -/
def walk (d : Disk) : Location → List String → Except Obstacle Location
  | loc, [] => .ok loc
  | loc, s :: rest =>
    if !d.isFolderAt loc then .error .notFolder
    else if s = "" || s = "." then walk d loc rest
    else if s = ".." then walk d loc.dropLast rest
    else if s.utf8ByteSize > maxName then .error .tooLong
    else if (d.get? (loc ++ [s])).isSome then walk d (loc ++ [s]) rest
    else .error .missing

/-- The place that an absolute path leads to. -/
def find (d : Disk) (p : Path) : Except Obstacle Location :=
  if p.text.utf8ByteSize > maxPath then .error .tooLong
  else if p.isAbsolute then d.walk [] p.segments
  else .error .missing

def entry? (d : Disk) (p : Path) : Option Entry :=
  match d.find p with
  | .ok loc => d.get? loc
  | .error _ => none

def exists? (d : Disk) (p : Path) : Bool := (d.entry? p).isSome

def isFile (d : Disk) (p : Path) : Bool :=
  match d.entry? p with
  | some (.file _) => true
  | _ => false

def isFolder (d : Disk) (p : Path) : Bool := d.entry? p == some .folder

/-- The names in the folder that a path leads to. -/
def list (d : Disk) (p : Path) : List String :=
  match d.find p with
  | .ok loc => if d.isFolderAt loc then d.namesIn loc else []
  | .error _ => []

def readBytes (d : Disk) (p : Path) : Except DiskError ByteArray :=
  match d.find p with
  | .error .missing => .error (.notFound p)
  | .error o => .error (.blocked p o)
  | .ok loc =>
    match d.get? loc with
    | some (.file bytes) => .ok bytes
    | some .folder => .error (.blocked p .isFolder)
    | none => .error (.notFound p)

def read (d : Disk) (p : Path) : Except DiskError String := do
  let bytes ← d.readBytes p
  match String.fromUTF8? bytes with
  | some s => return s
  | none => throw (.notText p)

end Disk

end TypeOnly
