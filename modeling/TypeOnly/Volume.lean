import TypeOnly.FileSystem

/-!
A tree with links and permissions, kept by a system that can refuse every request.
-/

namespace TypeOnly

set_option autoImplicit false

/-- What is at a place of a volume. -/
inductive Node where
  | file (content : ByteArray) (mode : Nat)
  | folder
  | link (target : Path)

/-- What is at a place of a disk, with no permissions. -/
def Node.ofEntry : Entry → Node
  | .file content => .file content 0
  | .folder => .folder

inductive Volume.Request where
  | read
  | create
  | write
  | sync
  | inspect
  | setMode
  | rename
  | remove
deriving DecidableEq, Repr

/-- A tree with links and permissions. The top folder is always there. -/
structure Volume where
  nodes : List (Location × Node)
  /-- The permissions of a file that was just made. -/
  newMode : Nat
  /-- Why a request for a place is refused, if it is. -/
  refusal : Volume.Request → Location → Option Obstacle
  /-- How many bytes of a file are written before the rest is refused. -/
  room : Location → Nat

namespace Volume

def get? (v : Volume) : Location → Option Node
  | [] => some .folder
  | loc => v.nodes.lookup loc

def isFolderAt (v : Volume) (loc : Location) : Bool :=
  match v.get? loc with
  | some .folder => true
  | _ => false

def modeAt? (v : Volume) (loc : Location) : Option Nat :=
  match v.get? loc with
  | some (.file _ mode) => some mode
  | _ => none

def put (v : Volume) (loc : Location) (e : Node) : Volume :=
  { v with nodes := Location.put v.nodes loc e }

def unlink (v : Volume) (loc : Location) : Volume :=
  { v with nodes := Location.unlink v.nodes loc }

def move (v : Volume) (source target : Location) : Volume :=
  match v.get? source with
  | some e => (v.unlink source).put target e
  | none => v

/-! ### Paths -/

/-- The most links on one way. -/
def maxLinks : Nat := 40

/-- Where the target of a link is seen from, if the link is in this folder. -/
def linkStart (loc : Location) (target : Path) : Location :=
  if target.isAbsolute then [] else loc

/-- Follows the stretches of a path from a place, up to the first link. -/
def walkBy (v : Volume) (follow : Location → List String → Except Obstacle Location) :
    Location → List String → Except Obstacle Location
  | loc, [] => .ok loc
  | loc, s :: rest =>
    if !v.isFolderAt loc then .error .notFolder
    else if s = "" || s = "." then walkBy v follow loc rest
    else if s = ".." then walkBy v follow loc.dropLast rest
    else if s.utf8ByteSize > Disk.maxName then .error .tooLong
    else
      match v.get? (loc ++ [s]) with
      | none => .error .missing
      | some (.link target) => follow (linkStart loc target) (target.segments ++ rest)
      | some _ => walkBy v follow (loc ++ [s]) rest

/-- Follows the stretches of a path from a place, over so many links at most. -/
def walk (v : Volume) : Nat → Location → List String → Except Obstacle Location
  | 0 => v.walkBy fun _ _ => .error .linkLoop
  | links + 1 => v.walkBy (v.walk links)

def find (v : Volume) (p : Path) : Except Obstacle Location :=
  if p.text.utf8ByteSize > Disk.maxPath then .error .tooLong
  else if p.isAbsolute then v.walk maxLinks [] p.segments
  else .error .missing

def contentAt (v : Volume) (loc : Location) : Except Obstacle ByteArray :=
  match v.refusal .read loc, v.get? loc with
  | some o, _ => .error o
  | none, some (.file bytes _) => .ok bytes
  | none, some .folder => .error .isFolder
  | none, _ => .error .missing

def read (v : Volume) (p : Path) : Except DiskError String :=
  match v.find p >>= v.contentAt with
  | .error .missing => .error (.notFound p)
  | .error o => .error (.blocked p o)
  | .ok bytes =>
    match String.fromUTF8? bytes with
    | some text => .ok text
    | none => .error (.notText p)

def mode? (v : Volume) (p : Path) : Option Nat :=
  match v.find p with
  | .error _ => none
  | .ok loc => if (v.refusal .inspect loc).isSome then none else v.modeAt? loc

/-! ### Replacing a file -/

/-- The stretches of the paths that links hold. -/
def linkSegments (v : Volume) : List String :=
  v.nodes.flatMap fun x =>
    match x.2 with
    | .link target => target.segments
    | _ => []

/-- A name for the draft of a file that is new to its folder, to the path and to all links. -/
def newDraft (v : Volume) (folder : Location) (p : Path) : String :=
  Draft.freeName p (v.nodes.length + p.segments.length + v.linkSegments.length) fun name =>
    (v.get? (folder ++ [name])).isSome || p.segments.contains name || v.linkSegments.contains name

def draftFolder (v : Volume) (p : Path) : Except Obstacle Location :=
  Draft.folder v.find v.isFolderAt p

/-- The last name of a path is not followed when it is a link. -/
def target (v : Volume) (p : Path) : Except Obstacle Location :=
  Draft.target (v.walk maxLinks []) v.isFolderAt p

/-- Does what is asked for, unless it is refused. -/
def request {α : Type} (r : Request) (loc : Location) (act : Volume → α × Volume) :
    EStateM Obstacle Volume α := fun v =>
  match v.refusal r loc with
  | some o => .error o v
  | none => .ok (act v).1 (act v).2

/-- The file at a place with other bytes. -/
def store (v : Volume) (loc : Location) (bytes : ByteArray) : Volume :=
  v.put loc (.file bytes ((v.modeAt? loc).getD v.newMode))

/-- The file at a place with other permissions. -/
def permit (v : Volume) (loc : Location) (mode : Nat) : Volume :=
  match v.get? loc with
  | some (.file bytes _) => v.put loc (.file bytes mode)
  | _ => v

instance : FileSystem Volume where
  read := Volume.read
  create p v :=
    match v.draftFolder p with
    | .error o => .error o v
    | .ok folder =>
      let draft := folder ++ [v.newDraft folder p]
      request .create draft (fun v => (draft, v.put draft (.file .empty v.newMode))) v
  write draft bytes v :=
    match v.refusal .write draft with
    | some o => .error o (v.store draft (bytes.extract 0 (v.room draft)))
    | none => .ok () (v.store draft bytes)
  sync draft := request .sync draft fun v => ((), v)
  mode? := Volume.mode?
  setMode draft mode := request .setMode draft fun v => ((), v.permit draft mode)
  rename draft p v :=
    match v.target p with
    | .error o => .error o v
    | .ok loc => request .rename draft (fun v => ((), v.move draft loc)) v
  remove draft := request .remove draft fun v => ((), v.unlink draft)

/-- A disk as a volume, without links. Nothing is refused but to tell its permissions. -/
def ofDisk (d : Disk) : Volume where
  nodes := d.entries.map fun x => (x.1, .ofEntry x.2)
  newMode := 0
  refusal r _ := if r = .inspect then some .denied else none
  room _ := 0

end Volume

end TypeOnly
