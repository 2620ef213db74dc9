import TypeOnly.Program.Load

/-!
Following a name through imports and exports to what it finally stands for.
-/

namespace TypeOnly

set_option autoImplicit false

open Source (Meaning Scope Import Export ExportOrigin Forward ExportAssignment)

/-- What a name was found to stand for. -/
structure Referent where
  meaning : Meaning
  /-- It was passed on only as a type somewhere on the way. -/
  typeOnly : Bool
deriving DecidableEq, Repr

/-- The answer to what a name stands for. -/
inductive Answer where
  | found (target : Referent)
  /-- The module is known and has no such name. -/
  | absent
  /-- The way ended where nothing is known. -/
  | unknown
deriving DecidableEq, Repr

namespace Referent

def of (meaning : Meaning) : Referent := ⟨meaning, false⟩

/-- What two exports of one name make it together. -/
def merge (a b : Referent) : Referent := ⟨a.meaning.union b.meaning, a.typeOnly && b.typeOnly⟩

end Referent

namespace Answer

/-- An answer that is passed on, perhaps only as a type. -/
def through (typeOnly : Bool) : Answer → Answer
  | found t => found ⟨t.meaning, t.typeOnly || typeOnly⟩
  | other => other

/-- The answer of several exports of one name: all that was found, else whether something is not
known. -/
def merge : Answer → Answer → Answer
  | found a, found b => found (a.merge b)
  | found a, _ => found a
  | _, found b => found b
  | unknown, _ => unknown
  | _, unknown => unknown
  | absent, absent => absent

end Answer

/-- A module in which names are looked up: a file, or a module that it declares by name. -/
structure ModuleView where
  file : ProgramMember
  /-- `none` if nothing is known of what is in it. -/
  scope : Option Scope
  ambient : Option String

namespace ModuleView

def ofFile (f : ProgramMember) : ModuleView := ⟨f, f.outline.map fun s => s.toScope, none⟩

end ModuleView

structure Query where
  file : List Part
  ambient : String
  name : String
deriving DecidableEq

namespace ModuleView

def query (m : ModuleView) (name : String) : Query := ⟨m.file.path.parts, m.ambient.getD "", name⟩

end ModuleView

/-- A lookup, which remembers what was asked for. -/
abbrev Following := StateM (List Query)

namespace Program

/-- The module that a specifier in another module names: a file, or else a module declared by
name. -/
def moduleFor? (p : Program) (from_ : ModuleView) (specifier : String) : Option ModuleView :=
  match (from_.file.link? specifier).bind p.file? with
  | some f => some (.ofFile f)
  | none => (p.namedModule? specifier).map fun (f, m) => ⟨f, m.body, some m.name⟩

abbrev ExportLookup := ModuleView → String → Following Answer

def followImport (p : Program) (exported : ExportLookup) (m : ModuleView) (b : Import) :
    Following Answer := do
  match p.moduleFor? m b.source with
  | none => return .unknown
  | some target =>
    let answer ← match b.imported with
      | .named name => exported target name
      | .default => exported target "default"
      | .whole => pure (.found (.of .both))
    return answer.through b.typeOnly

/-- What a name stands for inside a module. -/
def followLocal (p : Program) (exported : ExportLookup) (m : ModuleView) (name : String) :
    Following Answer :=
  match m.scope with
  | none => return .unknown
  | some scope =>
    match scope.declarations.get? name with
    | some meaning => return .found (.of meaning)
    | none =>
      match scope.imports.find? fun b => b.name = name with
      | some b => p.followImport exported m b
      | none => return .absent

def followRemote (p : Program) (exported : ExportLookup) (m : ModuleView) (source name : String) :
    Following Answer :=
  match p.moduleFor? m source with
  | some target => exported target name
  | none => return .unknown

def followEntry (p : Program) (exported : ExportLookup) (m : ModuleView) (e : Export) :
    Following Answer := do
  let answer ← match e.target with
    | .declared meaning => pure (.found (.of meaning))
    | .local_ name => p.followLocal exported m name
    | .remote source name => p.followRemote exported m source name
    | .whole source =>
      match p.moduleFor? m source with
      | some _ => pure (.found (.of .both))
      | none => pure .unknown
  return answer.through e.typeOnly

def followEntries (p : Program) (exported : ExportLookup) (m : ModuleView) :
    List Export → Answer → Following Answer
  | [], answer => return answer
  | e :: rest, answer => do
    let next ← p.followEntry exported m e
    followEntries p exported m rest (answer.merge next)

/-- What a name stands for in the first module, of those exported as a whole, that has it. -/
def followStars (p : Program) (exported : ExportLookup) (m : ModuleView) (name : String) :
    List Forward → Answer → Following Answer
  | [], answer => return answer
  | s :: rest, answer => do
    match ← p.followRemote exported m s.source name with
    | .found t => return (Answer.found t).through s.typeOnly
    | .unknown => followStars p exported m name rest .unknown
    | .absent => followStars p exported m name rest answer

/-- What a name of `export =` stands for; only members of a namespace are known. -/
def followAssignment (scope : Scope) (a : ExportAssignment) (name : String) : Answer :=
  match a with
  | .expression => .unknown
  | .name target =>
    if name = "default" then .unknown
    else
      match (scope.namespaces.get? target).bind fun members => members.get? name with
      | some meaning => .found (.of meaning)
      | none => .unknown

/-- What a module exports under a name, with exports of other modules looked up by `exported`. -/
def followScope (p : Program) (exported : ExportLookup) (m : ModuleView) (scope : Scope)
    (name : String) : Following Answer := do
  match scope.assignment with
  | some a => return followAssignment scope a name
  | none =>
    match ← p.followEntries exported m (scope.exports.filter fun e => e.name = name) .absent with
    | .absent =>
      let stars := if name = "default" then [] else scope.forwards
      match ← p.followStars exported m name stars .absent with
      | .absent => return if m.file.kind.isJavaScript then .unknown else .absent
      | answer => return answer
    | answer => return answer

/-- What a module exports under a name, unless that was asked for before. -/
def followOnce (p : Program) (exported : ExportLookup) : ExportLookup := fun m name => do
  if (← get).contains (m.query name) then return .absent
  modify (m.query name :: ·)
  match m.scope with
  | none => return .unknown
  | some scope => p.followScope exported m scope name

/-- What a module exports under a name, with so many modules on the way. -/
def followExport (p : Program) : Nat → ExportLookup
  | 0 => fun _ _ => return .absent
  | steps + 1 => p.followOnce (followExport p steps)

/-! ### Bounds -/

def modules (p : Program) : List ModuleView :=
  p.files.map .ofFile ++ p.namedModules.map fun (f, m) => ⟨f, m.body, some m.name⟩

/-- How many names the imports and exports of a module can ask for. -/
def nameCount (m : ModuleView) : Nat :=
  match m.scope with
  | some s => s.imports.length + s.exports.length
  | none => 0

/-- More than there are names of modules that one lookup can ask for. -/
def lookupBound (p : Program) : Nat :=
  p.modules.length * (p.modules.map nameCount).foldr (· + ·) 2 + 1

def exported (p : Program) : ExportLookup := p.followExport p.lookupBound

end Program

end TypeOnly
