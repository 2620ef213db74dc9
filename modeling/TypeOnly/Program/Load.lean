import TypeOnly.Diagnostic
import TypeOnly.Module.Resolver
import TypeOnly.Source.Outline

/-!
The files of one compilation: the root files, and every file that one of them asks for.
-/

namespace TypeOnly

set_option autoImplicit false

open Source (Kind SourceModule Outline NamedModule Specifier)

/-- A file that was read and parsed, and where its module specifiers lead. -/
structure ProgramMember where
  source : SourceFile
  kind : Kind
  parsed : SourceModule
  /-- The file for each specifier, if there is one. -/
  links : Dictionary (Option Path)

namespace ProgramMember

def path (f : ProgramMember) : Path := f.source.path

def outline (f : ProgramMember) : Option Outline := f.parsed.outline

def link? (f : ProgramMember) (specifier : String) : Option Path :=
  (f.links.get? specifier).join

/-- Whether the file is checked for more than its grammar: library code is not, and neither is
JavaScript. -/
def isOwnSource (f : ProgramMember) : Bool :=
  !(f.kind.isDeclaration || f.kind.isJavaScript || f.path.parts.contains (.name "node_modules"))

end ProgramMember

/-- The files of one compilation, in the order in which they were loaded. -/
structure Program where
  files : List ProgramMember
  /-- The root files that are not there. -/
  absentRoots : List Path

namespace Program

def file? (p : Program) (path : Path) : Option ProgramMember :=
  p.files.find? fun f => f.path.same path

/-! ### Loading -/

structure Request where
  path : Path
  isRoot : Bool

/-- A file that was found and read. -/
structure Loaded where
  path : Path
  kind : Kind
  text : String

/-- Passes over what need not or cannot be loaded, up to the first file that can: gives that file,
what is left after it, and the root files that are missing. -/
def nextFile (disk : Disk) (loaded : List ProgramMember) :
    List Request → List Path → Except DiskError (Option (Loaded × List Request) × List Path)
  | [], missing => .ok (none, missing)
  | r :: rest, missing =>
    if loaded.any fun f => f.path.same r.path then nextFile disk loaded rest missing
    else
      match Source.kindOf? r.path with
      | none => nextFile disk loaded rest missing
      | some kind =>
        match disk.read r.path with
        | .ok text => .ok (some (⟨r.path, kind, text⟩, rest), missing)
        | .error (.notFound p) =>
          nextFile disk loaded rest (if r.isRoot then missing ++ [p] else missing)
        | .error e => .error e

/-- Finds the files for specifiers, each one once. -/
def resolveAll (r : Resolver) (disk : Disk) (path : Path) :
    List Specifier → List (String × Option Path) → Search (List (String × Option Path))
  | [], found => return found
  | s :: rest, found => do
    if (found.lookup s.text).isSome then resolveAll r disk path rest found
    else
      let target ← r.resolve disk s.text path
      resolveAll r disk path rest (found ++ [(s.text, target)])

/-- Loads file after file, with at most so many of them. -/
def loadFrom (r : Resolver) (disk : Disk) :
    Nat → List Request → Program → PackageCache → Except DiskError Program
  | 0, _, p, _ => .ok p
  | steps + 1, queue, p, cache =>
    match nextFile disk p.files queue p.absentRoots with
    | .error e => .error e
    | .ok (none, missing) => .ok { p with absentRoots := missing }
    | .ok (some (l, rest), missing) =>
      let parsed := Source.readSource l.text l.kind
      let requests := match parsed.outline with
        | some s => s.requests
        | none => []
      let (found, cache) := (resolveAll r disk l.path requests []).run cache
      let file : ProgramMember := ⟨⟨l.path, l.text⟩, l.kind, parsed, Dictionary.ofList found⟩
      let asked := found.filterMap fun (_, target) => target.map fun t => ⟨t, false⟩
      loadFrom r disk steps (rest ++ asked) ⟨p.files ++ [file], missing⟩ cache

/-- Loads the root files and all that they ask for. A file has at most two paths in normal form, so
that there are never more files to load than there are steps. -/
def load (disk : Disk) (roots : List Path) (options : Options) : Except DiskError Program :=
  loadFrom (Resolver.ofOptions options) disk (2 * disk.entries.length + 1)
    (roots.map fun root => ⟨root.normalize, true⟩) ⟨[], []⟩ []

/-! ### Ambient modules -/

def namedModules (p : Program) : List (ProgramMember × NamedModule) :=
  p.files.flatMap fun f =>
    match f.outline with
    | some s => s.namedModules.map fun m => (f, m)
    | none => []

/-- Whether a pattern goes before another one: it is more specific, or as specific and smaller. -/
def goesBefore (a b : String) : Bool :=
  Wildcard.weight b < Wildcard.weight a || (Wildcard.weight a = Wildcard.weight b && a < b)

/-- The better of two declared modules, the first one if there is no difference. -/
def betterModule (best m : ProgramMember × NamedModule) : ProgramMember × NamedModule :=
  if goesBefore m.2.name best.2.name then m else best

/-- The declared module for a specifier: the first one of that very name, or the first one of the
most specific pattern for it. -/
def namedModule? (p : Program) (specifier : String) : Option (ProgramMember × NamedModule) :=
  match p.namedModules.find? fun m => m.2.name = specifier with
  | some m => some m
  | none =>
    match p.namedModules.filter fun m =>
        Wildcard.hasStar m.2.name && (Wildcard.capture? m.2.name specifier).isSome with
    | [] => none
    | first :: rest => some (rest.foldl betterModule first)

end Program

end TypeOnly
