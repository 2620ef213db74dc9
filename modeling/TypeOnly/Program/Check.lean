import TypeOnly.Program.Lookup

/-!
What is wrong with the files of a compilation.
-/

namespace TypeOnly.Program

set_option autoImplicit false

open Source (Import Export Imported)

/-- The problem with a name that a module does not export. -/
def absentExport (source : String) : Imported → Problem
  | .default => .noDefaultExport source
  | .named name => .memberNotFound source name
  | .whole => .memberNotFound source "*"

/-- The name that a message gives an import. -/
def importedName (b : Import) : String :=
  match b.imported with
  | .named name => name
  | _ => b.name

def importProblem? (p : Program) (verbatim : Bool) (m : ModuleView) (b : Import) :
    Option Problem :=
  match b.imported with
  | .whole => none
  | _ =>
    match ((p.followImport p.exported m b).run []).1 with
    | .absent => some (absentExport b.source b.imported)
    | .found t =>
      if !verbatim || b.typeOnly then none
      else if !t.meaning.value then some (.typeImported (importedName b))
      else if t.typeOnly then some (.typeAliasImported (importedName b))
      else none
    | .unknown => none

/-- The problem with exporting what a name was found to stand for. -/
def reExportProblem? (verbatim : Bool) (e : Export) (name : String) (t : Referent) :
    Option Problem :=
  if !verbatim || e.typeOnly then none
  else if !t.meaning.value then some .typeReExported
  else if t.typeOnly then some (.typeAliasReExported name)
  else none

def exportProblem? (p : Program) (verbatim : Bool) (m : ModuleView) (e : Export) :
    Option Problem :=
  match e.target with
  | .local_ name =>
    match ((p.followLocal p.exported m name).run []).1 with
    | .absent => some (.nameNotFound name)
    | .found t => reExportProblem? verbatim e name t
    | .unknown => none
  | .remote source name =>
    match ((p.followRemote p.exported m source name).run []).1 with
    | .absent =>
      some (absentExport source (if name = "default" then .default else .named name))
    | .found t => reExportProblem? verbatim e name t
    | .unknown => none
  | .declared _ | .whole _ => none

/-- What is wrong with what a file imports and exports. -/
def scopeDiagnostics (p : Program) (verbatim : Bool) (f : ProgramMember) : List Diagnostic :=
  let m := ModuleView.ofFile f
  match m.scope with
  | none => []
  | some scope =>
    let requests := scope.requests.filterMap fun r =>
      if (p.moduleFor? m r.text).isSome then none
      else some (Diagnostic.inFile (.moduleNotFound r.text) f.source r.span)
    let imports := scope.imports.filterMap fun b =>
      (p.importProblem? verbatim m b).map fun problem => .inFile problem f.source b.span
    let exports := scope.exports.filterMap fun e => do
      let span ← e.span
      let problem ← p.exportProblem? verbatim m e
      return .inFile problem f.source span
    requests ++ imports ++ exports

def fileDiagnostics (p : Program) (verbatim : Bool) (f : ProgramMember) : List Diagnostic :=
  f.parsed.issues.map (fun i => .inFile (.badText i.message) f.source i.span)
    ++ if f.isOwnSource then p.scopeDiagnostics verbatim f else []

/-- All that is wrong with a program, in order. -/
def check (p : Program) (options : Options) : List Diagnostic :=
  Diagnostic.arrange <|
    p.absentRoots.map (fun path => .global (.fileNotFound path.slashed))
      ++ p.files.flatMap (p.fileDiagnostics options.verbatim)

end TypeOnly.Program
