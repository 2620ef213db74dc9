import TypeOnly.Config.Resolve
import TypeOnly.Program.Check

/-!
One run from the configuration of a project to its patched files.
-/

namespace TypeOnly

set_option autoImplicit false

namespace Config

/-- The files of a compilation, with those of the packages of types that are part of it. -/
def allRoots (disk : Disk) (c : Config) : List Path :=
  let folder := c.path.parent?.getD ⟨"/"⟩
  c.roots ++ (((Resolver.ofOptions c.options.forced).automaticTypes disk folder).run []).1

/-- All that is wrong with a project when imports and exports stay as they are written. -/
def compile (disk : Disk) (c : Config) : Except RunError (List Diagnostic) := do
  let program ← (Program.load disk (c.allRoots disk) c.options.forced).mapError RunError.file
  return program.check c.options.forced

end Config

/-- The insertions that a project needs. -/
def planEdits (disk : Disk) (cwd config : Path) : Except RunError (List EditSet) := do
  let c ← Config.resolve disk cwd config
  let diagnostics ← c.compile disk
  return EditSet.ofDiagnostics (fixable diagnostics)

/-- Patches the files of a project, or only previews it, and reports each file. -/
def fixProject (disk : Disk) (style : ReportStyle) (writing : Bool) (config : Path) : Progress :=
  match planEdits disk style.cwd config with
  | .ok sets => EditSet.applyAll style writing sets disk
  | .error e => ⟨.error e, "", disk⟩

end TypeOnly
