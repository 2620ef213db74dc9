import TypeOnly.Config.Roots
import TypeOnly.Report

/-!
From the path of a configuration file to options and files.
-/

namespace TypeOnly

set_option autoImplicit false

/-- A project: its options, and the files to compile. -/
structure Config where
  path : Path
  options : Options
  roots : List Path
deriving Repr

namespace Config

def faultText (cwd path : Path) (e : Json.ReadError) : String :=
  let column := max e.column 1
  let name := (path.wayFrom cwd).text
  s!"{name}({e.line},{column}): error TS1005: {e.shortMessage}\n"

/-- What a configuration file comes to, and what is wrong with it. -/
def fromValue (disk : Disk) (path : Path) (value : Json) : Config × List Problem :=
  let (layer, problems) := (layerOf disk (extendsBound disk) [path] path value).run []
  let roots := selectedFiles disk layer path.parent
  (⟨path, layer.options, roots⟩,
    if roots.isEmpty then problems ++ [emptyProblem layer path] else problems)

def resolve (disk : Disk) (cwd path : Path) : Except RunError Config := do
  let path := cwd.locate path
  if !disk.isFile path then throw (.configNotFound path)
  let text ← (disk.read path).mapError RunError.file
  let value ← (Json.readCommented text).mapError fun e => .configInvalid (faultText cwd path e)
  match fromValue disk path value with
  | (config, []) => return config
  | (_, problems) =>
    throw (.configInvalid (Diagnostic.renderAll cwd (problems.map Diagnostic.global)))

end Config

end TypeOnly
