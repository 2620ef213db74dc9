import TypeOnly.CommandLine

/-!
The program. It takes a picture of the files around the working folder, does what the arguments ask
for on that picture, and writes the files that have changed.
-/

namespace TypeOnly.Main

set_option autoImplicit false

open CommandLine (execute)

/-- The place of an absolute path. -/
def locationOf (p : Path) : Location :=
  p.normalize.parts.filterMap fun
    | .name s => some s
    | _ => none

def pathText (loc : Location) : String := "/" ++ "/".intercalate loc

/-- How deep folders are followed. -/
def maxFolders : Nat := 64

/-- Adds what is at a place, and all that is below it, to the picture. Links are not followed. -/
def scanFrom : Nat → Location → Disk → IO Disk
  | 0, _, disk => return disk
  | depth + 1, loc, disk => do
    let path := pathText loc
    match ← (IO.FS.realPath path).toBaseIO with
    | .error _ => return disk
    | .ok real =>
      if real.toString ≠ path then return disk
      else if ← real.isDir then
        (← real.readDir).foldlM
          (fun disk entry => scanFrom depth (loc ++ [entry.fileName]) disk) (disk.makeFolders loc)
      else
        let bytes ← IO.FS.readBinFile path
        return disk.create loc (.file bytes)

/-- The places that a run can look at: the working folder, the folder of the configuration, and the
packages on the way up from both. -/
def placesAround (cwd config : Path) : List Location :=
  let folders := [cwd, (cwd.locate config).parent]
  folders.map locationOf ++
    folders.flatMap fun f => f.ancestors.map fun a => locationOf (a.child "node_modules")

def picture (cwd config : Path) : IO Disk :=
  (placesAround cwd config).foldlM
    (fun disk loc => if (disk.get? loc).isSome then pure disk else scanFrom maxFolders loc disk)
    Disk.empty

/-- Writes a file beside its place and moves it there, so that nobody sees half of it. -/
def writeFile (loc : Location) (bytes : ByteArray) : IO Unit := do
  let folder := pathText loc.dropLast
  let name := loc.getLast?.getD ""
  let beside := s!"{folder}/.{name}.tmp"
  IO.FS.writeBinFile beside bytes
  IO.FS.rename beside (pathText loc)

/-- Writes the files that differ between two pictures. -/
def writeChanges (before after : Disk) : IO Unit :=
  for (loc, entry) in after.entries do
    match entry with
    | .file bytes => if before.get? loc ≠ some entry then writeFile loc bytes
    | .folder => pure ()

def configOf (arguments : List String) : String :=
  match CommandLine.parse arguments with
  | .run a => a.config.getD CommandLine.defaultConfig
  | _ => CommandLine.defaultConfig

end TypeOnly.Main

open TypeOnly TypeOnly.Main in
def main (arguments : List String) : IO UInt32 := do
  let cwd : Path := ⟨(← IO.currentDir).toString⟩
  let output ← IO.getStdout
  let errors ← IO.getStderr
  let color := (← IO.getEnv "NO_COLOR").isNone && (← output.isTty)
  let disk ← picture cwd ⟨configOf arguments⟩
  let ending := CommandLine.execute disk cwd color arguments
  writeChanges disk ending.disk
  output.putStr ending.output
  errors.putStr ending.errors
  return UInt32.ofNat ending.code
