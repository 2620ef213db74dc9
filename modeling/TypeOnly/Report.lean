import TypeOnly.Edit
import TypeOnly.FileSystem
import TypeOnly.Json.Value

/-!
Carrying insertions out on the disk, and reporting them.
-/

namespace TypeOnly

set_option autoImplicit false

/-- Why a run ends early. -/
inductive RunError where
  | configNotFound (path : Path)
  /-- With what is wrong, a line each. -/
  | configInvalid (diagnostics : String)
  | file (error : DiskError)
  | edit (error : SpliceError)
  /-- A file is not what it was when it was checked. -/
  | stale (path : Path)
deriving DecidableEq, Repr

namespace RunError

def message : RunError → String
  | configNotFound p => s!"tsconfig not found: {p.text}"
  | configInvalid ds => ds
  | file e => e.message
  | edit e => e.message
  | stale p => s!"{p.text} changed on disk since it was checked; rerun to pick up the new content"

end RunError

/-- How a report is written. -/
structure ReportStyle where
  /-- The folder that paths are seen from. -/
  cwd : Path
  color : Bool
  json : Bool

/-- One insertion, as reported. -/
structure Mark where
  name : String
  repair : Repair
  offset : Nat
deriving DecidableEq, Repr

/-- What became of one file. -/
structure FileReport where
  path : Path
  names : List String
  marks : List Mark
  written : Bool
deriving DecidableEq, Repr

namespace FileReport

def ofSet (s : EditSet) (written : Bool) : FileReport where
  path := s.path
  names := s.names
  marks := s.insertions.zipWith (fun i name => ⟨name, i.repair, i.offset⟩) s.names
  written

/-! ### Reports -/

/-- A text between the codes that color it. -/
def colored (code : Nat) (s : String) : String :=
  let escape := String.singleton (Char.ofNat 27)
  s!"{escape}[{code}m{s}{escape}[0m"

def magenta : Nat := 35
def cyan : Nat := 36

/-- The report on one file: its path, and the names that were marked or would be. -/
def render (style : ReportStyle) (o : FileReport) : String :=
  let paint (code : Nat) (s : String) : String := if style.color then colored code s else s
  let label := if o.written then "Adding type to:" else "Should add type to:"
  let names := ", ".intercalate (o.names.map (paint magenta))
  paint cyan (o.path.wayFrom style.cwd).text ++ s!"\n   {label} {names}\n\n"

def markJson (m : Mark) : Json :=
  .object [("name", .string m.name), ("kind", .string m.repair.text),
    ("offset", .number (.int m.offset))]

def json (cwd : Path) (o : FileReport) : Json :=
  .object [("path", .string (o.path.wayFrom cwd).slashed),
    ("matched_names", .array (o.names.map .string)),
    ("findings", .array (o.marks.map markJson)),
    ("written", .bool o.written)]

/-- The report on all files as one document. -/
def renderJson (cwd : Path) (written : Bool) (os : List FileReport) : String :=
  (Json.object [("dry_run", .bool !written), ("files", .array (os.map (json cwd)))]).pretty 0
    ++ "\n"

end FileReport

/-- Where carrying insertions out has come to: what was reported, and what is on the disk. -/
structure Advance (σ : Type) where
  result : Except RunError (List FileReport)
  output : String
  disk : σ

abbrev Progress := Advance Disk

namespace EditSet

variable {σ : Type} [FileSystem σ]

/-- Puts the patched text in the place of a file, if the file is still what was checked. -/
def write (disk : σ) (s : EditSet) (patched : String) : Except (Setback σ RunError) σ := do
  let current ← (FileSystem.read disk s.path).mapError fun e => ⟨.file e, disk⟩
  if Digest.ofText current ≠ s.digest then throw ⟨.stale s.path, disk⟩
  (FileSystem.replace disk s.path patched).mapError fun e => ⟨.file e.error, e.disk⟩

def carryOut (writing : Bool) (disk : σ) (s : EditSet) : Except (Setback σ RunError) σ := do
  let patched ← s.patched.mapError fun e => ⟨.edit e, disk⟩
  if writing then s.write disk patched else return disk

/-- Deals with one file after the other, up to the first that fails. -/
def carryOutAll (style : ReportStyle) (writing : Bool) :
    List EditSet → List FileReport → String → σ → Advance σ
  | [], done, output, disk => ⟨.ok done, output, disk⟩
  | s :: rest, done, output, disk =>
    match s.carryOut writing disk with
    | .error e => ⟨.error e.error, output, e.disk⟩
    | .ok disk =>
      let outcome := FileReport.ofSet s writing
      let output := if style.json then output else output ++ outcome.render style
      carryOutAll style writing rest (done ++ [outcome]) output disk

/-- Carries insertions out, or only previews them, and reports each file. -/
def applyAll (style : ReportStyle) (writing : Bool) (sets : List EditSet) (disk : σ) :
    Advance σ :=
  let p := carryOutAll style writing sets [] "" disk
  match style.json, p.result with
  | true, .ok outcomes =>
    { p with output := p.output ++ FileReport.renderJson style.cwd writing outcomes }
  | _, _ => p

end EditSet

end TypeOnly
