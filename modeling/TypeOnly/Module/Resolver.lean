import TypeOnly.Disk
import TypeOnly.Module.Package
import TypeOnly.Options
import TypeOnly.Source.FileName

/-!
Finding the file that a module specifier names. Relative and absolute specifiers name files and
folders; all others are looked for among the mapped paths, from the base folder, and in the package
folders on the way up.
-/

namespace TypeOnly

set_option autoImplicit false

open Source (typeScriptExtensions moduleExtensions javaScriptExtensions)

/-- What the options say about finding modules. -/
structure Resolver where
  baseUrl : Option Path
  /-- Patterns for specifiers and what they are mapped to, the more specific ones first. -/
  paths : List (String × List String)
  /-- The folder that mapped paths are seen from. -/
  pathsBase : Option Path
  allowJs : Bool
  typeRoots : Option (List Path)
  types : Option (List String)

/-- The descriptions of packages that were looked for, each under its folder. -/
abbrev PackageCache := List (Path × Option Package)

/-- A look for modules, which remembers the packages that it meets. -/
abbrev Search := StateM PackageCache

namespace Resolver

/-- The mapped paths with the more specific ones first. -/
def sortedPaths (paths : List (String × List String)) : List (String × List String) :=
  paths.mergeSort fun a b => Wildcard.weight b.1 ≤ Wildcard.weight a.1

def ofOptions (o : Options) : Resolver where
  baseUrl := (o.string? "baseUrl").map Path.mk
  paths := sortedPaths <| (((o.get? "paths").bind Json.asObject?).getD []).map
    fun (pattern, targets) => (pattern, (Options.textsIn targets).getD [])
  pathsBase := ((o.string? "baseUrl").or (o.string? "pathsBasePath")).map Path.mk
  allowJs := o.allowJs
  typeRoots := (o.strings? "typeRoots").map fun roots => roots.map Path.mk
  types := o.strings? "types"

/-! ### Files -/

/-- Extensions that a specifier can have instead of that of the file. -/
def substitutes : List (String × List String) := [
  (".js", [".ts", ".tsx", ".d.ts"]),
  (".jsx", [".tsx", ".d.ts"]),
  (".mjs", [".mts", ".d.mts"]),
  (".cjs", [".cts", ".d.cts"])]

/-- The files that a path can stand for, in order of preference. -/
def candidates (r : Resolver) (p : Path) : List Path :=
  let substituted := substitutes.flatMap fun (written, real) =>
    match Text.dropEnd? written p.text with
    | some stem => real.map fun e => ⟨stem ++ e⟩
    | none => []
  let known := typeScriptExtensions ++ moduleExtensions ++ javaScriptExtensions
  let itself := if known.any fun e => Text.endsWith e p.text then [p] else []
  let added := typeScriptExtensions ++ if r.allowJs then [".js", ".jsx"] else []
  substituted ++ itself ++ added.map fun e => ⟨p.text ++ e⟩

def loadFile (r : Resolver) (disk : Disk) (p : Path) : Option Path :=
  (r.candidates p).find? disk.isFile

def indexFile (r : Resolver) (disk : Disk) (folder : Path) : Option Path :=
  r.loadFile disk (folder.child "index")

/-! ### Folders -/

def readPackage (disk : Disk) (folder : Path) : Option Package :=
  match disk.read (folder.child "package.json") with
  | .ok text => Package.ofText? text
  | .error _ => none

/-- The description of the package in a folder, read at most once. -/
def packageIn (disk : Disk) (folder : Path) : Search (Option Package) := fun cache =>
  match cache.find? fun (p, _) => p.same folder with
  | some (_, package) => (package, cache)
  | none =>
    let package := readPackage disk folder
    (package, (folder, package) :: cache)

def loadEntry (r : Resolver) (disk : Disk) (folder : Path) (entry : String) : Option Path :=
  let target := folder.child entry
  (r.loadFile disk target).or
    (if disk.isFolder target && !target.same folder then r.indexFile disk target else none)

/-- The file that a folder stands for by the description of its package. -/
def loadMain (r : Resolver) (disk : Disk) (folder : Path) (package : Option Package) :
    Option Path :=
  let entries := match package with
    | some p => [p.types, p.typings, p.main].filterMap id
    | none => []
  (entries.findSome? (r.loadEntry disk folder)).or (r.indexFile disk folder)

def loadFolder (r : Resolver) (disk : Disk) (folder : Path) : Search (Option Path) := do
  if !disk.isFolder folder then return none
  let package ← packageIn disk folder
  return r.loadMain disk folder package

def load (r : Resolver) (disk : Disk) (p : Path) : Search (Option Path) :=
  match r.loadFile disk p with
  | some file => return some file
  | none => r.loadFolder disk p

/-! ### Specifiers -/

def firstOf {α β : Type} (f : α → Search (Option β)) : List α → Search (Option β)
  | [] => return none
  | a :: rest => do
    match ← f a with
    | some b => return some b
    | none => firstOf f rest

def startsWithDots (specifier : String) : Bool :=
  specifier = "." || specifier = ".." || Text.beginsWith "./" specifier
    || Text.beginsWith "../" specifier

/-- The paths that a specifier is mapped to, in order of preference. -/
def mapped (r : Resolver) (specifier : String) : List Path :=
  match r.pathsBase with
  | none => []
  | some base => r.paths.flatMap fun (pattern, targets) =>
    match Wildcard.capture? pattern specifier with
    | some captured => targets.map fun t => base.child (Text.replaceFirst '*' captured t)
    | none => []

/-- The name of a package and the path inside it. A name that begins with `@` has two parts. -/
def splitSpecifier (specifier : String) : String × String :=
  let depth := if Text.beginsWith "@" specifier then 2 else 1
  let parts := Text.fields '/' specifier
  if parts.length ≤ depth then (specifier, ".")
  else ("/".intercalate (parts.take depth), "/".intercalate ("." :: parts.drop depth))

/-- The name under which the types of a package are published. -/
def typesName (package : String) : String :=
  match Text.dropStart? "@" package with
  | some inner => Text.replaceFirst '/' "__" inner
  | none => package

/-- The file for a path inside a package. A package with `exports` offers only what they list. -/
def packageFile (r : Resolver) (disk : Disk) (folder : Path) (subpath : String) :
    Search (Option Path) := do
  match (← packageIn disk folder).bind Package.exports with
  | some exports =>
    return (Package.exposedFiles exports subpath).findSome? fun file =>
      r.loadFile disk (folder.child file)
  | none =>
    match Text.dropStart? "./" subpath with
    | some inside => r.load disk (folder.child inside)
    | none => r.load disk folder

/-- The folders in which a package can be, in order of preference. -/
def packageFolders (disk : Disk) (package : String) (folder : Path) : List Path :=
  (folder.ancestors.map fun dir => dir.child "node_modules").flatMap fun modules =>
    if disk.isFolder modules then
      [modules.child package, (modules.child "@types").child (typesName package)]
    else []

/-- The file for a specifier that is not a path. -/
def loadNamed (r : Resolver) (disk : Disk) (specifier : String) (folder : Path) :
    Search (Option Path) := do
  match ← firstOf (r.load disk) (r.mapped specifier) with
  | some file => return some file
  | none =>
    match ← firstOf (fun base => r.load disk (base.child specifier)) r.baseUrl.toList with
    | some file => return some file
    | none =>
      let (package, subpath) := splitSpecifier specifier
      firstOf (fun dir => r.packageFile disk dir subpath) (packageFolders disk package folder)

/-- The file that a specifier in another file names. -/
def resolve (r : Resolver) (disk : Disk) (specifier : String) (containing : Path) :
    Search (Option Path) := do
  let folder := containing.parent?.getD ⟨"/"⟩
  let file ←
    if startsWithDots specifier || Path.isAbsolute ⟨specifier⟩ then
      r.load disk (folder.locate ⟨specifier⟩)
    else r.loadNamed disk specifier folder
  return file.map Path.normalize

/-! ### Packages of types -/

/-- The folders whose packages are part of every compilation. -/
def typeFolders (r : Resolver) (folder : Path) : List Path :=
  match r.typeRoots with
  | some roots => roots
  | none => folder.ancestors.map fun dir => (dir.child "node_modules").child "@types"

def typeNames (r : Resolver) (disk : Disk) (root : Path) : List String :=
  match r.types with
  | some names => names.map typesName
  | none =>
    ((disk.list root).filter fun name =>
      disk.isFolder (root.child name) && !Text.beginsWith "." name).mergeSort

/-- The packages of one folder that are not there yet, each with its file. -/
def typesFrom (r : Resolver) (disk : Disk) (root : Path) :
    List String → List (String × Path) → Search (List (String × Path))
  | [], taken => return taken
  | name :: rest, taken => do
    if (taken.lookup name).isSome then typesFrom r disk root rest taken
    else
      match ← r.loadFolder disk (root.child name) with
      | some file => typesFrom r disk root rest (taken ++ [(name, file)])
      | none => typesFrom r disk root rest taken

def typesFromAll (r : Resolver) (disk : Disk) :
    List Path → List (String × Path) → Search (List (String × Path))
  | [], taken => return taken
  | root :: rest, taken => do
    if disk.isFolder root then
      let taken ← r.typesFrom disk root (r.typeNames disk root) taken
      typesFromAll r disk rest taken
    else typesFromAll r disk rest taken

/-- The files of the packages that are part of every compilation. A package is taken from the first
folder in which it has a file. -/
def automaticTypes (r : Resolver) (disk : Disk) (folder : Path) : Search (List Path) := do
  let taken ← r.typesFromAll disk (r.typeFolders folder) []
  return taken.map fun (_, file) => file.normalize

end Resolver

end TypeOnly
