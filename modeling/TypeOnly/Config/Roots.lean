import TypeOnly.Config.Layer
import TypeOnly.Glob.Expand
import TypeOnly.Source.FileName

/-!
The files that a configuration selects.
-/

namespace TypeOnly.Config

set_option autoImplicit false

open Glob (Pattern)

/-- Folders of packages, into which no wildcard leads. -/
def packageFolders : List String := ["node_modules", "bower_components", "jspm_packages"]

/-! ### Specifications -/

def isWild (segment : String) : Bool := segment.toList.any fun c => c = '*' || c = '?'

/-- A path up to its first part with a wildcard, and its other parts. -/
def splitWild (p : Path) : Path × List String :=
  let isPlain (part : Part) : Bool := !isWild part.text
  (.ofParts (p.parts.takeWhile isPlain), (p.parts.dropWhile isPlain).map Part.text)

/-- A spec as a plain path and the wildcards below it. -/
def splitSpec (base : Path) (spec : String) : Path × List String := splitWild (base.locate ⟨spec⟩)

/-- A spec of files to include: what names neither a file nor ends in a wildcard is a folder, and
stands for all that is in it. -/
def splitInclude (base : Path) (spec : String) (extensions : List String) : Path × List String :=
  let (plain, wild) := splitSpec base spec
  let namesFiles := match wild.getLast? with
    | some last => isWild last
    | none => Source.endsInOneOf plain extensions
  (plain, if namesFiles then wild else wild ++ ["**", "*"])

/-- The pattern for a plain path and wildcards below it. -/
def patternText (plain : Path) (wild : List String) : String :=
  wild.foldl (fun p segment => p ++ "/" ++ segment) (Pattern.escape plain.slashed)

def excludePattern? (base : Path) (spec : String) : Option Pattern :=
  let (plain, wild) := splitSpec base spec
  Pattern.parse? (patternText plain wild)

/-! ### Selection -/

/-- Whether a file, or a folder that it is in, is excluded. -/
def isLeftOut (excluded : List Pattern) (p : Path) : Bool :=
  p.ancestors.any fun a => excluded.any fun pattern => pattern.holds a.text

/-- Whether the way from a folder to a file leads into packages. -/
def inPackages (plain p : Path) : Bool :=
  (p.below? plain).any fun parts => parts.any fun part => packageFolders.contains part.text

def filesOfSpec (disk : Disk) (base : Path) (extensions : List String) (excluded : List Pattern)
    (spec : String) : List Path :=
  let (plain, wild) := splitInclude base spec extensions
  if wild.isEmpty then
    if disk.isFile plain && !isLeftOut excluded plain then [plain] else []
  else
    ((Glob.expand disk (patternText plain wild)).filter fun p =>
      disk.isFile p && Source.endsInOneOf p extensions && !inPackages plain p
        && !isLeftOut excluded p).mergeSort Path.le

/-- Extensions of files with the same content, the ones that are taken first. -/
def families : List (List String) := [
  [".ts", ".tsx", ".d.ts", ".js", ".jsx"],
  [".mts", ".d.mts", ".mjs"],
  [".cts", ".d.cts", ".cjs"]]

/-- What makes files variants of each other, and the rank of a file among them. -/
structure Variant where
  folder : List Part
  stem : String
  family : List String
  rank : Nat

namespace Variant

def ofPath? (p : Path) : Option Variant := do
  let name ← p.fileName?
  let stem := Source.stem name
  let extension ← Text.dropStart? stem name
  let family ← families.find? fun f => f.contains extension
  return ⟨p.parent.parts, stem, family, family.idxOf extension⟩

abbrev Group := List Part × String × List String

def group (v : Variant) : Group := (v.folder, v.stem, v.family)

end Variant

def noteRank (v : Variant) : List (Variant.Group × Nat) → List (Variant.Group × Nat)
  | [] => [(v.group, v.rank)]
  | (g, best) :: rest =>
    if g = v.group then (g, min best v.rank) :: rest else (g, best) :: noteRank v rest

def bestRanks (files : List Path) : List (Variant.Group × Nat) :=
  (files.filterMap Variant.ofPath?).foldl (fun best v => noteRank v best) []

/-- The files of which there is no better variant: those whose rank is the best of their group. -/
def preferred (files : List Path) : List Path :=
  let best := bestRanks files
  files.filter fun f =>
    match Variant.ofPath? f with
    | some v => best.lookup v.group == some v.rank
    | none => true

/-- Paths without those that say the same as an earlier one. -/
def distinctPaths : List Path → List Path → List Path
  | [], kept => kept
  | p :: rest, kept => distinctPaths rest (if kept.any p.same then kept else kept ++ [p])

/-- What is included: all files of the folder, if the configuration names none. -/
def included (layer : Layer) (folder : Path) : Option SpecList :=
  match layer.included, layer.files with
  | some specs, _ => some specs
  | none, none => some ⟨["**/*"], folder⟩
  | none, some _ => none

/-- What is excluded: packages and what the compiler writes, if the configuration does not say. -/
def excluded (layer : Layer) (folder : Path) : SpecList :=
  layer.excluded.getD
    ⟨packageFolders ++ ["outDir", "declarationDir"].filterMap layer.options.string?, folder⟩

def selectedFiles (disk : Disk) (layer : Layer) (folder : Path) : List Path :=
  let extensions := Source.sourceExtensions layer.options.allowJs
  let listed := match layer.files with
    | some specs => specs.patterns.map fun f => specs.base.locate ⟨f⟩
    | none => []
  let out := excluded layer folder
  let patterns := out.patterns.filterMap (excludePattern? out.base)
  let found := match included layer folder with
    | some specs => specs.patterns.flatMap (filesOfSpec disk specs.base extensions patterns)
    | none => []
  distinctPaths (listed ++ preferred found) []

def listText (texts : List String) : String := (Json.array (texts.map .string)).compact

def emptyProblem (layer : Layer) (config : Path) : Problem :=
  let noInputs := Problem.noInputs config.text
    (listText ((included layer config.parent).elim [] SpecList.patterns))
    (listText (excluded layer config.parent).patterns)
  match layer.files, layer.included with
  | some files, none => if files.patterns.isEmpty then .emptyFileList config.text else noInputs
  | _, _ => noInputs

end TypeOnly.Config
