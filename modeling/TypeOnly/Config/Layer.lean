import TypeOnly.Diagnostic
import TypeOnly.Json.Comments
import TypeOnly.Options

/-!
Configuration files. A file can extend others; what it says itself goes over what they say.
-/

namespace TypeOnly.Config

set_option autoImplicit false

/-- Texts of a configuration and the folder that they are seen from. -/
structure SpecList where
  patterns : List String
  base : Path
deriving DecidableEq, Repr

/-- What configuration files say, one over the other. -/
structure Layer where
  options : Options
  files : Option SpecList
  included : Option SpecList
  excluded : Option SpecList
deriving Repr

namespace Layer

def empty : Layer := ⟨∅, none, none, none⟩

/-- One layer over another: what the upper one says counts. -/
def above (upper lower : Layer) : Layer where
  options := lower.options.insertAll upper.options.entries
  files := upper.files.or lower.files
  included := upper.included.or lower.included
  excluded := upper.excluded.or lower.excluded

end Layer

/-- A reading that notes problems as it goes. -/
abbrev Noting := StateM (List Problem)

def note (p : Problem) : Noting Unit := modify (· ++ [p])

/-! ### Options -/

def switchOptions : List String :=
  ["allowJs", "checkJs", "skipLibCheck", "verbatimModuleSyntax", "isolatedModules",
    "preserveSymlinks"]

/-- Options that are paths, seen from the folder of their file. -/
def placeOptions : List String :=
  ["baseUrl", "rootDir", "outDir", "declarationDir", "tsBuildInfoFile"]

def placeListOptions : List String := ["rootDirs", "typeRoots"]

/-- The texts of a list; all else in it is noted. -/
def textsOf (name : String) : List Json → Noting (List String)
  | [] => return []
  | .string s :: rest => do
    let texts ← textsOf name rest
    return s :: texts
  | _ :: rest => do
    note (.optionMismatch name "string")
    textsOf name rest

def textList (name : String) : Json → Noting (List String)
  | .array items => textsOf name items
  | _ => do
    note (.optionMismatch name "Array")
    return []

def isPathMap : Json → Bool
  | .object fields => fields.all fun (_, targets) =>
    targets.asArray?.any fun items => items.all fun t => t.asString?.isSome
  | _ => false

/-- A path of an option as seen from everywhere. -/
def located (folder : Path) (s : String) : Json := .string (folder.locate ⟨s⟩).slashed

/-- What one option adds to the options: a value of the wrong type adds nothing. -/
def optionEntries (folder : Path) (name : String) (value : Json) : Noting (List (String × Json)) :=
  if value.isNull then return []
  else if switchOptions.contains name && value.asBool?.isNone then do
    note (.optionMismatch name "boolean")
    return []
  else if placeOptions.contains name then
    match value with
    | .string s => return [(name, located folder s)]
    | _ => do
      note (.optionMismatch name "string")
      return []
  else if placeListOptions.contains name then do
    let texts ← textList name value
    return [(name, .array (texts.map (located folder)))]
  else if name = "paths" then
    if isPathMap value then
      return [("pathsBasePath", .string folder.slashed), (name, value)]
    else do
      note (.optionMismatch name "object")
      return []
  else return [(name, value)]

def optionsFrom (folder : Path) : List (String × Json) → Options → Noting Options
  | [], options => return options
  | (name, value) :: rest, options => do
    let entries ← optionEntries folder name value
    optionsFrom folder rest (options.insertAll entries)

/-! ### One file -/

/-- The texts under a key that may be there. -/
def specsFrom (folder : Path) (root : List (String × Json)) (key : String) :
    Noting (Option SpecList) :=
  match root.lookup key with
  | none => return none
  | some value => do
    let patterns ← textList key value
    return some ⟨patterns, folder⟩

def ownLayer (folder : Path) (root : List (String × Json)) : Noting Layer := do
  let options ← match root.lookup "compilerOptions" with
    | some (.object fields) => optionsFrom folder fields ∅
    | some .null | none => pure ∅
    | some _ => do
      note (.optionMismatch "compilerOptions" "object")
      pure ∅
  let files ← specsFrom folder root "files"
  let included ← specsFrom folder root "include"
  let excluded ← specsFrom folder root "exclude"
  return ⟨options, files, included, excluded⟩

def basesOf (root : List (String × Json)) : Noting (List String) :=
  match root.lookup "extends" with
  | none => return []
  | some (.string s) => return [s]
  | some (.array items) => textsOf "extends" items
  | some _ => do
    note (.optionMismatch "extends" "string or Array")
    return []

/-! ### Extended files -/

/-- The files that a text after `extends` can name. -/
def baseCandidates (spec : String) (folder : Path) : List Path :=
  let isPath := Text.beginsWith "./" spec || Text.beginsWith "../" spec || spec = "."
    || spec = ".." || Path.isAbsolute ⟨spec⟩
  if isPath then
    let path := folder.locate ⟨spec⟩
    path :: if Text.endsWith ".json" spec then [] else [⟨path.text ++ ".json"⟩]
  else
    folder.ancestors.flatMap fun dir =>
      let base := (dir.child "node_modules").child spec
      [base, ⟨base.text ++ ".json"⟩, base.child "tsconfig.json"]

def findBase (disk : Disk) (spec : String) (folder : Path) : Option Path :=
  (baseCandidates spec folder).find? disk.isFile

/-- The file that a text after `extends` names and the value in it. What stands in the way is noted;
so is a file that is being read already. -/
def openBase (disk : Disk) (stack : List Path) (spec : String) (folder : Path) :
    Noting (Option (Path × Json)) := do
  match findBase disk spec folder with
  | none =>
    note (.fileNotFound spec)
    return none
  | some path =>
    if stack.any path.same then
      note (.circularExtends ((stack ++ [path]).map Path.text))
      return none
    else
      match disk.read path with
      | .error (.notFound _) =>
        note (.fileNotFound path.text)
        return none
      | .error e =>
        note (.fileUnreadable e)
        return none
      | .ok text =>
        match Json.readCommented text with
        | .ok value => return some (path, value)
        | .error e =>
          note (.badText s!"{path.text}: {e.message}")
          return none

/-- The layers of extended files, the later over the earlier ones. -/
def extendAll (layerOf : List Path → Path → Json → Noting Layer) (disk : Disk) (stack : List Path)
    (folder : Path) : List String → Layer → Noting Layer
  | [], layer => return layer
  | spec :: rest, layer => do
    match ← openBase disk stack spec folder with
    | none => extendAll layerOf disk stack folder rest layer
    | some (path, value) =>
      let base ← layerOf (stack ++ [path]) path value
      extendAll layerOf disk stack folder rest (base.above layer)

/-- What a file says together with all that it extends, to a depth. `stack` are the files that are
being read, this one last. -/
def layerOf (disk : Disk) : Nat → List Path → Path → Json → Noting Layer
  | 0 => fun _ _ _ => return .empty
  | depth + 1 => fun stack path value => do
    match value with
    | .object root =>
      let bases ← basesOf root
      let lower ← extendAll (layerOf disk depth) disk stack path.parent bases .empty
      let own ← ownLayer path.parent root
      return own.above lower
    | _ =>
      note (.rootNotObject (path.fileName?.getD ""))
      return .empty

/-- More than the files that can be read one inside the other. -/
def extendsBound (disk : Disk) : Nat := disk.entries.length + Disk.maxPath

end TypeOnly.Config
