import TypeOnly.Json.Reader
import TypeOnly.Module.Wildcard

/-!
What a package says about the files that it offers.
-/

namespace TypeOnly

set_option autoImplicit false

/-- The description of a package, as far as it names files. -/
structure Package where
  types : Option String
  typings : Option String
  main : Option String
  /-- What the package exposes; without it, everything. -/
  exports : Option Json
deriving Repr, Inhabited

namespace Package

/-! ### Reading -/

/-- A text or nothing. -/
def textOf? : Json → Option (Option String)
  | .string s => some (some s)
  | .null => some none
  | _ => none

/-- A value, where null is none. -/
def valueOf (j : Json) : Option Json := if j.isNull then none else some j

def ofValues? (types typings main exports : Json) : Option Package := do
  let types ← textOf? types
  let typings ← textOf? typings
  let main ← textOf? main
  return ⟨types, typings, main, valueOf exports⟩

def fieldNames : List String := ["types", "typings", "main", "exports"]

/-- The value of a field that stands at most once; null where it does not stand. -/
def single? (name : String) (fields : List (String × Json)) : Option Json :=
  match fields.filter (·.1 == name) with
  | [] => some .null
  | [(_, j)] => some j
  | _ => none

def ofFields? (fields : List (String × Json)) : Option Package := do
  let types ← single? "types" fields
  let typings ← single? "typings" fields
  let main ← single? "main" fields
  let exports ← single? "exports" fields
  ofValues? types typings main exports

open Json Json.Scan in
/-- The fields of a description, or its values in a fixed order. Fields with other names are only
passed over. -/
def scan : Scan (Option Package) := fun p =>
  let p := skipBlanks p
  let exact := value .exact (maxDepth - 1)
  let passing := value .passing p.rest.length
  match p.rest with
  | '{' :: rest => do
    let (fields, p) ←
      fieldsFrom .exact (fun key => if fieldNames.contains key then exact else passing)
      (rest.length + 1) [] ⟨rest, p.index + 1⟩
    return (ofFields? fields, p)
  | '[' :: rest => do
    let (items, p) ← itemsFrom exact (rest.length + 1) [] ⟨rest, p.index + 1⟩
    match items with
    | [types, typings, main, exports] => return (ofValues? types typings main exports, p)
    | _ => return (none, p)
  | _ => stopNext p .valueNeeded

/-- Reads the description of a package; none if it is not well formed. -/
def ofText? (s : String) : Option Package :=
  match Json.Scan.whole scan s.toList with
  | .ok package => package
  | .error _ => none

/-! ### Exports -/

/-- The conditions under which a package can expose a file, in order of preference. -/
def conditions : List String := ["types", "import", "default"]

mutual

/-- The texts that a value of `exports` comes down to, in order of preference. -/
def targets : Json → List String
  | .string s => [s]
  | .array items => targetsOfItems items
  | .object fields =>
    let found := targetsOfFields fields
    conditions.flatMap fun c => (found.lookup c).getD []
  | _ => []

def targetsOfItems : List Json → List String
  | [] => []
  | j :: rest => targets j ++ targetsOfItems rest

def targetsOfFields : List (String × Json) → List (String × List String)
  | [] => []
  | (k, j) :: rest => (k, targets j) :: targetsOfFields rest

end

/-- The more specific of two patterns, the later one if there is no difference. -/
def moreSpecific (a b : String × Json × String) : String × Json × String :=
  if Wildcard.weight a.1 ≤ Wildcard.weight b.1 then b else a

/-- The value for a path inside a package, and what a star in its key stands for. -/
def exposed? (exports : Json) (subpath : String) : Option (Json × String) :=
  let keyed := exports.asObject?.filter fun fields => fields.any fun (k, _) =>
    Text.beginsWith "." k
  match keyed with
  | none => if subpath = "." then some (exports, "") else none
  | some fields =>
    match fields.lookup subpath with
    | some j => some (j, "")
    | none =>
      let matching := fields.filterMap fun (k, j) =>
        if Wildcard.hasStar k then (Wildcard.capture? k subpath).map fun c => (k, j, c) else none
      match matching with
      | [] => none
      | first :: rest => some (rest.foldl moreSpecific first).2

/-- The files that a package exposes for a path inside it, in order of preference, each by its path
inside the package. -/
def exposedFiles (exports : Json) (subpath : String) : List String :=
  match exposed? exports subpath with
  | none => []
  | some (j, captured) =>
    (targets j).filterMap fun t => Text.dropStart? "./" (Text.replaceAll '*' captured t)

end Package

end TypeOnly
