import TypeOnly.Path
import TypeOnly.Source.Kind

/-!
What the name of a file says about its source.
-/

namespace TypeOnly.Source

set_option autoImplicit false

open Text (endsWith dropEnd?)

/-- Extensions of the files that a module can be, the first one that exists being taken. -/
def typeScriptExtensions : List String := [".ts", ".tsx", ".d.ts"]

/-- Extensions of files that fix their module format. -/
def moduleExtensions : List String := [".mts", ".cts", ".d.mts", ".d.cts"]

def javaScriptExtensions : List String := [".js", ".jsx", ".mjs", ".cjs"]

def declarationExtensions : List String := [".d.ts", ".d.mts", ".d.cts"]

/-- Extensions of the files that a project can hold. -/
def sourceExtensions (allowJs : Bool) : List String :=
  typeScriptExtensions ++ moduleExtensions ++ if allowJs then javaScriptExtensions else []

/-- Whether a file name ends in one of some extensions. -/
def endsInOneOf (p : Path) (extensions : List String) : Bool :=
  p.fileName?.any fun name => extensions.any fun e => endsWith e name

def kindOf? (p : Path) : Option Kind :=
  if endsInOneOf p declarationExtensions then some .declaration
  else
    match p.suffix? with
    | some "ts" | some "mts" | some "cts" => some .typeScript
    | some "tsx" => some .tsx
    | some "js" | some "mjs" | some "cjs" => some .javaScript
    | some "jsx" => some .jsx
    | _ => none

/-- A file name without its extension, if that is one of a source file. -/
def stem (name : String) : String :=
  ((declarationExtensions ++ [".ts", ".tsx", ".mts", ".cts"] ++ javaScriptExtensions).findSome?
    fun e => dropEnd? e name).getD name

end TypeOnly.Source
