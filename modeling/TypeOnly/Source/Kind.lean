/-!
Kinds of source files and the language features each is read with.
-/

namespace TypeOnly.Source

set_option autoImplicit false

/-- Kind of a source file. Declaration files are a kind of their own: they are loaded, and never
checked. -/
inductive Kind where
  | typeScript
  | tsx
  | declaration
  | javaScript
  | jsx
deriving DecidableEq, Repr

/-- The language features a file is read with. -/
structure Dialect where
  /-- Type annotations and type declarations. -/
  types : Bool
  /-- Markup elements in expressions. -/
  markup : Bool
  /-- The whole file is ambient. -/
  ambient : Bool
  decorators : Bool
deriving DecidableEq, Repr

namespace Kind

def isDeclaration (k : Kind) : Bool := k == declaration

def isJavaScript : Kind → Bool
  | javaScript | jsx => true
  | _ => false

def dialect (k : Kind) : Dialect where
  types := !k.isJavaScript
  markup := k.isJavaScript || k == tsx
  ambient := k.isDeclaration
  decorators := true

end Kind

end TypeOnly.Source
