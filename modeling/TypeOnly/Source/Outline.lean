import TypeOnly.Dictionary
import TypeOnly.Source.Grammar.Module

/-!
What a source file declares, imports and exports. An outline is put together item by item: each of
its lists is what the items contribute, in their order, and each of its maps is the union of what
they bind.
-/

namespace TypeOnly.Source

set_option autoImplicit false

open TypeOnly.Text (Span)

/-- What a name can be used for. -/
structure Meaning where
  value : Bool
  type : Bool
deriving DecidableEq, Repr, Inhabited

namespace Meaning

def none : Meaning := ⟨false, false⟩
def asValue : Meaning := ⟨true, false⟩
def asType : Meaning := ⟨false, true⟩
def both : Meaning := ⟨true, true⟩

/-- What two declarations of one name make it together. -/
def union (a b : Meaning) : Meaning := ⟨a.value || b.value, a.type || b.type⟩

theorem union_comm (a b : Meaning) : a.union b = b.union a := by
  simp only [union, Bool.or_comm]

theorem union_assoc (a b c : Meaning) : (a.union b).union c = a.union (b.union c) := by
  simp only [union, Bool.or_assoc]

@[simp] theorem union_self (a : Meaning) : a.union a = a := by
  simp only [union, Bool.or_self]

end Meaning

/-- A module specifier with its span, quotes included. -/
structure Specifier where
  text : String
  span : Span
deriving DecidableEq, Repr, Inhabited

def ModuleName.specifier (length : Nat) (m : ModuleName) : Specifier :=
  ⟨m.text, m.extent.span length⟩

/-- One name that an import makes known in its file. -/
structure Import where
  name : String
  imported : Imported
  source : String
  /-- Marked as a type, by itself or by its declaration. -/
  typeOnly : Bool
  span : Span
deriving DecidableEq, Repr

/-- Where an exported name comes from. -/
inductive ExportOrigin where
  | declared (meaning : Meaning)
  /-- A name of the same file. -/
  | local_ (name : String)
  /-- A name of another module. -/
  | remote (source name : String)
  /-- Another module as a whole. -/
  | whole (source : String)
deriving DecidableEq, Repr

structure Export where
  name : String
  target : ExportOrigin
  typeOnly : Bool
  /-- The place in an export list; declarations have none. -/
  span : Option Span
deriving DecidableEq, Repr

/-- An export of everything another module exports. -/
structure Forward where
  source : String
  typeOnly : Bool
deriving DecidableEq, Repr

/-- What `export =` exports. -/
inductive ExportAssignment where
  | name (name : String)
  | expression
deriving DecidableEq, Repr

/-- What a module declares, imports and exports. -/
structure Scope where
  /-- The declared names with what all their declarations make of them. -/
  declarations : Dictionary Meaning
  imports : List Import
  exports : List Export
  forwards : List Forward
  /-- The module specifiers that have to be found. -/
  requests : List Specifier
  assignment : Option ExportAssignment
  /-- The exported members of each namespace. -/
  namespaces : Dictionary (Dictionary Meaning)
deriving DecidableEq, Repr

/-- A module declared by name in a file that is itself no module. -/
structure NamedModule where
  /-- The name, in which one star can stand for anything. -/
  name : String
  /-- `none` for a declaration without a body. -/
  body : Option Scope
deriving DecidableEq, Repr

/-- What a file declares, imports and exports. -/
structure Outline extends Scope where
  namedModules : List NamedModule
deriving DecidableEq, Repr

/-! ### Declarations -/

mutual

/-- Whether a namespace exists at run time. -/
def NamespaceBody.isInstantiated : NamespaceBody → Bool
  | .absent => false
  | .nested _ body => body.isInstantiated
  | .block items => NamespaceBody.anyInstantiated items

def NamespaceBody.anyInstantiated : List Item → Bool
  | [] => false
  | i :: rest => i.isInstantiated || NamespaceBody.anyInstantiated rest

def Item.isInstantiated : Item → Bool
  | .declaration d | .exportDecl d => d.isInstantiated
  | .importDecl _ _ typeOnly | .exportList _ _ typeOnly => !typeOnly
  | _ => true

def Declaration.isInstantiated : Declaration → Bool
  | .interfaceDecl _ | .typeAlias _ => false
  | .namespaceDecl _ _ body => body.isInstantiated
  | _ => true

end

/-- What the name of a namespace can be used for. -/
def NamespaceBody.meaning (b : NamespaceBody) : Meaning :=
  if b.isInstantiated then .both else .asType

/-- The names a declaration binds where it stands. -/
def Declaration.bound : Declaration → List (String × Meaning)
  | .classDecl name | .enumDecl name => [(name, .both)]
  | .functionDecl name => [(name, .asValue)]
  | .variableDecl bound => (Binding.namesOfAll bound).map fun n => (n, .asValue)
  | .interfaceDecl name | .typeAlias name => [(name, .asType)]
  | .namespaceDecl (.ident name) _ body => [(name, body.meaning)]
  | .namespaceDecl _ _ _ | .resource => []

def declareName (d : Dictionary Meaning) (e : String × Meaning) : Dictionary Meaning :=
  d.alter (fun m => (m.getD .none).union e.2) e.1

/-- The names with what all their entries make of them. -/
def meaningsOf (entries : List (String × Meaning)) : Dictionary Meaning :=
  entries.foldl declareName ∅

/-- What a namespace exports. In an ambient one every declaration is exported. -/
def NamespaceBody.members (ambient : Bool) : NamespaceBody → List (String × Meaning)
  | .absent => []
  | .nested name body => [(name, body.meaning)]
  | .block items => items.flatMap fun
    | .exportDecl d => d.bound
    | .declaration d => if ambient then d.bound else []
    | _ => []

/-! ### What one item contributes -/

namespace Item

-- the bytes of the text, which no span leaves
variable (length : Nat)

def declared : Item → List (String × Meaning)
  | declaration d | exportDecl d => d.bound
  | exportDefault (.classDecl (some name)) => [(name, .both)]
  | exportDefault (.functionDecl (some name)) => [(name, .asValue)]
  | exportDefault (.interfaceDecl name) => [(name, .asType)]
  | importAlias name _ typeOnly => [(name, if typeOnly then .asType else .both)]
  | _ => []

/-- The namespace an item declares, with its exported members. -/
def namespaceParts (ambient : Bool) : Item → List (String × List (String × Meaning))
  | declaration (.namespaceDecl (.ident name) declared body)
  | exportDecl (.namespaceDecl (.ident name) declared body) =>
    [(name, NamespaceBody.members (ambient || declared) body)]
  | _ => []

def imports : Item → List Import
  | importDecl clauses source typeOnly => clauses.map fun c =>
    ⟨c.name, c.imported, source.text, typeOnly || c.typeOnly, c.extent.span length⟩
  | _ => []

/-- The module specifiers an item asks for. An import that takes nothing asks for none. -/
def requests : Item → List Specifier
  | importDecl clauses source _ => if clauses.isEmpty then [] else [source.specifier length]
  | exportList _ (some source) _ | exportAll source _ => [source.specifier length]
  | _ => []

/-- A declaration as an export of itself. -/
def exportsOf (bound : List (String × Meaning)) : List Export :=
  bound.map fun (name, m) => ⟨name, .declared m, false, .none⟩

def listed (source : Option ModuleName) (typeOnly : Bool) : ExportClause → List Export
  | .named origin exported marked extent =>
    let target := match source with
      | some s => .remote s.text origin
      | .none => .local_ origin
    [⟨exported, target, typeOnly || marked, some (extent.span length)⟩]
  | .whole name =>
    match source with
    | some s => [⟨name, .whole s.text, typeOnly, .none⟩]
    | .none => []

/-- The names an item exports. Where declarations export themselves, the plain ones do too. -/
def exports (implicit : Bool) : Item → List Export
  | declaration d => if implicit then exportsOf d.bound else []
  | exportDecl d => exportsOf d.bound
  | exportList clauses source typeOnly => clauses.flatMap (listed length source typeOnly)
  | exportDefault what =>
    let target := match what with
      | .classDecl _ => .declared .both
      | .functionDecl _ | .expression => .declared .asValue
      | .interfaceDecl _ => .declared .asType
      | .reference name => .local_ name
    [⟨"default", target, false, .none⟩]
  | importAlias name true typeOnly => exportsOf [(name, if typeOnly then .asType else .both)]
  | _ => []

def forwards : Item → List Forward
  | exportAll source typeOnly => [⟨source.text, typeOnly⟩]
  | _ => []

def assignment : Item → List ExportAssignment
  | exportAssign (some name) => [.name name]
  | exportAssign .none => [.expression]
  | _ => []

end Item

/-! ### Outlines -/

/-- Adds the members of a namespace to those of its other declarations. -/
def addNamespace (d : Dictionary (Dictionary Meaning)) (e : String × List (String × Meaning)) :
    Dictionary (Dictionary Meaning) :=
  d.alter (fun members => e.2.foldl declareName (members.getD ∅)) e.1

/-- What the items of a module make of it. In the body of an ambient module declarations export
themselves. -/
def Scope.ofItems (length : Nat) (ambient implicit : Bool) (items : List Item) : Scope where
  declarations := meaningsOf (items.flatMap Item.declared)
  imports := items.flatMap (Item.imports length)
  exports := items.flatMap (Item.exports length implicit)
  forwards := items.flatMap Item.forwards
  requests := items.flatMap (Item.requests length)
  assignment := (items.flatMap Item.assignment).getLast?
  namespaces := (items.flatMap (Item.namespaceParts ambient)).foldl addNamespace ∅

/-- The module a declaration gives a name in a file that is no module. -/
def NamedModule.ofItem (length : Nat) : Item → Option NamedModule
  | .declaration (.namespaceDecl (.text name) _ (.block items)) =>
    some ⟨name, some (Scope.ofItems length true true items)⟩
  | .declaration (.namespaceDecl (.text name) _ _) => some ⟨name, none⟩
  | _ => none

namespace Outline

def isModule (items : List Item) : Bool := items.any Item.isModular

/-- What the items of a file make of it. In a file that is no module, a module declared by a
string is known by that name, and asks for what its body asks for. -/
def ofItems (length : Nat) (ambient : Bool) (items : List Item) : Outline :=
  let scope := Scope.ofItems length ambient false items
  if isModule items then { scope with namedModules := [] }
  else
    let modules := items.filterMap (NamedModule.ofItem length)
    { scope with
      requests := modules.flatMap fun m => (m.body.map (·.requests)).getD []
      namedModules := modules }

end Outline

structure Issue where
  span : Span
  message : String
deriving DecidableEq, Repr

/-- A source file as far as it could be read. -/
structure SourceModule where
  outline : Option Outline
  issues : List Issue

def readSource (text : String) (kind : Kind) : SourceModule :=
  let reading := readModule kind.dialect text
  let length := text.utf8ByteSize
  ⟨reading.items.map (Outline.ofItems length kind.isDeclaration),
    reading.flaws.map fun flaw => ⟨flaw.extent.span length, flaw.message⟩⟩

end TypeOnly.Source
