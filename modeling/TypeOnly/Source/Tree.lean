import TypeOnly.Text.Span

/-!
The module structure of a source file: its top-level declarations, imports and exports. Statements
and expressions are kept only as far as a reader of imports and exports can tell them apart.
-/

namespace TypeOnly.Source

set_option autoImplicit false

open TypeOnly.Text (Extent)

/-- What a variable pattern binds: one name, or the names of its parts. -/
inductive Binding where
  | name (id : String)
  | group (parts : List Binding)
deriving Repr, Inhabited

mutual

/-- The bound names, from left to right. -/
def Binding.names : Binding → List String
  | .name id => [id]
  | .group parts => Binding.namesOfAll parts

def Binding.namesOfAll : List Binding → List String
  | [] => []
  | b :: rest => b.names ++ Binding.namesOfAll rest

end

/-- What an import or export says of another module, with the quotes in its extent. -/
structure ModuleName where
  text : String
  extent : Extent
deriving DecidableEq, Repr, Inhabited

/-- What an import takes from another module. -/
inductive Imported where
  | named (name : String)
  | default
  /-- The module as a whole, `* as`. -/
  | whole
deriving DecidableEq, Repr

/-- One name brought in by an import. -/
structure ImportClause where
  name : String
  imported : Imported
  /-- Marked with its own `type`. -/
  typeOnly : Bool
  extent : Extent
deriving DecidableEq, Repr

/-- One name of an export list. -/
inductive ExportClause where
  | named (origin exported : String) (typeOnly : Bool) (extent : Extent)
  /-- `* as name` -/
  | whole (name : String)
deriving DecidableEq, Repr

/-- What a namespace declaration declares. -/
inductive NamespaceName where
  | ident (name : String)
  /-- A module named by a string. -/
  | text (name : String)
  /-- The global scope. -/
  | global
deriving DecidableEq, Repr

/-- What `export default` exports. -/
inductive DefaultExport where
  | classDecl (name : Option String)
  | functionDecl (name : Option String)
  | interfaceDecl (name : String)
  /-- A plain name. -/
  | reference (name : String)
  | expression
deriving DecidableEq, Repr

mutual

inductive Declaration where
  | classDecl (name : String)
  | functionDecl (name : String)
  | variableDecl (bound : List Binding)
  | interfaceDecl (name : String)
  | typeAlias (name : String)
  | enumDecl (name : String)
  | namespaceDecl (name : NamespaceName) (declared : Bool) (body : NamespaceBody)
  /-- `using` declares variables that modules do not see. -/
  | resource
deriving Inhabited

inductive NamespaceBody where
  | absent
  /-- The inner part of a dotted name. -/
  | nested (name : String) (body : NamespaceBody)
  | block (items : List Item)

inductive Item where
  | statement
  /-- A string standing alone, which can be an order to be strict. -/
  | directive (isStrict : Bool) (extent : Extent)
  | declaration (d : Declaration)
  | importDecl (clauses : List ImportClause) (source : ModuleName) (typeOnly : Bool)
  | exportDecl (d : Declaration)
  | exportList (clauses : List ExportClause) (source : Option ModuleName) (typeOnly : Bool)
  | exportAll (source : ModuleName) (typeOnly : Bool)
  | exportDefault (what : DefaultExport)
  /-- `import name = …` -/
  | importAlias (name : String) (exported typeOnly : Bool)
  /-- `export = …`, with the name it exports if it is one. -/
  | exportAssign (name : Option String)
  /-- `export as namespace …` -/
  | exportGlobal

end

instance : Inhabited Item := ⟨.statement⟩

namespace Item

/-- Whether the item makes its file a module. -/
def isModular : Item → Bool
  | statement | directive _ _ | declaration _ => false
  | _ => true

end Item

/-- The same declaration under a `declare` modifier. -/
def Declaration.withDeclare : Declaration → Declaration
  | .namespaceDecl name _ body => .namespaceDecl name true body
  | d => d

end TypeOnly.Source
