import TypeOnly.Source.Grammar.Statement

/-!
Imports and exports.
-/

namespace TypeOnly.Source.Grammar

set_option autoImplicit false

open TypeOnly.Text (Extent)
open Read

variable (r : Rules)

/-- A name of an import or export list: a word, or a string. -/
inductive ListName where
  | word (name : String) (extent : Extent)
  | text (value : String) (extent : Extent)

namespace ListName

def value : ListName → String
  | word name _ => name
  | text value _ => value

end ListName

def listName : Read ListName := do
  match ← current? with
  | some ⟨.string value _, extent, _⟩ => do
    bump
    return .text value extent
  | some ⟨.word name, extent, _⟩ | some ⟨.plainWord name, extent, _⟩ => do
    bump
    return .word name extent
  | _ => failUnexpected "identifier or string"

def specifier : Read ModuleName := do
  let l ← required
  match l.token with
  | .string value _ => do
    bump
    return ⟨value, l.extent⟩
  | _ => failUnexpected "a string literal"

def importAttributes : Read Unit := do
  if (← typed) && !(← afterLineEnd) && (← isWordOf ["assert", "with"]) then
    bump
    let _ ← objectLiteral r

/-- The module that an import or export names, and the end of the statement. -/
def fromClause : Read ModuleName := do
  expectWord "from"
  let source ← specifier
  importAttributes r
  expectEnd
  return source

/-! ### Lists -/

inductive Marked where
  /-- `type` is the name itself, given another one. -/
  | renamed (newName : String)
  /-- `type` marks this name; the rest of the entry is still to be read. -/
  | name (name : String) (extent : Extent)
  /-- `type` marks the name `as`, which ends the entry or has another name. -/
  | marksAs (newName : Option String)

/-- Reads on after the word `type`, which another word follows. The word `as` is a name, too, so
up to three of them can follow. -/
def afterType (aliasName : Read (String × Extent)) : Read Marked := do
  let (name, extent) ← anyName
  if name != "as" then return .name name extent
  unless ← isAnyWord do return .marksAs none
  let (second, _) ← aliasName
  if second = "as" then
    if ← isAnyWord then
      let (third, _) ← aliasName
      return .marksAs (some third)
  return .renamed second

def importEntry (typeOnly : Bool) : Read ImportClause := do
  let start ← place
  match ← listName with
  | .text value extent => do
    if ← eatWord "as" then
      let (name, _) ← bindingName
      return ⟨name, .named value, false, ← since start⟩
    failAt extent (.stringImport value)
  | .word first firstExtent => do
    let plain (name : String) (marked : Bool) : Read ImportClause := do
      if ← eatWord "as" then
        let (newName, _) ← bindingName
        return ⟨newName, .named name, marked, ← since start⟩
      return ⟨name, .named name, marked, ← since start⟩
    if (← typed) && first = "type" && (← isAnyWord) then
      match ← afterType bindingName with
      | .renamed newName => do
        let last := (← get).last
        let stop := if newName = "as" then last.stop else firstExtent.stop
        return ⟨newName, .named "type", false, ⟨start, stop⟩⟩
      | .marksAs newName => do
        if typeOnly then complain firstExtent .typeModifierInTypeImport
        match newName with
        | none => return ⟨"as", .named "as", true, ← since start⟩
        | some newName => return ⟨newName, .named "as", true, firstExtent⟩
      | .name name _ => do
        if typeOnly then complain firstExtent .typeModifierInTypeImport
        plain name true
    else plain first false

/-- An entry of an export list, with the name it exports. -/
def listedExport (typeOnly : Bool) : Read (ExportClause × ListName) := do
  let start ← place
  let first ← listName
  let plain (origin : ListName) (marked : Bool) : Read (ExportClause × ListName) := do
    if ← eatWord "as" then
      let newName ← listName
      return (.named origin.value newName.value marked (← since start), origin)
    return (.named origin.value origin.value marked (← since start), origin)
  match first with
  | .word name firstExtent => do
    if (← typed) && name = "type" && (← isAnyWord) then
      match ← afterType anyName with
      | .renamed newName => return (.named "type" newName false firstExtent, first)
      | .marksAs newName => do
        if typeOnly then complain firstExtent .typeModifierInTypeExport
        match newName with
        | none => return (.named "as" "as" true (← since start), .word "as" firstExtent)
        | some newName => return (.named "as" newName true firstExtent, .word "as" firstExtent)
      | .name name extent => do
        if typeOnly then complain firstExtent .typeModifierInTypeExport
        plain (.word name extent) true
    else plain first false
  | .text _ _ => plain first false

def braceList {α : Type} (entry : Read α) : Read (List α) := do
  expect .openBrace
  let entries ← collect (do
    if (← atEnd) || (← isSym .closeBrace) then return none
    let e ← entry
    unless ← isSym .closeBrace do expect .comma
    return some e)
  expect .closeBrace
  return entries

/-! ### Imports -/

/-- What `import name =` refers to, with the end of the statement. -/
def moduleReference : Read Unit := do
  expect .equals
  if ← isWord "require" <&&> peekIsSym .openParen then
    bump
    bump
    let _ ← specifier
    expect .closeParen
  else entityName false
  expectEnd

/-- What an import takes by default, and whether it is for types only. There is none when its first
word turned out to mark the list that follows. -/
structure DefaultClause where
  clause : Option (String × Extent)
  typeOnly : Bool

/-- The name after a word that may say when the module is loaded; it is that word unless another
name follows. -/
def phasedName? (name : String) (extent : Extent) : Read (Option (String × Extent)) := do
  unless name = "source" || name = "defer" do return some (name, extent)
  if ← isOneOf [.star, .openBrace] then return none
  let named ← (do return (← isName) && !(← isWord "from")) <||> peekIsWord "from"
  if named then return some (← bindingName)
  return some (name, extent)

def importDefault : Read DefaultClause := do
  unless ← isName do return ⟨none, false⟩
  let (name, extent) ← bindingName
  let (first, typeOnly) ← (do
    unless (← typed) && name = "type" do return (some (name, extent), false)
    if ← isOneOf [.star, .openBrace] then return (none, true)
    if ← isName then
      if ← not <$> isWord "from" <||> peekIsWord "from" then
        return (some (← bindingName), true)
      if ← peekIsSym .equals then return (some (← anyName), true)
    return (some (name, extent), false))
  match first with
  | none => return ⟨none, typeOnly⟩
  | some (name, extent) => do
    if (← typed) && (← isSym .equals) then return ⟨some (name, extent), typeOnly⟩
    return ⟨← phasedName? name extent, typeOnly⟩

def importList (typeOnly : Bool) : Read (List ImportClause) := do
  let start ← place
  if ← eat .star then
    expectWord "as"
    let (name, _) ← bindingName
    return [⟨name, .whole, false, ← since start⟩]
  else if ← isSym .openBrace then braceList (importEntry typeOnly)
  else return []

def importItem : Read Item := do
  expectWord "import"
  if let some ⟨.string value _, extent, _⟩ ← current? then
    bump
    importAttributes r
    expectEnd
    return .importDecl [] ⟨value, extent⟩ false
  let d ← importDefault
  match d.clause with
  | some (name, extent) => do
    if (← typed) && (← isSym .equals) then
      moduleReference
      return .importAlias name false d.typeOnly
    unless ← isWord "from" do expect .comma
    let others ← importList d.typeOnly
    let source ← fromClause r
    return .importDecl (⟨name, .default, false, extent⟩ :: others) source d.typeOnly
  | none => do
    let clauses ← importList d.typeOnly
    let source ← fromClause r
    return .importDecl clauses source d.typeOnly

/-! ### Exports -/

/-- Decorators after `export`, which stand there only if there are none before it. -/
def lateDecorators (decorated : Bool) : Read Unit := do
  if let some extent ← decorators r false then
    if decorated then failAt extent .decoratorsTwice

/-- What `export default` exports. The flag says that decorators stand in front of it. -/
def exportDefault (decorated : Bool) : Read DefaultExport := do
  lateDecorators r decorated
  if ← typed then
    if ← isWord "abstract" <&&> peekIsWord "class" <&&> not <$> peekAfterLineEnd then
      bump
      return .classDecl (← classDecl r false true)
    if ← isWord "abstract" <&&> peekIsWord "interface" then
      complain (← here) .abstractPlace
      bump
    if ← eatWord "interface" then return .interfaceDecl (← interfaceDecl r)
  if ← isWord "class" then return .classDecl (← classDecl r false false)
  if ← isWord "async" <&&> peekIsWord "function" <&&> not <$> peekAfterLineEnd then
    bump
    return .functionDecl (← functionDecl r true false)
  if ← isWord "function" then return .functionDecl (← functionDecl r false false)
  let e ← withIn r.assignment
  expectEnd
  match e with
  | .name name _ => return .reference name
  | _ => return .expression

/-- Words that cannot be exported by their own name without a module to take them from. -/
def complainAboutLocal : ListName → Read Unit
  | .word name extent => do
    if isKeyword name || name = "package" then complain extent (.exportWithoutSource name)
  | .text _ extent => complain extent .stringExport

/-- A list or star export, from after its `type`. -/
def exportList (typeOnly : Bool) : Read Item := do
  if ← isSym .star then
    let named ← peekIsWord "as"
    bump
    unless named do return .exportAll (← fromClause r) typeOnly
    expectWord "as"
    let name ← listName
    return .exportList [.whole name.value] (some (← fromClause r)) typeOnly
  let entries ← braceList (listedExport typeOnly)
  let clauses := entries.map Prod.fst
  if ← isWord "from" then return .exportList clauses (some (← fromClause r)) typeOnly
  for e in entries do complainAboutLocal e.2
  let _ ← eatEnd
  return .exportList clauses none typeOnly

/-- The forms of export that only typed sources have, if it is one. -/
def typedExport? : Read (Option Item) := do
  unless ← typed do return none
  if let some w := (← token?).bind Token.name? then
    if let some d ← attempt (wordDeclaration? r w true) then return some (.exportDecl d)
  if ← eatWord "import" then
    let typeOnly ← isWord "type" <&&> peekIsName
    if typeOnly then bump
    let (name, _) ← anyName
    moduleReference
    return some (.importAlias name true typeOnly)
  if ← eat .equals then
    let e ← sequence r
    expectEnd
    match e with
    | .name name _ => return some (.exportAssign (some name))
    | _ => return some (.exportAssign none)
  if ← eatWord "as" then
    expectWord "namespace"
    let _ ← identifier
    expectEnd
    return some .exportGlobal
  return none

/-- The declaration that an export starts with, if it is one. -/
def exportedDecl? : Read (Option Declaration) := do
  match ← token? with
  | some (.word "class") => return (← classDecl r true false).map .classDecl
  | some (.word "async") => do
    unless (← peekIsWord "function") && !(← peekAfterLineEnd) do return none
    bump
    return (← functionDecl r true true).map .functionDecl
  | some (.word "function") => return (← functionDecl r false true).map .functionDecl
  | some (.word "const") => do
    unless ← typed <&&> peekIsWord "enum" do return some (← variableDecl r)
    bump
    bump
    return some (.enumDecl (← enumDecl r))
  | some (.word "var") => return some (← variableDecl r)
  | some (.word "let") => do
    unless followsLet (← peekToken?) do return none
    return some (← variableDecl r)
  | _ => return none

/-- An export. The flag says that decorators stand in front of it. -/
def exportItem (decorated : Bool) : Read Item := do
  expectWord "export"
  let start := (← required).extent.start
  if ← typed <&&> eatWord "declare" then
    if let some d ← declared? r start then return .exportDecl d.withDeclare
  if let some item ← typedExport? r then return item
  let typeOnly ← if ← typed then eatWord "type" else pure false
  if ← pure !typeOnly <&&> eatWord "default" then
    return .exportDefault (← exportDefault r decorated)
  lateDecorators r decorated
  unless typeOnly do
    if let some d ← exportedDecl? r then return .exportDecl d
  exportList r typeOnly

/-! ### Items -/

/-- A statement, declaration, import or export. The first flag allows imports and exports, the
second declarations. -/
def item (modular includeDecl : Bool) : Read Item := do
  let decorated ← decorators r true
  if ← isWordOf ["import", "export"] then
    let isImport ← isWord "import"
    if ← pure isImport <&&> (peekIsSym .openParen <||> peekIsSym .dot) then
      let _ ← sequence r
      let _ ← eatEnd
      return .statement
    unless modular do fail .moduleItemInBlock
    if isImport then importItem r else exportItem r decorated.isSome
  else within (fun c => { c with colonAhead := false }) (statement r modular includeDecl)

/-! ### All rules together -/

/-- The rules to a depth of nesting. -/
def rules : Nat → Rules
  | 0 => Rules.exhausted
  | depth + 1 =>
    { assignment := fun c s => assignment (rules depth) c s
      assignmentBase := fun c s => assignmentBase (rules depth) c s
      operation := fun c s => operation (rules depth) c s
      unary := fun c s => unary (rules depth) c s
      binary := fun above left c s => binary (rules depth) above left c s
      callee := fun c s => callee (rules depth) c s
      leftHandSide := fun c s => leftHandSide (rules depth) c s
      subscripts := fun noCall noComputed e c s => subscripts (rules depth) noCall noComputed e c s
      type := fun c s => type (rules depth) c s
      plainType := fun c s => plainType (rules depth) c s
      operatorType := fun c s => operatorType (rules depth) c s
      item := fun modular includeDecl c s => item (rules depth) modular includeDecl c s
      binding := fun c s => binding (rules depth) c s
      markup := fun c s => markup (rules depth) c s
      namespaceBody := fun c s => namespaceBody (rules depth) c s }

end TypeOnly.Source.Grammar

namespace TypeOnly.Source

open Grammar Read

structure Reading where
  /-- The items of the file; `none` when reading could not go on to its end. -/
  items : Option (List Item)
  /-- What is wrong, in the order it was found; the flaw that stopped the reading is last. -/
  flaws : List Flaw

/-- All items up to the end of the text. -/
def allItems (r : Rules) : Read (List Item) :=
  collect (do
    if ← atEnd then return none
    return some (← r.item true true))

def readModule (dialect : Dialect) (text : String) : Reading :=
  let chars := text.toList
  let context : Context := { dialect, bound := chars.length + 2, inDeclare := dialect.ambient }
  let state : State := { scanner := .start chars }
  match allItems (rules (16 * (chars.length + 4))) context state with
  | .ok items s => ⟨some items, s.flaws.reverse⟩
  | .error i s => ⟨none, (i :: s.flaws).reverse⟩

end TypeOnly.Source
