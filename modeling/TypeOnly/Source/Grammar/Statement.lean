import TypeOnly.Source.Grammar.Variable

/-!
Statements and declarations.
-/

namespace TypeOnly.Source.Grammar

set_option autoImplicit false

open TypeOnly.Text (Extent)
open Read

variable (r : Rules)

/-- A statement that is part of another one, where nothing can be declared. -/
def bodyStatement : Read Unit := do
  let _ ← r.item false false

/-! ### Simple statements -/

/-- An expression in parentheses. -/
def condition : Read Unit := do
  expect .openParen
  let _ ← fullExpression r
  expect .closeParen

def whileStatement : Read Unit := do
  bump
  condition r
  within insideLoop (bodyStatement r)

def doStatement : Read Unit := do
  bump
  within insideLoop (bodyStatement r)
  expectWord "while"
  condition r
  let _ ← eatEnd

def ifStatement : Read Unit := do
  bump
  condition r
  bodyStatement r
  if ← eatWord "else" then bodyStatement r

def returnStatement : Read Unit := do
  let start ← place
  let check : Read Unit := do
    unless (← read).inFunction do complain (← since start) .returnOutsideFunction
  recover (do
    bump
    unless ← atStatementEnd do
      let _ ← fullExpression r
    expectEnd) (fun i => do
      check
      throw i)
  check

def throwStatement : Read Unit := do
  bump
  if ← afterLineEnd then fail .lineBreakAfterThrow
  let _ ← fullExpression r
  expectEnd

/-- `break` or `continue`. -/
def jumpStatement : Read Unit := do
  let start ← place
  let isBreak ← isWord "break"
  bump
  let label ← (do
    if ← eatEnd then return none
    let (name, _) ← identifier
    expectEnd
    return some name)
  let extent ← since start
  let c ← read
  let known := label.all c.labels.contains
  if isBreak then
    if !known then complain extent .breakToUnknownLabel
    else if !c.breakAllowed then complain extent .breakOutsideLoop
  else if !c.continueAllowed then complain extent .continueOutsideLoop
  else if !known then complain extent .continueToUnknownLabel

def switchCases : Read Unit := do
  let _ ← iterate (fun (seen : Bool) => do
    unless ← isWordOf ["case", "default"] do return (seen, false)
    let isDefault ← isWord "default"
    bump
    if isDefault then
      if seen then failAt (← hereKnown) .severalDefaults
    else
      let _ ← fullExpression r
    expect .colon
    loop do
      if (← atEnd) || (← isSym .closeBrace) || (← isWordOf ["case", "default"]) then return false
      let _ ← r.item false true
      return true
    return (seen || isDefault, true)) false

def switchStatement : Read Unit := do
  bump
  condition r
  expect .openBrace
  within (fun c => { c with breakAllowed := true }) (switchCases r)
  expect .closeBrace

def catchClause? : Read Bool := do
  unless ← eatWord "catch" do return false
  if ← eat .openParen then
    let _ ← r.binding
    let _ ← annotation? r
    expect .closeParen
  let _ ← block r
  return true

def finallyClause? : Read Bool := do
  unless ← eatWord "finally" do return false
  let _ ← block r
  return true

def tryStatement : Read Unit := do
  bump
  let _ ← block r
  let start ← place
  let handled ← catchClause? r
  let finished ← finallyClause? r
  unless handled || finished do complain (.empty start) .semicolonNeeded

/-- A handler without its `try`, which is noted. -/
def strayClauses (catches : Bool) : Read Unit := do
  complain (← here) .semicolonNeeded
  if catches then
    recover (do
      let _ ← catchClause? r) (fun _ => return ())
  recover (do
    let _ ← finallyClause? r) (fun _ => return ())

def withStatement : Read Unit := do
  let extent ← here
  if ← typed then complain extent .withUntyped
  complainStrict extent .withInStrict
  bump
  condition r
  within (fun c => { c with inFunction := true }) (bodyStatement r)

/-- The statement after a label. The label is noted once for each label of its name around it. -/
def labelled (name : String) (extent : Extent) : Read Unit := do
  let around := (← read).labels.filter (· = name)
  within (fun c => { c with labels := name :: c.labels, breakAllowed := true }) do
    if ← isWord "function" then
      let start ← place
      let isGenerator ← peekIsSym .star
      let _ ← functionDecl r false true
      let functionExtent ← since start
      complain functionExtent .labelledFunction
      if isGenerator then complain functionExtent .labelledGenerator
    else bodyStatement r
  for label in around do complain extent (.duplicateLabel label)

/-! ### Declarations of types and namespaces -/

/-- The items of a module or namespace in braces. -/
def namespaceBlock : Read NamespaceBody := do
  expect .openBrace
  return .block (← blockItems r true)

/-- The rest of a namespace after its first name. -/
def namespaceBody : Read NamespaceBody := do
  if ← eat .dot then
    let (name, _) ← anyName
    return .nested name (← r.namespaceBody)
  else namespaceBlock r

def namespaceDecl : Read Declaration := do
  let (name, _) ← anyName
  return .namespaceDecl (.ident name) false (← r.namespaceBody)

/-- A module named by a string, or the global scope, from its name on. -/
def externalModule : Read Declaration := do
  let name ← (do
    if ← eatWord "global" then return NamespaceName.global
    match (← required).token with
    | .string value _ => do
      bump
      return NamespaceName.text value
    | _ => failUnexpected "global or a string literal")
  if ← isSym .openBrace then return .namespaceDecl name false (← namespaceBlock r)
  expectEnd
  return .namespaceDecl name false .absent

/-- The declaration that a word starts. The flag says that the word is still to be taken. -/
def wordDeclaration? (word : String) (ahead : Bool) : Read (Option Declaration) := do
  match word with
  | "abstract" => do
    unless ahead || ((← isWord "class") && !(← afterLineEnd)) do return none
    if ahead then bump
    return (← classDecl r true true).map .classDecl
  | "enum" => do
    unless ahead || (← isName) do return none
    if ahead then bump
    return some (.enumDecl (← enumDecl r))
  | "interface" => do
    unless ahead || (← isName) do return none
    if ahead then bump
    return some (.interfaceDecl (← interfaceDecl r))
  | "module" => do
    if ← afterLineEnd then return none
    if ahead then bump
    match (← required).token with
    | .string _ _ => return some (← externalModule r)
    | _ =>
      unless ahead || (← isName) do return none
      return some (← namespaceDecl r)
  | "namespace" => do
    unless ahead || (← isName) do return none
    if ahead then bump
    return some (← namespaceDecl r)
  | "type" => do
    unless ahead || (!(← afterLineEnd) && (← isName)) do return none
    if ahead then bump
    return some (.typeAlias (← typeAlias r))
  | _ => return none

/-- The declaration after `declare`, which started at a place. -/
def declared? (start : Nat) : Read (Option Declaration) := do
  let c ← read
  if c.inDeclare && !c.dialect.ambient then complain (← since start) .declareInAmbient
  within (fun c => { c with inDeclare := true }) do
    match ← token? with
    | some (.word "function") => return (← functionDecl r false true).map .functionDecl
    | some (.word "class") => return (← classDecl r true false).map .classDecl
    | some (.word "const") => do
      if ← peekIsWord "enum" then
        bump
        bump
        return some (.enumDecl (← enumDecl r))
      return some (← variableDecl r)
    | some (.word "var") | some (.word "let") => return some (← variableDecl r)
    | some (.word "global") => return some (← externalModule r).withDeclare
    | some t =>
      match t.name? with
      | some w => return (← wordDeclaration? r w true).map Declaration.withDeclare
      | none => return none
    | none => return none

/-- The declaration that a name standing alone turns out to start. -/
def nameDeclaration? (name : String) (start : Nat) : Read (Option Declaration) := do
  match name with
  | "declare" => return (← declared? r start).map Declaration.withDeclare
  | "global" => do
    unless ← isSym .openBrace do return none
    return some (.namespaceDecl .global false (← namespaceBlock r))
  | _ => wordDeclaration? r name false

/-! ### Statements -/

/-- What follows a name that stands alone, if that makes it more than an expression. -/
def afterName? (start : Nat) (name : String) (extent : Extent) : Read (Option Item) := do
  if name = "interface" && (← afterLineEnd) then
    complainStrict extent (.strictName name)
    let _ ← eatEnd
    return some .statement
  if ← typed then
    if let some d ← nameDeclaration? r name start then return some (.declaration d)
  if name = "enum" || name = "interface" then complainStrict extent (.strictName name)
  if (← typed) && ["public", "static", "abstract"].contains name then
    if ← eatWord "interface" then
      complain extent .invalidInterfaceName
      return some (.declaration (.interfaceDecl (← interfaceDecl r)))
  return none

def expressionEnd (start : Nat) (e : Expr) : Read Item := do
  if ← eatEnd then
    match e with
    | .string raw _ =>
      return .directive (raw = "'use strict'" || raw = "\"use strict\"") (← since start)
    | _ => return .statement
  if ← isOperator then
    complain (← here) .semicolonNeeded
    let _ ← r.binary 0 e
    return .statement
  fail .statementEndNeeded

def expressionStatement : Read Item := do
  let start ← place
  let e ← fullExpression r
  match e with
  | .name name extent => do
    if ← eat .colon then
      labelled r name extent
      return .statement
    match ← afterName? r start name extent with
    | some item => return item
    | none => expressionEnd r start e
  | _ => expressionEnd r start e

/-- A statement that is known by its `await`. Nothing has to end it. -/
def awaitStatement : Read Item := do
  let start ← place
  bump
  if ← isWord "using" then
    if let some d ← using? r start then return .declaration d
  let e ← awaitOperand r start
  let _ ← withIn (r.binary 0 e)
  let _ ← eatEnd
  return .statement

/-- Whether a word starts a type declaration here: another word follows on its line. -/
def startsTypeDecl : Read Bool := do
  typed <&&> peekIsAnyWord <&&> not <$> peekAfterLineEnd

/-- A function declaration as a statement, with its `async` taken. -/
def functionStatement (isAsync : Bool) : Read Item := do
  match ← functionDecl r isAsync true with
  | some name => return .declaration (.functionDecl name)
  | none => return .statement

/-- A statement or declaration other than an import or export. The first flag says that it stands
in a module itself, where `await` always starts a statement of its own. -/
def statement (ofModule includeDecl : Bool) : Read Item := do
  let plain (p : Read Unit) : Read Item := do
    p
    return .statement
  if ← typed <&&> isWord "const" <&&> peekIsWord "enum" then
    bump
    bump
    return .declaration (.enumDecl (← enumDecl r))
  let l ← required
  match l.token with
  | .word "await" => do
    if ← pure ofModule <||> (pure includeDecl <&&> peekIsWord "using") then awaitStatement r
    else expressionStatement r
  | .word "break" | .word "continue" => plain jumpStatement
  | .word "debugger" => plain do
    bump
    expectEnd
  | .word "do" => plain (doStatement r)
  | .word "for" => plain (forStatement r)
  | .word "function" => do
    unless includeDecl do complain l.extent .declarationInStatement
    functionStatement r false
  | .word "class" => do
    unless includeDecl do complain l.extent .declarationInStatement
    match ← classDecl r true false with
    | some name => return .declaration (.classDecl name)
    | none => return .statement
  | .word "if" => plain (ifStatement r)
  | .word "return" => plain (returnStatement r)
  | .word "switch" => plain (switchStatement r)
  | .word "throw" => plain (throwStatement r)
  | .word "catch" => plain (strayClauses r true)
  | .word "finally" => plain (strayClauses r false)
  | .word "try" => plain (tryStatement r)
  | .word "with" => plain (withStatement r)
  | .word "while" => plain (whileStatement r)
  | .word "var" => return .declaration (← variableDecl r)
  | .word "const" => do
    if includeDecl then return .declaration (← variableDecl r)
    expressionStatement r
  | .word "let" => do
    if ← pure includeDecl <&&> followsLet <$> peekToken? then
      return .declaration (← variableDecl r)
    expressionStatement r
  | .word "using" => do
    if includeDecl then
      if let some d ← using? r l.extent.start then return .declaration d
    expressionStatement r
  | .word "interface" => do
    unless ← startsTypeDecl do return ← expressionStatement r
    bump
    return .declaration (.interfaceDecl (← interfaceDecl r))
  | .word "type" => do
    unless ← startsTypeDecl do return ← expressionStatement r
    bump
    return .declaration (.typeAlias (← typeAlias r))
  | .word "enum" => do
    unless ← startsTypeDecl do return ← expressionStatement r
    bump
    return .declaration (.enumDecl (← enumDecl r))
  | .symbol .openBrace => plain do
    let _ ← block r
  | .symbol .semicolon => plain bump
  | .word "async" => do
    unless (← peekIsWord "function") && !(← peekAfterLineEnd) do
      return ← expressionStatement r
    bump
    functionStatement r true
  | _ => expressionStatement r

end TypeOnly.Source.Grammar
