import TypeOnly.Source.Grammar.Type

/-!
Blocks and functions.
-/

namespace TypeOnly.Source.Grammar

set_option autoImplicit false

open TypeOnly.Text (Extent)
open Read

variable (r : Rules)

/-- The items of a block up to its closing brace, which is taken. The flag allows imports and
exports. -/
def blockItems (modular : Bool) : Read (List Item) := do
  let items ← collect (do
    if ← atEnd then
      complain (← here) (.expected "\x7d" (← found))
      return none
    if ← isSym .closeBrace then return none
    let i ← r.item modular true
    return some i)
  bump
  return items

def block : Read (List Item) := do
  expect .openBrace
  blockItems r false

/-! ### Bodies -/

/-- The first order to be strict among the strings at the start of a body. -/
def strictOrder? : List Item → Option Extent
  | .directive true extent :: _ => some extent
  | .directive false _ :: rest => strictOrder? rest
  | _ => none

/-- A body cannot order to be strict what came before it, unless that was plain names. -/
def checkDirectives (simple : Bool) (items : List Item) : Read Unit := do
  unless simple do
    if let some extent := strictOrder? items then complain extent .strictDirective

def insideFunction (isAsync isGenerator : Bool) (c : Context) : Context :=
  { c with
    inAsync := isAsync, inGenerator := isGenerator, inFunction := true, inStaticBlock := false,
    inType := false, breakAllowed := false, continueAllowed := false, labels := [] }

/-- Where nothing is implemented, a body is out of place. -/
def complainAboutBody : Read Unit := do
  if (← read).inDeclare && (← typed) && (← isSym .openBrace) then
    complain (← here) .implementationInAmbient

/-- The body of a function, and whether there is one: a typed one can be a mere signature. -/
def functionBody (isAsync isGenerator simple : Bool) : Read Bool := do
  complainAboutBody
  within (fun c =>
      { insideFunction isAsync isGenerator c with inOwnFunction := true, colonAhead := false }) do
    if (← typed) && !(← isSym .openBrace) then
      if ← eatEnd then return false
    checkDirectives simple (← withIn (block r))
    return true

/-- The body of an arrow function: a block or an expression. Says whether it is a block. -/
def arrowBody (isAsync simple : Bool) : Read Bool := do
  complainAboutBody
  within (insideFunction isAsync false) do
    if ← isSym .openBrace then
      checkDirectives simple (← block r)
      return true
    else
      let _ ← r.assignment
      return false

/-! ### Functions -/

/-- Parameters, return type and body of a function, with a check of the parameters; gives the
parameters and whether there is a body. -/
def functionTailWith (check : List Parameter → Read Unit) (isAsync isGenerator : Bool) :
    Read (List Parameter × Bool) :=
  within (fun c => { c with inAsync := isAsync, inGenerator := isGenerator }) do
    if ← typed <&&> isToken .tagStart then
      leaveTag
      let _ ← typeParameters r .ofFunction
    else typeParameters? r .ofFunction
    expect .openParen
    let ps ← within (fun c => { c with inParameters := true, inFunction := false }) do
      let ps ← parameters r false
      check ps
      return ps
    expect .closeParen
    if (← typed) && (← isSym .colon) then returnType r .colon
    let hasBody ← functionBody r isAsync isGenerator (Parameter.areSimple ps)
    if (← typed) && !hasBody then
      for p in ps do
        match p.pattern with
        | .withDefault _ extent => complain extent .initializerInSignature
        | _ => pure ()
    return (ps, hasBody)

def functionTail (isAsync isGenerator : Bool) : Read Bool := do
  return (← functionTailWith r (fun _ => return ()) isAsync isGenerator).2

/-- A getter has no parameters. -/
def checkGetter (extent : Extent) (ps : List Parameter) : Read Unit := do
  unless ps.all Parameter.isThis do complain extent .getterWithParameter

/-- A setter has one parameter, which is no rest. -/
def checkSetter (extent : Extent) (ps : List Parameter) : Read Unit := do
  if (ps.filter fun p => !p.isThis).length != 1 then complain extent .setterParameterCount
  if let some p := ps.head? then
    if p.pattern.isRest then complain p.pattern.extent .setterRest

def optionalName : Read (Option (String × Extent)) := do
  if (← isName) || ((← typed) && (← isWord "this")) then return some (← bindingName)
  else return none

def ownArguments (c : Context) : Context :=
  { c with inField := false, inMethod := false, colonAhead := false }

def insideMethod (c : Context) : Context := { c with inField := false, inMethod := true }

/-- A function from its keyword on; gives its name. -/
def functionDecl (isAsync nameNeeded : Bool) : Read (Option String) := do
  bump
  let isGenerator ← eat .star
  within ownArguments do
    let name ← if nameNeeded then some <$> bindingName else optionalName
    let _ ← functionTail r isAsync isGenerator
    return name.map Prod.fst

def functionExpr (isAsync : Bool) : Read Unit := do
  bump
  let isGenerator ← eat .star
  within ownArguments do
    let _ ← within
      (fun c => { c with inAsync := isAsync, inGenerator := isGenerator }) optionalName
    unless ← functionTail r isAsync isGenerator do failUnexpected "\x7b"

end TypeOnly.Source.Grammar
