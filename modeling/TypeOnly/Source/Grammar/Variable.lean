import TypeOnly.Source.Grammar.Expression

/-!
Variables and the loops that declare them in their heads.
-/

namespace TypeOnly.Source.Grammar

set_option autoImplicit false

open TypeOnly.Text (Extent)
open Read

variable (r : Rules)

/-! ### Variables -/

structure Declarator where
  pattern : Pattern
  hasType : Bool
  hasValue : Bool

/-- One variable with its type and value. In the head of a loop the value may come from the
loop. -/
def declarator (kind : String) (inLoop : Bool) : Read Declarator := do
  let start ← place
  let pattern ← r.binding
  if (← typed) && pattern.isName then
    let _ ← eat .bang
  let hasType ← annotation? r
  if inLoop && (← isWordOf ["in", "of"]) then return ⟨pattern, hasType, false⟩
  if ← eat .equals then
    let _ ← r.assignment
    return ⟨pattern, hasType, true⟩
  unless (← read).inDeclare do
    if kind = "const" then complain (← since start) .constWithoutValue
    else unless pattern.isName do failAt (← since start) .patternWithoutValue
  return ⟨pattern, hasType, false⟩

def declarators (kind : String) (inLoop : Bool) : Read (List Declarator) := do
  let keyword := (← get).last
  let got ← iterate (fun (got : List Declarator) => do
    if (← isSym .semicolon) || (← atEnd) then
      let last := (← get).last
      complain (if last = keyword then .empty last.stop else last) .trailingComma
      return (got, false)
    let d ← declarator r kind inLoop
    return (d :: got, ← eat .comma)) []
  return got.reverse

/-- Passes over the rest of a statement that does not end where it should. -/
def skipStatement : Read Unit := do
  complain (← here) .semicolonNeeded
  recover (do
    let _ ← sequence r) (fun _ => return ())
  loop do
    if ← eatEnd then return false
    bump
    match ← token? with
    | some (.bad _) => return false
    | _ => return true

/-- Whether a loop head declares no variable at all: its element or key comes right after the
keyword. -/
def declaresNothing : Read Bool := do
  unless (← typed) && (← isWordOf ["in", "of"]) do return false
  lookAhead do
    bump
    let _ ← r.assignment
    expect .closeParen
    return true

/-- A variable declaration from its keyword on. In the head of a loop, `in` is an operator in the
values of a `var` only where it is one around the loop. -/
def variableList (inLoop : Bool) : Read (List Declarator) := do
  let kind ← found
  bump
  let keyword := (← get).last
  if ← pure inLoop <&&> declaresNothing r then
    complain (.empty keyword.stop) .noVariables
    return []
  let ds ← if kind = "var" && inLoop then declarators r kind inLoop
    else withIn (declarators r kind inLoop)
  unless inLoop do
    unless ← eatEnd do skipStatement r
  return ds

def variableDecl : Read Declaration := do
  let ds ← variableList r false
  return .variableDecl (ds.map (·.pattern.binding))

/-- Whether the token after `let` makes it a declaration. -/
def followsLet : Option Token → Bool
  | some (.symbol .openBracket) | some (.symbol .openBrace) => true
  | some (.word w) => !isGrammarWord w || ["yield", "let", "await"].contains w
  | some (.plainWord _) => true
  | _ => false

/-- `using` and its variables, if it declares some; the statement started at a place. -/
def using? (start : Nat) : Read (Option Declaration) := do
  if ← peekAfterLineEnd then return none
  unless ← peekIsName do return none
  bump
  let ds ← declarators r "var" false
  let extent ← since start
  unless ← typed do complain extent .usingNotEnabled
  for d in ds do
    unless d.pattern.isName do complain extent .usingPattern
    unless d.hasValue do complain extent .usingWithoutValue
  return some .resource

/-! ### Loops -/

def insideLoop (c : Context) : Context := { c with breakAllowed := true, continueAllowed := true }

/-- What a loop runs over. -/
inductive LoopKind where
  | counting
  | keys
  | elements
deriving DecidableEq

/-- The rest of a loop head with semicolons. -/
def countingHead : Read LoopKind := do
  unless ← eat .semicolon do
    let _ ← fullExpression r
    expect .semicolon
  unless ← isSym .closeParen do
    let _ ← fullExpression r
  return .counting

/-- The rest of a loop head over elements or keys. A resource, which has a place, is not declared
over keys. -/
def elementHead (resource : Option Extent) : Read LoopKind := do
  if ← eatWord "of" then
    let _ ← withIn r.assignment
    return .elements
  bump
  if let some extent := resource then complain extent .usingOverKeys
  let _ ← fullExpression r
  return .keys

def checkLoopVariables (ds : List Declarator) : Read Unit := do
  match ds with
  | [d] => do
    if d.hasValue then complain d.pattern.extent .loopVariableWithValue
    if (← typed) && d.hasType then complain d.pattern.extent .loopVariableWithType
  | _ => for d in ds.drop 1 do complain d.pattern.extent .severalLoopVariables

/-- Whether an expression at the start of a loop head is really `using`, in front of a name. -/
def declaresResource (e : Expr) : Read Bool := do
  unless ← typed do return false
  unless isUsing do return false
  if ← isWord "of" then return false
  peekIsWord "of" <||> peekIsWord "in"
where
  isUsing : Bool :=
    match e with
    | .name "using" _ => true
    | .awaited (some "using") _ => true
    | _ => false

def loopHead : Read LoopKind := do
  let declares ← (do
    if ← isWordOf ["const", "var"] then return true
    if ← isWord "let" then return followsLet (← peekToken?)
    return false)
  if declares then
    let ds ← variableList r true
    if ← isWordOf ["of", "in"] then
      checkLoopVariables ds
      return ← elementHead r none
    expect .semicolon
    return ← countingHead r
  if ← eat .semicolon then return ← countingHead r
  let start ← place
  let init ← within (fun c => { c with allowIn := false }) (sequence r)
  if ← declaresResource init then
    let _ ← bindingName
    let extent ← since start
    let _ ← required
    return ← elementHead r (some extent)
  if ← isWordOf ["of", "in"] then
    let target ← asPattern .target init
    if (← typed) && (← isWord "in") then
      unless target.isPlace do complain target.extent .loopVariablePattern
    return ← elementHead r none
  expect .semicolon
  countingHead r

def forStatement : Read Unit := do
  bump
  let isAwait ← eatWord "await"
  let awaitExtent := (← get).last
  expect .openParen
  let kind ←
    within (fun c => { c with inLoopHead := true, inAwaitLoopHead := isAwait }) (loopHead r)
  expect .closeParen
  let _ ← within insideLoop (r.item false false)
  if isAwait && kind != .elements then failAt awaitExtent .awaitWithoutOf

end TypeOnly.Source.Grammar
