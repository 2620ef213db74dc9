import TypeOnly.Source.Grammar.Function

/-!
Assignments, conditionals and parentheses. What stands in parentheses may turn out to be the
parameters of an arrow function, so it is kept until the arrow is seen or missed.
-/

namespace TypeOnly.Source.Grammar

set_option autoImplicit false

open TypeOnly.Text (Extent)
open Read

variable (r : Rules)

/-! ### Assignments and conditionals -/

/-- Notes that nothing can be computed and stored in an expression. -/
def checkCompoundTarget (e : Expr) : Read Unit := do
  unless e.isTarget do
    complain e.extent (if ← typed then .invalidTarget else .notAssignable)
  if ← typed then
    match e with
    | .name id extent =>
      if id = "eval" || id = "arguments" then complainStrict extent .assignsArguments
    | _ => pure ()

def finishAssignment (start : Nat) (left : Expr) : Read Expr := do
  match ← token? with
  | some (.symbol .equals) => do
    let target ← asPattern .target left
    match target with
    | .place extent => unless left.hasTargetForm do failAt extent .notATarget
    | _ => pure ()
    bump
    let _ ← r.assignment
    return .assign left target (← since start)
  | some (.symbol (.compound _)) => do
    checkCompoundTarget left
    unless left.hasTargetForm do failAt left.extent .notATarget
    bump
    let _ ← r.assignment
    return .compound (← since start)
  | _ => return left

def conditionalBranches (start : Nat) : Read Expr := do
  let _ ← within
    (fun c => { c with inConditional := true, colonAhead := true, allowIn := true }) r.assignment
  expect .colon
  let other ← within (fun c => { c with inConditional := true, colonAhead := false }) r.assignment
  return .conditional (between start other.extent.stop)

/-! ### Parentheses -/

/-- An operand in parentheses; an assignment counts from a place on. In typed code a question mark
after a name may be part of a parameter, so that a conditional is not read at once. -/
def parenOperand (start : Nat) : Read Expr := do
  unless ← typed do return ← element r
  let spread ← isSym .ellipsis <&&> peekIsName
  unless spread || (← isName) do return ← element r
  if spread then
    let start ← place
    bump
    let inner ← withIn r.operation
    return .spread inner (between start inner.extent.stop)
  let e ← r.operation
  if ← isAssignment then finishAssignment r start e else return e

/-- The question mark after an operand in parentheses: that of a parameter, which is said, or that
of a conditional. -/
def parenQuestion (start : Nat) (e : Expr) : Read (Expr × Bool) := do
  unless (← typed) && (← isSym .question) do return (e, false)
  let isSpread : Bool := match e with
    | .spread _ _ => true
    | _ => false
  let peeked ← peekToken?
  let ofParameter : Bool := match peeked with
    | some (.symbol s) => [.comma, .colon, .closeParen, .equals].contains s
    | _ => false
  if ofParameter then
    bump
    if isSpread then complain (← get).last .restParameterOptional
    match e with
    | .name _ _ | .spread (.name _ _) _ => return (e, true)
    | _ => failAt e.extent .optionalPattern
  if isSpread then return (e, false)
  bump
  return (← conditionalBranches r start, false)

/-- A parameter with its type and default, after its name and question mark. -/
def parenParameter (start : Nat) (e : Expr) : Read Pattern := do
  let p ← (do
    match e with
    | .spread inner _ => do
      let inner ← asPattern .binding inner
      return Pattern.rest inner (← since start)
    | e => asPattern .binding e)
  let p ← (do
    match p with
    | .invalid _ | .withDefault _ _ => return p
    | _ => do
      unless ← annotation? r do return p
      return p.withExtent (← since start))
  if ← eat .equals then
    let value ← r.assignment
    return .withDefault p (between start value.extent.stop)
  return p

def parenItem : Read ParenItem := do
  let start ← place
  within (fun c => { c with arrowAt := some start }) do
    let modified ← eatParameterModifier
    let itemStart ← place
    let e ← parenOperand r start
    let (e, optional) ← parenQuestion r start e
    let item ← (do
      if optional || ((← typed) && (← isSym .colon)) then
        return ParenItem.pattern (← parenParameter r itemStart e)
      return ParenItem.expr e)
    if modified then complain (← since start) .modifierOnParameter
    return item

def startsWithName (items : List ParenItem) : Bool :=
  match items with
  | .expr (.name _ _) :: _ | .expr (.spread (.name _ _) _) :: _ | .pattern (.name _ _) :: _ => true
  | _ => false

/-- What stands in parentheses, with the comma after the last item. -/
def parenItems : Read (List ParenItem × Option Extent) :=
  within (fun c => { c with colonAhead := false, allowIn := true }) do
    expect .openParen
    let (items, comma) ← iterate (fun ((got, comma) : List ParenItem × Option Extent) => do
      if (← atEnd) || (← isSym .closeParen) then return ((got, comma), false)
      let start ← place
      let got := (← parenItem r) :: got
      let got ← (do
        if (← eat .arrow) && startsWithName got.reverse then
          let ps ← parameterPatterns none got.reverse
          let _ ← arrowBody r false (ps.all Pattern.isName)
          return .expr (.arrow (← since start)) :: got
        return got)
      let comma ← (do
        unless ← isSym .closeParen do
          expect .comma
          if ← isSym .closeParen then return some (← get).last
        return comma)
      return ((got, comma), true)) (([], none) : List ParenItem × Option Extent)
    expect .closeParen
    return (items.reverse, comma)

/-- An arrow function in a branch of a conditional, from its return type on. A colon that is
awaited must be left for the other branch. -/
def conditionalArrow? (isAsync : Bool) (start : Nat) (items : List ParenItem) :
    Read (Option Expr) := do
  unless (← typed) && (← read).inConditional && (← isSym .colon) do return none
  attempt do
    returnType r .colon
    expect .arrow
    let ps ← parameterPatterns none items
    let _ ← arrowBody r isAsync (ps.all Pattern.isName)
    if (← read).colonAhead && !(← isSym .colon) then return none
    return some (.arrow (← since start))

def arrowReturn? : Read Bool := do
  unless !(← read).colonAhead && (← typed) && (← isSym .colon) do return false
  let got ← attempt do
    returnType r .colon
    if ← isSym .arrow then return some () else return none
  return got.isSome

/-- The arrow and body of an arrow function. After a body in braces no operator can follow. -/
def arrowTail (isAsync allowed : Bool) (start : Nat) (items : List ParenItem)
    (comma : Option Extent) : Read Expr := do
  if ← afterLineEnd then failAt (← since start) .arrowAfterLineBreak
  unless allowed do failAt (← since start) .arrowHere
  expect .arrow
  let ps ← parameterPatterns comma items
  let isBlock ← arrowBody r isAsync (ps.all Pattern.isName)
  let e := Expr.arrow (← since start)
  unless isBlock && (← isOperator) do return e
  complain (← here) .semicolonNeeded
  let e ← r.binary 0 e
  unless ← atStatementEnd do complain (← here) .semicolonNeeded
  return e

/-- The items of parentheses that are not those of an arrow function. -/
def parenExpressions (items : List ParenItem) : Read (List Expr) := do
  for item in items do
    match item with
    | .expr (.object properties _) | .expr (.spread (.object properties _) _) =>
      for p in properties do
        match p with
        | .shorthandValue _ _ extent => complain extent .assignedShorthand
        | _ => pure ()
    | _ => pure ()
  items.mapM fun
    | .expr e => return e
    | .pattern p => failAt p.extent .notAnExpression

/-- An expression in parentheses or an arrow function, or a call of something named `async`. -/
def parenthesized (allowed : Bool) (async? : Option Extent) : Read Expr := do
  let start ← (match async? with
    | some extent => return extent.start
    | none => place)
  let isAsync := async?.isSome
  let (items, comma) ← parenItems r
  if let some e ← conditionalArrow? r isAsync start items then return e
  let hasReturn ← arrowReturn? r
  if hasReturn || items.any ParenItem.isPattern || (← isSym .arrow) then
    return ← arrowTail r isAsync allowed start items comma
  let expressions ← parenExpressions items
  if isAsync then return .call (← since start)
  match expressions with
  | [] => failAt (← since start) .emptyParentheses
  | [.spread inner _] => failAt inner.extent .spreadInParentheses
  | [e] => return .paren e (← since start)
  | first :: others => do
    for e in expressions do
      match e with
      | .spread inner _ => failAt inner.extent .spreadInParentheses
      | _ => pure ()
    let last := (others.getLast?.getD first).extent
    return .paren (.other (between first.extent.start last.stop)) (← since start)

/-! ### Arrow functions -/

def genericAsyncArrow? (start : Nat) : Read (Option Expr) := do
  unless (← isSym .less) || (← isToken .tagStart) do return none
  let head ← attempt do
    let _ ← typeParameters r .ofFunction
    expect .openParen
    let ps ← parameters r false
    expect .closeParen
    if ← isSym .colon then returnType r .colon
    expect .arrow
    return some (Parameter.areSimple ps)
  match head with
  | none => return none
  | some simple => do
    let _ ← within (fun c => { c with inAsync := true, inGenerator := false })
      (arrowBody r true simple)
    return some (.arrow (← since start))

def arrowAllowed : Read Bool := do
  return (← read).arrowAt == some (← place)

/-- What the word `async` starts, other than a plain name. -/
def asyncStart? : Read (Option Expr) := do
  let start ← place
  if (← peekIsWord "function") && !(← peekAfterLineEnd) then
    bump
    functionExpr r true
    return some (.value (← since start))
  unless ← arrowAllowed do return none
  if ← typed <&&> peekIsSym .less then
    let arrow ← attempt do
      bump
      genericAsyncArrow? r start
    if let some e := arrow then return some e
  if (← peekIsSym .openParen) && !(← peekAfterLineEnd) then
    let extent ← here
    bump
    return some (← parenthesized r true (some extent))
  return none

/-- An arrow function after its `async`, from its one parameter on. In the head of a loop, `async`
in front of `of` is a name. -/
def asyncNameArrow (start : Nat) (async : Extent) : Read Expr := do
  let c ← read
  if ← pure c.inLoopHead <&&> isWord "of" <&&> not <$> peekIsSym .arrow then
    unless c.inAwaitLoopHead do complain async .asyncLoopVariable
    return .name "async" async
  let (name, _) ← within (fun c => { c with inAsync := true }) bindingName
  if (← typed) && name = "as" && !(← isSym .arrow) then
    asType r.type
    return .asserted (.name "async" async) .cast (← since start)
  expect .arrow
  let _ ← arrowBody r true true
  return .arrow (← since start)

def nameOrArrow : Read Expr := do
  let start ← place
  let allowed ← arrowAllowed
  let (name, extent) ← identifier
  if strictWords.contains name || (name = "await" && !(← read).inDeclare) then
    complainStrict extent (.strictName name)
  if allowed && name = "async" && !(← afterLineEnd) && (← isName) then
    return ← asyncNameArrow r start extent
  if allowed && !(← afterLineEnd) then
    if ← eat .arrow then
      if name = "eval" || name = "arguments" then complainStrict extent .strictBinding
      let _ ← arrowBody r false true
      return .arrow (← since start)
  return .name name extent

end TypeOnly.Source.Grammar
