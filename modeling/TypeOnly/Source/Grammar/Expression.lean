import TypeOnly.Source.Grammar.Arrow
import TypeOnly.Source.Grammar.Class
import TypeOnly.Source.Grammar.Literal
import TypeOnly.Source.Grammar.Markup

/-!
Expressions.
-/

namespace TypeOnly.Source.Grammar

set_option autoImplicit false

open TypeOnly.Text (Extent)
open Read

variable (r : Rules)

/-! ### Primary expressions -/

def templateLiteral (tagged : Bool) : Read Unit :=
  template tagged (do
    let _ ← fullExpression r)

/-- What a token alone decides about an expression. -/
def primaryStart? : Read (Option Expr) := do
  let start ← place
  match ← token? with
  | some (.word "this") => do
    bump
    return some (.other (← since start))
  | some (.word "async") => asyncStart? r
  | some (.symbol .openBracket) => return some (← arrayLiteral r)
  | some (.symbol .openBrace) => return some (← objectLiteral r)
  | some (.word "function") => do
    functionExpr r false
    return some (.value (← since start))
  | some (.word "null") | some (.word "true") | some (.word "false")
  | some (.number _) | some (.bigint _) => do
    bump
    return some (.literal (← since start))
  | some (.string _ raw) => do
    bump
    return some (.string raw (← since start))
  | some (.symbol .slash) | some (.symbol (.compound "/=")) => regex?
  | some (.symbol .backtick) => do
    within (fun c => { c with colonAhead := false }) (templateLiteral r false)
    return some (.value (← since start))
  | some (.symbol .openParen) => do
    return some (← parenthesized r (← arrowAllowed) none)
  | _ => return none

def primary : Read Expr := do
  let start ← place
  if let some e ← primaryStart? r then return e
  let _ ← decorators r false
  if ← isWord "class" then
    let _ ← classDecl r false false
    return .value (← since start)
  if (← isWord "let") || (← isName) || ((← typed) && (← isWord "await")) then
    return ← nameOrArrow r
  if ← eat .hash then
    let _ ← anyName
    return .privateName (← since start)
  fail .expressionNeeded

/-! ### Calls and properties -/

/-- Whether the current token starts an expression after type arguments. -/
def startsOperand : Read Bool := do
  match ← token? with
  | some (.symbol s) =>
    if s = .hash then return ← peekIsAnyWord
    return [.openBracket, .openBrace, .bang, .tilde, .increment, .decrement].contains s
  | some (.word "import") => peekIsSym .openParen <||> peekIsSym .less <||> peekIsSym .dot
  | some (.word w) =>
    return !isReserved w || ["this", "super", "null", "true", "false", "function", "class", "new",
      "delete", "typeof", "void", "await", "yield"].contains w
  | some (.plainWord _) | some (.string _ _) | some (.number _) | some (.bigint _)
  | some (.regex _ _) => return true
  | _ => return false

/-- Type arguments that stand for themselves: nothing follows that they could be applied to. -/
def instantiation? : Read Bool := do
  unless (← typed) && (← isSym .less) do return false
  let got ← attempt do
    typeArguments r
    if ← isOneOf [.less, .greater, .plus, .minus, .openParen, .backtick] then return none
    if (← afterLineEnd) || (← isOperator) || !(← startsOperand) then return some ()
    return none
  return got.isSome

/-- What a step of calls and properties made, and whether there can be more. -/
abbrev Step := Expr × Bool

def taggedTemplate (tag : Expr) : Read Expr := do
  templateLiteral r true
  let extent ← since tag.extent.start
  match tag with
  | .chain _ _ _ => complain extent .templateAfterOptional
  | _ => pure ()
  return .other extent

/-- A call or template with type arguments, if they are some. -/
def typedCall? (noCall : Bool) (obj : Expr) : Read (Option Step) := do
  let start := obj.extent.start
  attempt do
    match obj with
    | .name "async" _ => do
      unless noCall || (← read).arrowAt != some start do
        if let some e ← genericAsyncArrow? r start then return some (e, true)
    | _ => pure ()
    typeArguments r
    if !noCall && (← isSym .openParen) then
      arguments r false
      let extent ← since start
      return some (if obj.isChain then .chain false false extent else .call extent, true)
    if ← isSym .backtick then
      return some (← taggedTemplate r obj, true)
    if (← isSym .equals) || (← isWord "as") then
      return some (.instantiated obj (← since start), false)
    return none

/-- A property of an object, once it is read. The flag says that a question mark stood before. -/
def propertyOf (obj : Expr) (noCall optional hidden : Bool) : Read Expr := do
  let start := obj.extent.start
  let extent ← since start
  let instantiated ← instantiation? r
  match obj with
  | .super _ => do
    let fault : Fault := if noCall then .superCall else .superHere
    unless (← typed) || (← read).inMethod do fail .superHere
    if optional then fail fault
    if hidden then fail .superCall
    return .superMember extent
  | .importing _ => failUnexpected "meta"
  | _ => do
    let e : Expr := if optional || obj.isChain then .chain true optional extent else .member extent
    if instantiated then return .instantiated e (← since start)
    return e

def subscript (noCall noComputed : Bool) (obj : Expr) : Read Step := do
  let start := obj.extent.start
  if ← typed then
    if !(← afterLineEnd) && (← isSym .bang) then
      setExpressionAllowed false
      bump
      if let some word := obj.keyword? then fail (.assertedName word)
      return (.asserted obj .present (← since start), true)
    if obj.keyword?.isNone && (← isSym .less) then
      if let some step ← typedCall? r noCall obj then return step
  let instantiated ← instantiation? r
  match obj with
  | .importing _ => unless ← isOneOf [.dot, .openParen] do failUnexpected "`.` or `(`"
  | _ => pure ()
  let optional ← isSym .question <&&> peekIsSym .dot <&&> eat .question
  let atDot := optional && (← isSym .dot)
  if !noComputed then
    if ← pure atDot <&&> peekIsSym .openBracket then bump
    if ← eat .openBracket then
      let _ ← fullExpression r
      expect .closeBracket
      return (← propertyOf r obj noCall optional false, true)
  let optionalCall ← pure atDot <&&>
    (peekIsSym .openParen <||> (typed <&&> peekIsSym .less)) <&&> eat .dot
  if optionalCall || (!noCall && (← isSym .openParen)) then
    if (← typed) && (← isSym .less) then typeArguments r
    arguments r obj.isImport
    let extent ← since start
    if optional || obj.isChain then
      if obj.keyword?.isSome then fail .superCallOptional
      return (.chain false optional extent, true)
    return (.call extent, true)
  if ← eat .dot then
    let hidden ← isSym .hash
    let _ ← if hidden then privateName else anyName
    return (← propertyOf r obj noCall optional hidden, true)
  match obj with
  | .super _ => fail (if noCall then .superCall else .superHere)
  | .importing _ => fail .importHere
  | _ => do
    if instantiated then return (.instantiated obj (← since start), false)
    unless ← isSym .backtick do return (obj, false)
    return (← within (fun c => { c with colonAhead := false }) (taggedTemplate r obj), true)

def subscripts (noCall noComputed : Bool) (obj : Expr) : Read Expr :=
  iterate (subscript r noCall noComputed) obj

/-- A module that is asked for at run time, or what is known of this one, after the keyword. -/
def importExpr (start : Nat) (noCall : Bool) : Read Expr := do
  if ← eat .dot then
    let (name, _) ← anyName
    if name = "meta" then return ← subscripts r noCall false (.other (← since start))
    unless name = "defer" || name = "source" do failUnexpected "meta"
  subscripts r noCall false (.importing (← since start))

def construction (start : Nat) : Read Expr := do
  if ← eat .dot then
    unless ← eatWord "target" do failUnexpected "target"
    let extent ← since start
    let c ← read
    unless c.inOwnFunction || c.inParameters || c.inClass do
      complain extent .newTargetOutsideFunction
    return ← subscripts r true false (.other extent)
  let e ← r.callee
  if e.isArrow then return e
  match e with
  | .chain _ true extent => failAt extent .newOptional
  | _ => pure ()
  if ← typed <&&> isSym .less then
    let _ ← attempt do
      typeArguments r
      if ← isSym .openParen then return some () else return none
  if ← isSym .openParen then
    arguments r false
    return ← subscripts r true false (.construct true (← since start))
  return .construct false (← since start)

/-- What is called or created, with its properties but without calls. Angle brackets in it are
operators, also where a type stands around it. -/
def callee : Read Expr := asValue do
  let start ← place
  if ← eatWord "new" then return ← construction r start
  if ← eatWord "super" then return ← subscripts r true false (.super (← since start))
  if ← eatWord "import" then return ← importExpr r start true
  let e ← primary r
  if e.isArrow then return e
  let e ← (do
    if ← instantiation? r then return Expr.instantiated e (← since start)
    return e)
  subscripts r true false e

def markupStart? : Read (Option Expr) := do
  unless ← hasMarkup do return none
  let start ← place
  match (← required).token with
  | .markupText _ => do
    bump
    return some (.literal (← since start))
  | .tagStart => do
    r.markup
    return some (.other (← since start))
  | .symbol .less => do
    if ← peekIsSym .bang then return none
    r.markup
    return some (.other (← since start))
  | _ => return none

/-- What can stand on the left of an assignment. -/
def leftHandSide : Read Expr := do
  let start ← place
  if let some e ← markupStart? r then return e
  if ← eatWord "super" then return ← subscripts r false false (.super (← since start))
  if ← eatWord "import" then return ← importExpr r start false
  let e ← r.callee
  if e.isArrow then return e
  let hasTypes ← (do
    unless (← typed) && ((← isSym .less) || (← isSym (.operator "<<"))) do return false
    let got ← attempt do
      typeArguments r
      if ← isSym .openParen then return some () else return none
    return got.isSome)
  match e with
  | .construct false _ => do
    if hasTypes then expect .openParen
    return e
  | _ => do
    unless ← isSym .openParen do return e
    arguments r e.isImport
    let extent ← since start
    subscripts r false false (if e.isChain then .chain false false extent else .call extent)

/-! ### Operators -/

def awaitOperand (start : Nat) : Read Expr := do
  let extent ← since start
  if ← isSym .star then fail .awaitStar
  let c ← read
  if !c.inAsync && ((← isOneOf [.closeParen, .closeBracket, .comma]) || (← atStatementEnd)) then
    complain extent .awaitAsName
    return .name "await" extent
  if c.inFunction && !c.inAsync then complain (← here) .awaitOutsideAsync
  if c.inParameters && !c.inFunction then complain extent .awaitInParameter
  let name := match ← r.unary with
    | .name id _ => some id
    | _ => none
  return .awaited name (← since start)

def checkDeleted (e : Expr) : Read Unit := do
  match e with
  | .name _ extent => complainStrict extent .deleteOfName
  | _ => pure ()
  if ← typed then
    match e.bare with
    | .member _ | .chain true _ _ => pure ()
    | inner => complain inner.extent .deleteOfValue

/-- An operand of an operator that stands in front of it; a missing one is noted. -/
def prefixed (start : Nat) : Read Expr := do
  let isDelete ← isWord "delete"
  bump
  let before := (← place) - 1
  let e ← recover r.unary (fun i => do
    report i
    return .invalid (.empty before))
  if isDelete then checkDeleted e
  return .unary (between start e.extent.stop)

/-- An operand with the operators directly around it. -/
def unary : Read Expr := do
  let start ← place
  if ← typed <&&> not <$> hasMarkup <&&> eat .less then
    let isConst ← eatWord "const"
    if isConst then expect .greater
    else asType do
      r.type
      expect .greater
    let inner ← r.unary
    return .asserted inner (if isConst then .const else .angle) (← since start)
  if ← isOneOf [.increment, .decrement] then
    bump
    let e ← r.unary
    checkTarget e false
    return .update (between start e.extent.stop)
  if (← isWordOf ["delete", "void", "typeof"]) || (← isOneOf [.plus, .minus, .tilde, .bang]) then
    return ← prefixed r start
  if ← eatWord "await" then return ← awaitOperand r start
  let e ← r.leftHandSide
  if e.isArrow then return e
  if ← afterLineEnd then return e
  if ← isOneOf [.increment, .decrement] then
    checkTarget e false
    bump
    return .update (← since start)
  return e

/-- The operator at the current token, and how tightly it binds. -/
def operatorHere? : Read (Option (String × Nat)) := do
  match ← token? with
  | some (.word "in") => if (← read).allowIn then return some ("in", 7) else return none
  | some (.word "instanceof") => return some ("instanceof", 7)
  | some (.symbol s) => return s.precedence?.map fun p => (s.text, p)
  | _ => return none

/-- Types that are said of an operand. `as` binds like a comparison, and has to stand above a
precedence; `satisfies` binds to whatever is right before it. -/
def assertions (above : Nat) (left : Expr) : Read Expr :=
  iterate (fun (left : Expr) => do
    unless (← typed) && !(← afterLineEnd) do return (left, false)
    let start := left.extent.start
    if ← eatWord "satisfies" then
      asType r.type
      return (.asserted left .satisfies (← since start), true)
    unless above < 7 && (← isWord "as") do return (left, false)
    let isConst ← peekIsWord "const"
    bump
    if isConst then bump else asType r.type
    return (.asserted left (if isConst then .const else .cast) (← since start), true)) left

/-- Notes `&&` and `||` next to `??`. -/
def checkNullish (left right : Expr) : Read Unit := do
  if left.isLogical then complain left.extent .mixedNullish
  if right.isLogical then complain right.extent .mixedNullish

/-- One operator above a precedence, with its right operand. -/
def binaryStep (above : Nat) (left : Expr) : Read Step := do
  let left ← assertions r above left
  match ← operatorHere? with
  | none => return (left, false)
  | some (op, precedence) => do
    if precedence ≤ above then return (left, false)
    bump
    match left with
    | .unary _ | .awaited _ _ => if op = "**" then failAt (← hereKnown) .unaryBeforePower
    | _ => pure ()
    let operand ← r.unary
    let right ← r.binary (if op = "**" then precedence - 1 else precedence) operand
    if op = "??" then checkNullish left right
    return (.binary op left.operator? (between left.extent.start right.extent.stop), true)

/-- The operators above a precedence that follow an operand. -/
def binary (above : Nat) (left : Expr) : Read Expr :=
  iterate (fun (left : Expr) => do
    let (e, more) ← binaryStep r above left
    match e with
    | .binary op (some "??") extent =>
      if op = "&&" || op = "||" then complain extent .mixedNullish
    | _ => pure ()
    return (e, more)) left

/-- Operands and operators. An operator without a left operand is noted. -/
def operation : Read Expr := do
  let left ← recover r.unary (fun i => do
    let l ← required
    let allowIn := (← read).allowIn
    let isOperator := match l.token with
      | .word "in" => allowIn
      | .word "instanceof" => true
      | .symbol s => s.isBinary
      | _ => false
    unless isOperator do throw i
    complain l.extent .expressionNeeded
    return .invalid i.extent)
  if left.isArrow then return left
  r.binary 0 left

def conditional : Read Expr := do
  let start ← place
  let test ← r.operation
  if test.isArrow then return test
  if ← eat .question then conditionalBranches r start else return test

def yieldExpr : Read Expr := do
  let start ← place
  bump
  let c ← read
  if c.inParameters && !c.inFunction then failAt (← get).last .yieldInParameter
  let isAlone ← (do
    if ← atStatementEnd then return true
    if (← isOneOf [.star, .slash]) || (← isSym (.compound "/=")) then return false
    match ← token? with
    | some t => return !t.startsExpression
    | none => return false)
  if isAlone then return .yielded (← since start)
  let _ ← eat .star
  let _ ← r.assignment
  return .yielded (← since start)

def startsArrow : Token → Bool
  | .word w => !isGrammarWord w || w = "yield"
  | .plainWord _ => true
  | .symbol .openParen => true
  | _ => false

/-- An assignment that does not start with type parameters. -/
def plainAssignment : Read Expr := do
  if (← read).inGenerator && (← isWord "yield") then return ← yieldExpr r
  let l ← required
  let start := l.extent.start
  let arrowAt := if startsArrow l.token then some start else none
  within (fun c => { c with arrowAt }) do
    let e ← conditional r
    if e.isArrow || e.isOperation then return e
    finishAssignment r start e

def genericArrow? : Read (Option Expr) := do
  unless (← typed) && ((← isSym .less) || (← isToken .tagStart)) do return none
  match ← peekToken? with
  | some (.markupName _) => pure ()
  | some t => unless t.isWord do return none
  | none => return none
  within (fun c => { c with colonAhead := false }) <| attempt do
    if ← isToken .tagStart then leaveTag
    let start ← place
    let _ ← typeParameters r .ofFunction
    let e ← r.assignmentBase
    if e.isArrow then return some (.arrow (between start e.extent.stop)) else return none

def assignmentBase : Read Expr := do
  if let some e ← genericArrow? r then return e
  plainAssignment r

/-- An expression up to a comma. -/
def assignment : Read Expr := do
  if (← typed) && (← hasMarkup) && (← isToken .tagStart) then
    if let some e ← attempt (some <$> assignmentBase r) then return e
    modifyFrames (·.drop 2)
  assignmentBase r

end TypeOnly.Source.Grammar
