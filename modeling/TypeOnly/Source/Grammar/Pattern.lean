import TypeOnly.Source.Expression

/-!
Patterns and parameters, with the property names, modifiers and decorators they can carry, and
expressions read again as patterns.
-/

namespace TypeOnly.Source.Grammar

set_option autoImplicit false

open TypeOnly.Text (Extent)
open Read

variable (r : Rules)

def sequence : Read Expr := do
  let first ← r.assignment
  if ← isSym .comma then
    loop do
      if ← eat .comma then
        let _ ← r.assignment
        return true
      else return false
    return .other (← since first.extent.start)
  else return first

/-- An expression in which `in` is an operator. -/
def fullExpression : Read Expr := withIn (sequence r)

/-- An operand of a list, possibly spread. -/
def element : Read Expr := withIn do
  let start ← place
  if ← eat .ellipsis then
    let inner ← r.assignment
    return .spread inner ⟨start, inner.extent.stop⟩
  else r.assignment

/-- An argument list. That of an import has no comma at its end, where types do not allow it. -/
def arguments (ofImport : Bool) : Read Unit :=
  within (fun c => { c with colonAhead := false }) do
    let start ← place
    expect .openParen
    let _ ← iterate (fun (first : Bool) => do
      if (← atEnd) || (← isSym .closeParen) then return (false, false)
      unless first do
        expect .comma
        if ← isSym .closeParen then
          if ofImport && !(← typed) then failAt (← since start) .importTrailingComma
          return (false, false)
      let _ ← element r
      return (false, true)) true
    expect .closeParen

/-! ### Types after something -/

/-- Elements between commas up to a closing symbol, which is not taken. -/
def elementsUpTo {α : Type} (atClose : Read Bool) (element : Read α) : Read (List α) := do
  let (got, _) ← iterate (fun ((got, _) : List α × Bool) => do
    if ← atClose then return ((got, true), false)
    let a ← element
    if ← eat .comma then return ((a :: got, true), true)
    if ← atClose then return ((a :: got, true), false)
    expect .comma
    return ((a :: got, true), true)) (([], true) : List α × Bool)
  return got.reverse

def typeArguments : Read Unit := do
  asType <| withoutFrames do
    if ← isSym (.operator "<<") then cutDoubleLess else expect .less
    let _ ← elementsUpTo (isSym .greater) r.type
  setExpressionAllowed false
  expect .greater

/-- A type after a colon. -/
def annotation : Read Unit := asType do
  expect .colon
  r.type

def annotation? : Read Bool := do
  if (← typed) && (← isSym .colon) then
    annotation r
    return true
  else return false

/-! ### Property names -/

inductive Key where
  | ident (name : String) (extent : Extent)
  | text (value : String) (extent : Extent)
  | hidden (name : String) (extent : Extent)
  | other (extent : Extent)

namespace Key

def extent : Key → Extent
  | ident _ s | text _ s | hidden _ s | other s => s

def isConstructor : Key → Bool
  | ident name _ | text name _ => name = "constructor"
  | _ => false

def isIdent (k : Key) (name : String) : Bool :=
  match k with
  | ident n _ => n = name
  | _ => false

def isHidden : Key → Bool
  | hidden _ _ => true
  | _ => false

end Key

def propertyName : Read Key := within (fun c => { c with inPropertyName := true }) do
  let l ← required
  match l.token with
  | .word name | .plainWord name => do
    bump
    return .ident name l.extent
  | .string value _ => do
    bump
    return .text value l.extent
  | .number _ | .bigint _ => do
    bump
    return .other l.extent
  | .symbol .openBracket => do
    bump
    let start ← place
    let _ ← withIn r.assignment
    if (← typed) && (← isSym .comma) then
      loop do
        if ← eat .comma then
          let _ ← withIn r.assignment
          return true
        else return false
      complain (← since start) .commaInComputedName
    expect .closeBracket
    return .other (← since l.extent.start)
  | _ => failUnexpected "identifier, string literal, numeric literal or [ for the computed key"

/-- A private name, from its mark on. -/
def privateName : Read (String × Extent) := do
  let start ← place
  bump
  let stop := (← get).last.stop
  if (← place) != stop then failAt (← since start) .spaceAfterHash
  let (name, _) ← anyName
  return (name, ← since start)

/-- The name of a class member, which can be private. -/
def memberName : Read Key := do
  if ← isSym .hash then
    let (name, extent) ← privateName
    if name = "constructor" then complain extent .constructorPrivate
    return .hidden name extent
  else propertyName r

/-! ### Modifiers -/

def followsModifier : Read Bool := do
  if ← afterLineEnd then return false
  match ← token? with
  | some (.word _) | some (.plainWord _) | some (.string _ _) | some (.number _)
  | some (.bigint _) => return true
  | some (.symbol s) =>
    return [.openBracket, .openBrace, .star, .ellipsis, .hash].contains s
  | _ => return false

/-- Takes one of the modifiers, if something follows that it can modify. -/
def modifier? (allowed : List String) (stopAtBlock : Bool) : Read (Option String) := do
  unless ← typed do return none
  match (← required).token.name? with
  | some w =>
    if !allowed.contains w then return none
    if ← pure stopAtBlock <&&> isWord "static" <&&> peekIsSym .openBrace then return none
    attempt do
      bump
      if ← followsModifier then return some w else return none
  | none => return none

/-- Takes an access modifier where there cannot be one. -/
def eatParameterModifier : Read Bool := do
  unless ← typed do return false
  if ← atEnd then
    let _ ← required
  unless ← isWordOf ["public", "protected", "private", "readonly"] do return false
  unless ← peekIsAnyWord <||> peekIsSym .openBrace <||> peekIsSym .openBracket do
    return false
  let _ ← modifier? ["public", "protected", "private", "readonly"] false
  return true

/-- Takes an access modifier. The marks of a type parameter are out of place here. -/
def eatAccess : Read Bool := do
  match ← modifier? ["public", "protected", "private", "in", "out"] false with
  | none => return false
  | some w => do
    unless w = "in" || w = "out" do return true
    complain (← get).last (.varianceOnFunction w)
    return false

/-- Takes the modifiers that make a parameter of a constructor a property as well. -/
def eatPropertyModifiers : Read Bool := do
  let access ← eatAccess
  let overriding ← modifier? ["override"] false
  let readOnly ← modifier? ["readonly"] false
  return access || overriding.isSome || readOnly.isSome

/-! ### Decorators -/

/-- One decorator: a name with properties, or an expression in parentheses, and its arguments. -/
def decorator : Read Unit := do
  expect .atSign
  if ← eat .openParen then
    let _ ← sequence r
    expect .closeParen
  else
    let (name, extent) ← identifierWith false
    let _ ← r.subscripts false true (.name name extent)
  if ← typed <&&> isSym .less then
    typeArguments r
    arguments r false
  else if ← isSym .openParen then arguments r false

/-- The decorators in front of something, with their place if there are any. -/
def decorators (allowExport : Bool) : Read (Option Extent) := do
  unless (← read).dialect.decorators do return none
  unless ← isSym .atSign do return none
  let start ← place
  loop do
    if ← isSym .atSign then
      decorator r
      return true
    else return false
  if ← isWord "export" then
    let c ← read
    unless c.inClass || c.inFunction do
      unless allowExport do fail .exportHere
      unless c.dialect.types do failAt (← since start) .decoratorBeforeExport
  return some (← since start)

/-! ### Expressions as patterns -/

/-- Notes that a value cannot be stored here. -/
def checkTarget (e : Expr) (callsToo : Bool) : Read Unit := do
  unless e.isTarget do complain e.extent .invalidTarget
  if ← typed then
    let isArguments := match e with
      | .name id _ => id = "eval" || id = "arguments"
      | _ => false
    if isArguments then complainStrict e.extent .assignsArguments
    else if !e.isTarget && e.refusedTwice callsToo then complain e.extent .invalidTarget

inductive PatternUse where
  /-- It declares names. -/
  | binding
  /-- It is the left side of an assignment. -/
  | target
  /-- It is a part of the left side of an assignment. -/
  | targetPart
deriving DecidableEq

namespace PatternUse

/-- What the parts of a pattern are for. -/
def part : PatternUse → PatternUse
  | binding => binding
  | target | targetPart => targetPart

end PatternUse

/-- Something that is no pattern. A generator cannot wait in its own parameters. -/
def notPattern (e : Expr) : Read Pattern := do
  let waits := match e with
    | .yielded _ => true
    | _ => false
  complain e.extent (if waits && (← read).inGenerator then .yieldInParameter else .notAPattern)
  return .invalid e.extent

mutual

def asPattern (use : PatternUse) : Expr → Read Pattern
  | .invalid s => return .invalid s
  | .object properties s => do
    return .object (← propertyPatterns use.part properties) s
  | .array items comma s => do
    return .array (← itemPatterns use.part comma items) s
  | .name id s => do
    match use with
    | .binding => pure ()
    | .target => checkTarget (.name id s) true
    | .targetPart => unless (Expr.name id s).isTarget do complain s .notAssignable
    return .name id s
  | .assign left target s => do
    match use with
    | .target => do
      checkTarget (.assign left target s) true
      return .place s
    | _ =>
      if target.isPlace then return .withDefault (← asPattern use left) s
      return .withDefault target s
  | e => do
    match use with
    | .target => do
      checkTarget e true
      return .place e.extent
    | .targetPart => do
      match e with
      | .member _ | .superMember _ | .call _ | .construct _ _ | .string _ _ | .literal _ | .value _
      | .paren _ _ | .asserted _ .cast _ => do
        unless e.isTarget do complain e.extent .notAssignable
        return .place e.extent
      | .compound _ => notPattern e
      | _ => do
        complain e.extent .notAPattern
        notPattern e
    | .binding => notPattern e

def propertyPatterns (use : PatternUse) : List Expr → Read (List Pattern)
  | [] => return []
  | e :: others => do
    let p ← (match e with
      | .name id s => return .name id s
      | .field value _ => asPattern use value
      | .shorthandValue id key s => return .withDefault (.name id key) s
      | .spread inner s => do
        unless others.isEmpty do complain s .restNotLast
        let p ← (match use, inner with
          | .binding, .name id extent => return .name id extent
          | .binding, _ => do
            complain s .restWithoutName
            return .invalid s
          | _, _ => asPattern use inner)
        match p with
        | .withDefault _ _ => complain s .restParameterWithValue
        | _ => pure ()
        return .rest p s
      | e => failAt e.extent .notAPattern)
    return p :: (← propertyPatterns use others)

/-- Reads the elements of an array as the parts of a pattern; a comma may stand after the last. -/
def itemPatterns (use : PatternUse) (comma : Option Extent) : List Expr → Read (List Pattern)
  | [] => return []
  | .hole :: others => itemPatterns use comma others
  | .spread inner s :: others => do
    if others.isEmpty then
      match inner with
      | .assign _ _ _ | .compound _ => complain s .restParameterWithValue
      | _ => pure ()
      if let some extent := comma then complain extent .commaAfterRest
      return [.rest (← asPattern use inner) s]
    else
      complain s .restNotLast
      itemPatterns use comma others
  | e :: others => do
    let p ← asPattern use e
    return p :: (← itemPatterns use comma others)

end

/-- Reads what stands in parentheses as the parameters of an arrow function. -/
def parameterPatterns (comma : Option Extent) (items : List ParenItem) : Read (List Pattern) := do
  let last := items.length - 1
  let patterns ← items.zipIdx.mapM fun (item, i) => do
    match item with
    | .expr (.spread inner s) =>
      if i < last then
        complain s .restParameterNotLast
        return []
      match inner with
      | .assign _ _ _ | .compound _ => complain s .restParameterWithValue
      | _ => pure ()
      if let some extent := comma then complain extent .commaAfterRest
      return [.rest (← asPattern .binding inner) s]
    | .expr e => return [← asPattern .binding e]
    | .pattern (.rest inner s) =>
      if i < last then
        complain s .restParameterNotLast
        return []
      if let some extent := comma then complain extent .commaAfterRest
      return [.rest inner s]
    | .pattern p => return [p]
  let patterns := patterns.flatten
  for extent in Pattern.strictNamesOfAll patterns do complainStrict extent .strictBinding
  return patterns

/-! ### Patterns -/

def bindingElement : Read Pattern := do
  let start ← place
  let p ← r.binding
  if ← eat .equals then
    let _ ← withIn r.assignment
    let extent ← since start
    if (← read).inDeclare then complain extent .initializerInSignature
    return .withDefault p extent
  return p

def arrayBinding : Read Pattern := do
  let start ← place
  expect .openBracket
  let (parts, _) ← iterate (fun ((got, restExtent) : List Pattern × Option Extent) => do
    if (← atEnd) || (← isSym .closeBracket) then return ((got, restExtent), false)
    if let some extent := restExtent then complain extent .restNotLast
    if ← eat .comma then return ((got, restExtent), true)
    let start ← place
    if ← eat .ellipsis then
      let inner ← r.binding
      let extent ← since start
      unless ← isSym .closeBracket do
        expect .comma
        if ← isSym .closeBracket then complain (← get).last .commaAfterRest
      return ((.rest inner extent :: got, some extent), true)
    let part ← bindingElement r
    unless ← isSym .closeBracket do expect .comma
    return ((part :: got, restExtent), true)) (([], none) : List Pattern × Option Extent)
  expect .closeBracket
  let extent ← since start
  if (← read).inDeclare then
    let _ ← eat .question
  return .array parts.reverse extent

def propertyBinding : Read Pattern := do
  let start ← place
  if ← eat .ellipsis then
    let inner ← r.binding
    return .rest inner (← since start)
  let key ← propertyName r
  if ← eat .colon then return ← bindingElement r
  match key with
  | .ident name extent => do
    if ← eat .equals then
      let _ ← withIn r.assignment
      return .withDefault (.name name extent) (← since start)
    return .name name extent
  | _ => failUnexpected "an identifier"

/-- Notes rests that are not the last part of an object pattern, or that hold no name. -/
def checkObjectRests (comma : Option Extent) : List Pattern → Read Unit
  | [] => return ()
  | [.rest (.name _ _) _] => do
    if let some extent := comma then complain extent .commaAfterRest
  | [.rest _ extent] => failAt extent .restWithoutName
  | .rest _ extent :: others => do
    complain extent .restNotLast
    checkObjectRests comma others
  | _ :: others => checkObjectRests comma others

def objectBinding : Read Pattern := within (fun c => { c with colonAhead := false }) do
  let start ← place
  expect .openBrace
  let (parts, comma) ← iterate (fun ((got, comma) : List Pattern × Option Extent) => do
    if ← eat .closeBrace then return ((got, comma), false)
    let part ← propertyBinding r
    let comma ← (do
      unless ← isSym .closeBrace do
        expect .comma
        if ← isSym .closeBrace then return some (← get).last
      return none)
    return ((part :: got, comma), true)) (([], none) : List Pattern × Option Extent)
  let extent ← since start
  checkObjectRests comma parts.reverse
  if (← read).inDeclare then
    let _ ← eat .question
  return .object parts.reverse extent

/-- A pattern or a name. -/
def binding : Read Pattern := do
  let l ← required
  match l.token with
  | .word _ | .plainWord _ => do
    let (name, extent) ← bindingName
    return .name name extent
  | .symbol .openBracket => arrayBinding r
  | .symbol .openBrace => objectBinding r
  | _ => failUnexpected "yield, an identifier, [ or \x7b"

/-! ### Parameters -/

structure Parameter where
  pattern : Pattern
  /-- From its decorators on. -/
  extent : Extent
  /-- Whether it is a property as well. -/
  isProperty : Bool := false

namespace Parameter

/-- Named `this`, which is no parameter at run time. -/
def isThis (p : Parameter) : Bool :=
  match p.pattern with
  | .name "this" _ => true
  | _ => false

/-- Whether the parameters are all plain names or properties. -/
def areSimple (ps : List Parameter) : Bool := ps.all fun p => p.isProperty || p.pattern.isName

end Parameter

/-- A parameter that is not a rest. -/
def parameterPattern : Read Pattern := do
  let start ← place
  let modified ← eatParameterModifier
  let patternStart ← place
  let p ← bindingElement r
  let (p, optional) ← if ← typed then annotated patternStart p else pure (p, false)
  let p ← (do
    if ← eat .equals then
      if optional then complain p.extent .optionalInitializer
      let _ ← r.assignment
      let extent ← since start
      if (← read).inDeclare then complain extent .initializerInSignature
      return .withDefault p extent
    else return p)
  if modified then complain (← since start) .modifierOnParameter
  return p
where
  /-- The pattern with its question mark and type. -/
  annotated (start : Nat) (p : Pattern) : Read (Pattern × Bool) := do
    let optional ← eat .question
    if optional then
      match p with
      | .withDefault _ _ => unless (← read).inDeclare do failAt (← get).last .optionalPattern
      | _ => pure ()
    match p with
    | .name _ _ => do
      let _ ← annotation? r
      return (p, optional)
    | .withDefault _ _ => do
      if ← annotation? r then
        let extent := between start (← get).last.stop
        complain extent .typeAfterValue
        return (p.withExtent extent, false)
      return (p, false)
    | _ => do
      if ← annotation? r then return (p.withExtent (between start (← get).last.stop), optional)
      return (p, optional)

/-- A parameter of a constructor, which can be a property as well, with its decorators from an
place on. -/
def constructorParameter (start : Nat) : Read Parameter := do
  let isProperty ← if ← typed then eatPropertyModifiers else pure false
  let p ← parameterPattern r
  if isProperty then
    match p with
    | .name _ _ | .withDefault _ _ => pure ()
    | _ => failAt p.extent .propertyPattern
  return ⟨p, ← since start, isProperty⟩

/-- A rest parameter, with its decorators from a place on. -/
def restParameter (ofConstructor : Bool) (start : Nat) : Read Parameter := do
  let restStart ← place
  expect .ellipsis
  let p ← r.binding
  let p ← (do
    if ← pure !ofConstructor <&&> eat .equals then
      let _ ← r.assignment
      complain p.extent .restParameterWithValue
      return Pattern.withDefault p (← since restStart)
    else return p)
  let _ ← annotation? r
  let extent ← since restStart
  if !ofConstructor && (← typed) then
    if ← eat .question then complain (← get).last .restParameterOptional
  return ⟨.rest p extent, ← since start, false⟩

def parameters (ofConstructor : Bool) : Read (List Parameter) := do
  let (got, _) ← iterate (fun ((got, restExtent) : List Parameter × Option Extent) => do
    if (← atEnd) || (← isSym .closeParen) then return ((got, restExtent), false)
    if let some extent := restExtent then complain extent .restParameterNotLast
    let start ← place
    let _ ← decorators r false
    if ← isSym .ellipsis then
      let p ← restParameter r ofConstructor start
      unless ← isSym .closeParen do
        expect .comma
        if ← isSym .closeParen then complain (← get).last .commaAfterRest
      return ((p :: got, some p.pattern.extent), true)
    let p ← (do
      if ofConstructor then constructorParameter r start
      else
        let p ← parameterPattern r
        return ⟨p, ← since start, false⟩)
    unless ← isSym .closeParen do expect .comma
    return ((p :: got, restExtent), true)) (([], none) : List Parameter × Option Extent)
  return got.reverse

end TypeOnly.Source.Grammar
