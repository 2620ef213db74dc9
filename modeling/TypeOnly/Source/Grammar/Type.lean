import TypeOnly.Source.Grammar.Pattern

/-!
Types and type declarations. Types leave nothing behind but the place where they end.
-/

namespace TypeOnly.Source.Grammar

set_option autoImplicit false

open TypeOnly.Text (Extent)
open Read

variable (r : Rules)

/-! ### Type parameters -/

/-- What the type parameters of a declaration can be marked with. -/
structure ParameterMarks where
  /-- `in` and `out`. -/
  variance : Bool
  /-- `const`. -/
  constant : Bool

def ParameterMarks.ofClass : ParameterMarks := ⟨true, true⟩

def ParameterMarks.ofType : ParameterMarks := ⟨true, false⟩

def ParameterMarks.ofFunction : ParameterMarks := ⟨false, true⟩

def parameterMarks (allowed : ParameterMarks) : Read Unit := do
  let words := ["public", "private", "protected", "readonly", "abstract", "const", "override",
    "in", "out"]
  let _ ← iterate (fun ((seenIn, seenOut) : Bool × Bool) => do
    match ← modifier? words false with
    | none => return ((seenIn, seenOut), false)
    | some w => do
      let extent := (← get).last
      if w = "const" then
        unless allowed.constant do complain extent (.constOnTypeParameter w)
      else if w = "in" || w = "out" then
        if !allowed.variance then complain extent (.varianceOnFunction w)
        else if (if w = "in" then seenIn else seenOut) then complain extent (.modifierTwice w)
        else if w = "in" && seenOut then complain extent (.modifierOrder "in" "out")
      else complain extent (.modifierOnTypeParameter w)
      return ((seenIn || w = "in", seenOut || w = "out"), true)) (false, false)

/-- One type parameter, with its place. -/
def typeParameter (allowed : ParameterMarks) : Read Extent := do
  let start ← place
  parameterMarks allowed
  let _ ← anyName
  if ← eatWord "extends" then r.type
  if ← eat .equals then r.type
  since start

/-- Type parameters in angle brackets, with their places. -/
def typeParameters (allowed : ParameterMarks) : Read (List Extent) := asType <| withoutFrames do
  unless (← isSym .less) || (← isToken .tagStart) do failUnexpected "< (jsx tag start)"
  bump
  let extents ← elementsUpTo (isSym .greater) (typeParameter r allowed)
  expect .greater
  return extents

/-- Forgets that a bracket opened a tag. -/
def leaveTag : Read Unit :=
  modifyFrames fun
    | .openingTag :: .element :: rest => rest
    | frames => frames

def typeParameters? (allowed : ParameterMarks) : Read Unit := do
  if (← typed) && (← isSym .less) then
    let _ ← typeParameters r allowed

/-! ### Names of types -/

/-- A name with dots. -/
def entityName (allowReserved : Bool) : Read Unit := do
  let (name, _) ← anyName
  if name = "void" then complain (.empty (← place)) .semicolonNeeded
  loop do
    if ← eat .dot then
      if !(← isSym .hash) && !(← isAnyWord) then
        complain (.empty (← place)) .typeMemberNameNeeded
        return false
      let _ ← if allowReserved then anyName else identifierWith false
      return true
    else return false

def typeReference : Read Unit := do
  let start ← place
  let modified ← eatParameterModifier
  entityName true
  unless ← afterLineEnd do
    if ← isSym .less then typeArguments r
  if modified then complain (← since start) .modifierOnParameter

/-- The argument and properties of an `import` type. -/
def importType : Read Unit := do
  expectWord "import"
  expect .openParen
  let l ← required
  bump
  match l.token with
  | .string _ _ => pure ()
  | _ => complain l.extent .importTypeArgument
  expect .closeParen
  if ← eat .dot then entityName false
  if ← isSym .less then typeArguments r

/-- The type of a variable. -/
def typeQuery : Read Unit := do
  expectWord "typeof"
  if ← isWord "import" then importType r else entityName true
  unless ← afterLineEnd do
    if ← isSym .less then typeArguments r

/-! ### Templates -/

/-- The text of a template; says whether the template ends after it. Escapes have to be proper
ones, except after a tag. -/
def templateText (tagged : Bool) : Read Bool := do
  match (← required).token with
  | .templateText _ fault => do
    bump
    unless tagged do
      if let some i := fault then throw i
    isSym .backtick
  | _ => failUnexpected "template token"

/-- A template from its opening mark on, with `hole` read in its holes. -/
def template (tagged : Bool) (hole : Read Unit) : Read Unit := do
  expect .backtick
  let ends ← templateText tagged
  let _ ← iterate (fun (ends : Bool) => do
    if ends then return (true, false)
    expect .holeStart
    hole
    expect .closeBrace
    return (← templateText tagged, true)) ends
  expect .backtick

/-! ### Functions -/

/-- A return type after a colon or an arrow, which can be a predicate. -/
def returnType (mark : Symbol) : Read Unit := asType do
  unless ← eat mark do fail (.expected mark.text (← foundOption))
  let asserts ← isWord "asserts" <&&> peekIsName
  if asserts then bump
  let isPredicate ← isName <&&> peekIsWord "is" <&&> not <$> peekAfterLineEnd
  if isPredicate then
    bump
    bump
    r.type
  else if asserts then
    let _ ← anyName
  else r.type

/-- Parameters of a signature, in parentheses. They have no defaults. -/
def signatureParameters : Read (List Parameter) := do
  expect .openParen
  let ps ← parameters r false
  for p in ps do
    match p.pattern with
    | .name _ _ | .array _ _ | .object _ _ | .rest _ _ => pure ()
    | _ =>
      failUnexpected
        "an identifier, [ for an array pattern, \x7b for an object patter or ... for a rest pattern"
  expect .closeParen
  return ps

def functionType : Read Unit := do
  typeParameters? r .ofFunction
  let _ ← signatureParameters r
  returnType r .arrow

/-- Passes over what can start a parameter. -/
def skipParameterStart : Read Bool := do
  let _ ← eatParameterModifier
  if ← isAnyWord then
    bump
    return true
  else if (← isSym .openBrace) || (← isSym .openBracket) then
    recover (do
      let _ ← r.binding
      return true) (fun _ => return false)
  else return false

/-- Whether a parenthesis can only start a function type. -/
def startsFunctionType : Read Bool := do
  if ← isSym .less then return true
  unless ← isSym .openParen do return false
  preview do
    bump
    if ← isOneOf [.closeParen, .ellipsis] then return true
    if ← skipParameterStart r then
      if ← isOneOf [.colon, .comma, .question, .equals] then return true
      if ← eat .closeParen then return (← isSym .arrow)
    return false

/-! ### Members -/

def memberEnd : Read Unit := do
  unless ← eat .comma do expectEnd

def indexSignature? : Read Bool := do
  unless ← isSym .openBracket do return false
  let isIndex ← preview do
    bump
    unless ← isName do return false
    bump
    isOneOf [.colon, .comma]
  unless isIndex do return false
  expect .openBracket
  let (_, extent) ← anyName
  if ← eat .comma then complain extent .indexParameterCount else expect .colon
  asType r.type
  expect .closeBracket
  let _ ← annotation? r
  memberEnd
  return true

def typeMemberName : Read Unit := do
  if ← eat .openBracket then
    let _ ← r.assignment
    expect .closeBracket
  else within (fun c => { c with inPropertyName := true }) do
    match (← required).token with
    | .number _ | .string _ _ => do
      let _ ← r.callee
    | .symbol .hash => do
      let (_, extent) ← privateName
      complain extent .privateInInterface
    | _ => do
      let _ ← anyName

def methodSignature : Read Unit := do
  typeParameters? r .ofFunction
  let _ ← signatureParameters r
  if ← isSym .colon then returnType r .colon
  memberEnd

def typeAccessor? (readOnly : Bool) : Read Bool := do
  let got ← attempt do
    if readOnly then fail .accessorReadonly
    if ← eatWord "get" then
      typeMemberName r
      expect .openParen
      expect .closeParen
      let _ ← annotation? r
      memberEnd
      return some ()
    expectWord "set"
    typeMemberName r
    let ps ← signatureParameters r
    if ps.isEmpty then fail .setterParameterCount
    memberEnd
    return some ()
  return got.isSome

def typeMember : Read Unit := do
  if ← isOneOf [.openParen, .less] then return ← methodSignature r
  if ← isWord "new" then
    let isConstruct ← preview do
      bump
      isOneOf [.openParen, .less]
    if isConstruct then
      bump
      return ← methodSignature r
  let readOnly := (← modifier? ["readonly"] false).isSome
  if ← indexSignature? r then return
  if ← typeAccessor? r readOnly then return
  typeMemberName r
  let _ ← eat .question
  if ← isOneOf [.openParen, .less] then
    if readOnly then fail .methodReadonly
    methodSignature r
  else
    let _ ← annotation? r
    memberEnd

/-- The members of an interface or type literal, in braces. -/
def typeMembers : Read Unit := do
  expect .openBrace
  loop do
    if ← isSym .closeBrace then return false
    typeMember r
    return true
  expect .closeBrace

/-! ### Types in brackets -/

def startsMappedType : Read Bool := preview do
  bump
  if ← eat .plus <||> eat .minus then return ← isWord "readonly"
  let _ ← eatWord "readonly"
  unless ← eat .openBracket do return false
  unless ← isName do return false
  bump
  isWord "in"

def mappedType : Read Unit := do
  expect .openBrace
  if ← isOneOf [.plus, .minus] then
    bump
    expectWord "readonly"
  else
    let _ ← eatWord "readonly"
  expect .openBracket
  let _ ← anyName
  unless ← eatWord "in" do fail (.unexpected (← foundOption) "in")
  r.type
  if ← eatWord "as" then r.type
  expect .closeBracket
  if ← isOneOf [.plus, .minus] then
    bump
    expect .question
  else
    let _ ← eat .question
  if ← eat .colon then r.type
  expectEnd
  expect .closeBrace

inductive TupleElement where
  | rest
  | optional
  | required
deriving DecidableEq

/-- One element of a tuple type, which can have a label. -/
def tupleElement : Read TupleElement := do
  let _ ← attempt do
    let _ ← eat .ellipsis
    let _ ← anyName
    let _ ← eat .question
    expect .colon
    return some ()
  if ← eat .ellipsis then
    r.type
    return .rest
  r.type
  if ← eat .question then return .optional
  return .required

/-- A tuple type. What has to be there comes before what can be left out. -/
def tupleType : Read Unit := do
  let start ← place
  expect .openBracket
  let elements ← elementsUpTo (isSym .closeBracket) (tupleElement r)
  expect .closeBracket
  if (elements.dropWhile (· ≠ .optional)).contains .required then
    failAt (← since start) .requiredAfterOptional

/-! ### Types -/

/-- Type names that are words of the language. -/
def typeKeywords : List String :=
  ["void", "null", "any", "boolean", "bigint", "never", "number", "object", "string", "symbol",
    "unknown", "undefined", "intrinsic"]

def typeStarts : List String := ["void", "yield", "null", "await", "break"]

def failNoType {α : Type} : Read α :=
  failUnexpected <|
    "an identifier, void, yield, null, await, break, a string literal, a numeric literal, true, "
      ++ "false, `, -, import, this, typeof, \x7b, [, ("

/-- What `this` is said to be, after it. -/
def thisPredicate : Read Unit := do
  if ← eatWord "is" then asType r.type

/-- A type without operators. -/
def simpleType : Read Unit := do
  let l ← required
  match l.token with
  | .word "import" => importType r
  | .word "typeof" => typeQuery r
  | .word "true" | .word "false" => bump
  | .word "this" => do
    bump
    if (← isWord "is") && !(← afterLineEnd) then thisPredicate r
  | .word w => do
    if ← pure (w == "asserts") <&&> peekIsWord "this" then
      bump
      bump
      thisPredicate r
    else if isGrammarWord w && !typeStarts.contains w then failNoType
    else
      let dotted ← peekIsSym .dot
      if typeKeywords.contains w && !dotted then bump else typeReference r
  | .plainWord _ => typeReference r
  | .string _ _ | .number _ | .bigint _ => bump
  | .symbol .minus => do
    bump
    match (← required).token with
    | .number _ | .bigint _ => bump
    | _ => failUnexpected "numeric literal or bigint literal"
  | .symbol .openBrace => do
    if ← startsMappedType then mappedType r else typeMembers r
  | .symbol .openBracket => tupleType r
  | .symbol .openParen => do
    bump
    r.type
    expect .closeParen
  | .symbol .backtick => template false r.type
  | _ => failNoType

/-- A type with array brackets after it. -/
def arrayType : Read Unit := do
  simpleType r
  loop do
    if ← afterLineEnd then return false
    if ← eat .openBracket then
      unless ← eat .closeBracket do
        r.type
        expect .closeBracket
      return true
    else return false

/-- The constraint of an inferred type. -/
def inferType : Read Unit := do
  bump
  let _ ← anyName
  let _ ← attempt do
    expectWord "extends"
    r.plainType
    if (← read).allowConditional && (← isSym .question) then return none
    return some ()

/-- A type with operators in front. -/
def operatorType : Read Unit := do
  if ← isWordOf ["keyof", "unique", "readonly"] then
    bump
    r.operatorType
  else if ← isWord "infer" then inferType r
  else arrayType r

/-- Types joined by an operator, with one more in front allowed. Gives where the type starts: an
operator that joins nothing is no part of it. -/
def joinedType (operator : Symbol) (part : Read Nat) : Read Nat := do
  let start ← place
  let _ ← eat operator
  let first ← part
  unless ← isSym operator do return first
  loop do
    if ← eat operator then
      let _ ← part
      return true
    else return false
  return start

/-- A type that is not conditional; gives where it starts. -/
def plainTypeFrom : Read Nat := do
  let start ← place
  if ← startsFunctionType r then
    functionType r
    return start
  if ← (isWord "abstract" <&&> peekIsWord "new") <||> isWord "new" then
    let _ ← eatWord "abstract"
    expectWord "new"
    functionType r
    return start
  joinedType .bar (joinedType .ampersand (do
    let start ← place
    r.operatorType
    return start))

def plainType : Read Unit := do
  let _ ← plainTypeFrom r

/-- A type; gives where it starts. -/
def typeFrom : Read Nat := asType do
  within (fun c => { c with allowConditional := true }) do
    let start ← place
    let plainStart ← plainTypeFrom r
    if ← afterLineEnd then return plainStart
    unless ← eatWord "extends" do return plainStart
    within (fun c => { c with allowConditional := false }) r.plainType
    expect .question
    r.type
    expect .colon
    r.type
    return start

def type : Read Unit := do
  let _ ← typeFrom r

/-! ### Declarations -/

/-- What an interface or class is declared to be: names with type arguments, with their places. -/
def heritage : Read (List Extent) :=
  elementsUpTo
    (do return (← isSym .openBrace) || (← isWordOf ["implements", "extends"]))
    (do
      let start ← place
      let (name, extent) ← anyName
      match ← r.subscripts true true (.name name extent) with
      | .instantiated _ _ => pure ()
      | base => do
        match base with
        | .name _ _ | .member _ => pure ()
        | _ => complain (← since start) .interfaceBase
        if ← isSym .less then typeArguments r
      since start)

/-- Names that an interface cannot have. -/
def builtinTypes : List String :=
  ["string", "null", "number", "object", "any", "unknown", "boolean", "bigint", "symbol", "void",
    "never", "intrinsic"]

/-- An interface after its keyword; gives its name. -/
def interfaceDecl : Read String := do
  let (name, extent) ← anyName
  if builtinTypes.contains name then complain extent .invalidInterfaceName
  typeParameters? r .ofType
  if ← eatWord "extends" then
    let _ ← heritage r
  if ← isWord "extends" then
    complain (← here) .extendsTwice
    loop do
      if (← atEnd) || (← isSym .openBrace) then return false
      bump
      return true
  asType (typeMembers r)
  return name

def typeAlias : Read String := do
  let (name, _) ← anyName
  typeParameters? r .ofType
  asType do
    unless ← eat .equals do fail (.unexpected (← foundOption) "=")
    r.type
  expectEnd
  return name

/-- One member of an enumeration. A token that is neither a comma nor the end stands for a
comma. -/
def enumMember : Read Unit := do
  let l ← required
  match l.token with
  | .string _ _ => bump
  | .number _ => do
    bump
    complain l.extent .numericMember
  | .symbol .openBracket => do
    bump
    let _ ← sequence r
    complain (← since l.extent.start) .computedMember
    expect .closeBracket
  | _ => do
    let _ ← anyName
  if ← eat .equals then
    let _ ← r.assignment
  else unless ← isOneOf [.comma, .closeBrace] do
    let start ← place
    bump
    let comma : Lexeme := ⟨.symbol .comma, (← get).last, false⟩
    modify fun s => { s with current := some comma }
    complain (.empty start) .semicolonNeeded

def enumDecl : Read String := do
  let (name, _) ← anyName
  expect .openBrace
  loop do
    if ← isSym .closeBrace then return false
    enumMember r
    if ← eat .comma then return true
    if ← isSym .closeBrace then return false
    let got := match ← token? with
      | some t => describe t
      | none => "EOF"
    complain (← here) (.expected "," got)
    return true
  expect .closeBrace
  return name

end TypeOnly.Source.Grammar
