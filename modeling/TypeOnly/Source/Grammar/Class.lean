import TypeOnly.Source.Grammar.Function

/-!
Classes.
-/

namespace TypeOnly.Source.Grammar

set_option autoImplicit false

open TypeOnly.Text (Extent)
open Read

variable (r : Rules)

/-- What stands in front of a class member. -/
structure MemberModifiers where
  start : Nat
  declareExtent : Option Extent := none
  hasAccess : Bool := false
  staticExtent : Option Extent := none
  /-- The last of the modifiers that can come in any order. -/
  lastExtent : Option Extent := none
  isStatic : Bool := false
  isAbstract : Bool := false
  isOverride : Bool := false
  readonlyExtent : Option Extent := none
  isAccessor : Bool := false

/-- What the class asks about one of its members. -/
inductive ClassMember where
  /-- A constructor with a body. -/
  | constructor (extent : Extent)
  /-- A method or field that is left to be filled in. -/
  | abstract (extent : Extent)
  | other

def startsMethod : Read Bool := do
  return (← isSym .openParen) || ((← typed) && ((← isSym .less) || (← isToken .tagStart)))

/-- Whether a member with this name so far is a field; `lenient` lets a line end close it. -/
def startsField (lenient : Bool) : Read Bool := do
  if (← typed) && (← isOneOf [.bang, .colon]) then return true
  if ← isOneOf [.equals, .closeBrace] then return true
  if lenient then atStatementEnd else isSym .semicolon

/-- A method after its name, with a check of its parameters. -/
def methodWith (check : List Parameter → Read Unit) (m : MemberModifiers) (key : Key)
    (isAsync isGenerator : Bool) : Read ClassMember := do
  let (_, hasBody) ← within insideMethod (functionTailWith r check isAsync isGenerator)
  let extent ← since m.start
  if key.isHidden then
    if m.hasAccess then complain (between m.start key.extent.stop) .accessOnPrivate
    return .other
  if m.isAbstract && hasBody then complain extent .abstractBody
  return if m.isAbstract then .abstract extent else .other

def method (m : MemberModifiers) (key : Key) (isAsync isGenerator : Bool) : Read ClassMember :=
  methodWith r (fun _ => return ()) m key isAsync isGenerator

def field (m : MemberModifiers) (key : Key) (optional : Bool) : Read ClassMember := do
  if key.isConstructor then failAt key.extent .constructorField
  if key.isHidden then
    if m.declareExtent.isSome then complain key.extent (.modifierOnPrivate "declare")
    if m.isAbstract then complain key.extent (.modifierOnPrivate "abstract")
  if ← typed then
    unless optional do
      let _ ← eat .bang
  let _ ← annotation? r
  within (fun c => { c with allowIn := true, inField := true }) do
    let hasValue ← eat .equals
    if hasValue then
      let _ ← r.assignment
    unless ← eatEnd do complain (← here) .semicolonNeeded
    let extent ← since m.start
    if m.isAccessor then return .other
    if key.isHidden then
      if m.hasAccess then complain (between m.start key.extent.stop) .accessOnPrivate
      return .other
    if m.isAbstract && hasValue then complain extent .abstractValue
    return if m.isAbstract then .abstract extent else .other

/-- The type parameters of a constructor, which has none. -/
def constructorTypeParameters : Read Unit := do
  unless (← typed) && (← isSym .less) do return
  let start ← place
  if ← peekIsSym .greater then
    bump
    let close ← here
    bump
    complain (← since start) .emptyTypeParameters
    complain close .constructorTypeParameters
  else
    for extent in ← typeParameters r .ofFunction do complain extent .constructorTypeParameters

def constructor (m : MemberModifiers) : Read ClassMember := do
  if (← typed) && m.isOverride then
    complain (← since m.start) (.modifierOnConstructor "override")
  constructorTypeParameters r
  expect .openParen
  let ps ← parameters r true
  expect .closeParen
  if (← typed) && (← isSym .colon) then
    let start ← asType do
      bump
      typeFrom r
    complain (← since start) .constructorTyped
  let hasBody ← functionBody r false false (Parameter.areSimple ps)
  unless hasBody do
    for p in ps do
      if p.isProperty then complain p.extent .modifierOnParameter
    if ← typed then
      for p in ps do
        match p.pattern with
        | .withDefault _ extent => complain extent .initializerInSignature
        | _ => pure ()
  if let some extent := m.staticExtent then complain extent (.modifierOnConstructor "static")
  if m.isAbstract then
    if let some extent := m.lastExtent then complain extent .abstractPlace
  let extent ← since m.start
  return if hasBody then .constructor extent else .other

def staticBlock : Read ClassMember := do
  let _ ← within (fun c => { c with inStaticBlock := true, inField := true }) (block r)
  return .other

/-- A method after its `async`, with its mark and name to come. The flag says that a question mark
stood before them. -/
def asyncMember (m : MemberModifiers) (optional : Bool) : Read ClassMember := do
  let overriding := (← modifier? ["override"] false).isSome
  if overriding then complain (← get).last (.modifierOrder "override" "async")
  let isGenerator ← eat .star
  let key ← memberName r
  if key.isConstructor then failAt key.extent .constructorAsync
  if m.readonlyExtent.isSome then failAt (← since m.start) .methodReadonly
  if ← pure !optional <&&> typed then
    let _ ← eat .question
  method r m key true isGenerator

def accessor (m : MemberModifiers) (word : Key) : Read ClassMember := do
  let key ← memberName r
  if m.readonlyExtent.isSome then complain word.extent .accessorReadonly
  if key.isConstructor then complain word.extent .constructorAccessor
  let check := if word.isIdent "get" then checkGetter word.extent else checkSetter word.extent
  methodWith r check m key false false

def namedMember (m : MemberModifiers) : Read ClassMember := do
  let key ← (do
    match m.readonlyExtent with
    | some extent => if ← isOneOf [.bang, .colon] then return Key.ident "readonly" extent
    | none => pure ()
    memberName r)
  let optional ← if ← typed then eat .question else pure false
  if ← startsMethod then
    if let some extent := m.declareExtent then complain extent .declareOnMember
    if m.readonlyExtent.isSome then failAt (← since m.start) .methodReadonly
    if key.isConstructor then return ← constructor r m
    return ← method r m key false false
  let isAccessor ← (do
    let generatorNext := (← afterLineEnd) && (← isSym .star)
    if key.isIdent "get" || key.isIdent "set" then
      return !(← startsField false) && !generatorNext
    else return false)
  if !isAccessor && (← startsField true) then return ← field r m key optional
  if key.isIdent "async" && !(← afterLineEnd) then return ← asyncMember r m optional
  if isAccessor then return ← accessor r m key
  failUnexpected "* for generator, private key, identifier or async"

/-- Takes the modifiers between `static` and the name. -/
def memberModifiers (m : MemberModifiers) : Read MemberModifiers :=
  iterate (fun (m : MemberModifiers) => do
    match ← modifier? ["abstract", "readonly", "override", "static"] true with
    | none => return (m, false)
    | some w => do
      let extent := (← get).last
      let m := { m with lastExtent := some extent }
      match w with
      | "abstract" => do
        if m.isAbstract then complain extent (.modifierTwice "abstract")
        else if m.isOverride then complain extent (.modifierOrder "abstract" "override")
        return ({ m with isAbstract := true }, true)
      | "override" => do
        if m.isOverride then complain extent (.modifierTwice "override")
        else if m.readonlyExtent.isSome then complain extent (.modifierOrder "override" "readonly")
        else if m.declareExtent.isSome then complain extent (.modifierConflict "override" "declare")
        else unless (← read).hasBase do complain extent .overrideWithoutBase
        return ({ m with isOverride := true }, true)
      | "readonly" => do
        if m.readonlyExtent.isSome then
          complain extent (.modifierTwice "readonly")
          return (m, true)
        return ({ m with readonlyExtent := some extent }, true)
      | _ => do
        if m.isOverride then complain extent (.modifierOrder "static" "override")
        return ({ m with isStatic := true }, true)) m

/-- A member after its access modifier, `static` and `accessor`. -/
def modifiedMember (m : MemberModifiers) : Read ClassMember := do
  let m ← memberModifiers m
  let isAccessor ← pure m.isAccessor
    <||> (typed <&&> pure m.readonlyExtent.isNone <&&> eatWord "accessor")
  let m := { m with isAccessor }
  if m.isStatic && (← isSym .openBrace) then
    if let some extent := m.declareExtent then complain extent .modifierOnMember
    if m.hasAccess then complain (← here) .modifierOnMember
    return ← staticBlock r
  if ← isWord "static" <&&> peekIsSym .openBrace then
    if let some extent := m.lastExtent then complain extent .modifierOnMember
    if let some extent := m.staticExtent then complain extent .modifierOnMember
    bump
    return ← staticBlock r
  if (← typed) && !m.isAbstract && !m.isOverride && !m.hasAccess then
    if ← indexSignature? r then return .other
  if ← eat .star then
    let key ← memberName r
    if m.readonlyExtent.isSome then complain (← since m.start) .methodReadonly
    if key.isConstructor then complain (← since m.start) .constructorGenerator
    return ← method r m key false true
  namedMember r m

/-- A member that is named by the word just taken, if what follows shows it. -/
def memberNamed? (m : MemberModifiers) (name : String) (lenient : Bool) :
    Read (Option ClassMember) := do
  let key := Key.ident name (← get).last
  if ← startsMethod then return some (← method r m key false false)
  if ← startsField lenient <||> (typed <&&> isSym .question) then
    if name = "static" && (← isSym .openBrace) then return none
    let optional ← if ← typed then eat .question else pure false
    return some (← field r m key optional)
  return none

def classMember : Read ClassMember := do
  let start ← place
  let _ ← decorators r false
  let declareFirst ← typed <&&> eatWord "declare"
  let hasAccess ← typed <&&> eatAccess
  let isDeclare ← pure declareFirst <||> (typed <&&> eatWord "declare")
  let m : MemberModifiers := { start, hasAccess }
  if isDeclare then
    if let some member ← memberNamed? r m "declare" true then return member
  let declareExtent ← if isDeclare then some <$> since start else pure none
  let m := { m with declareExtent }
  let isStatic ← eatWord "static"
  let last := (← get).last
  let staticExtent := if isStatic then some last else none
  let isAccessor ← typed <&&> eatWord "accessor"
  if isStatic && !isAccessor then
    if let some member ← memberNamed? r m "static" false then return member
  let m := { m with isStatic, staticExtent }
  if isAccessor then
    if let some member ← memberNamed? r m "accessor" true then return member
  modifiedMember r { m with isAccessor }

/-- The members of a class up to its closing brace. There is one constructor at most, and nothing
is left to be filled in unless the class is abstract. -/
def classMembers (isAbstract : Bool) : Read Unit := do
  let (abstracts, _) ← iterate (fun ((abstracts, seen) : List Extent × Bool) => do
    if (← atEnd) || (← isSym .closeBrace) then return ((abstracts, seen), false)
    if ← eat .semicolon then return ((abstracts, seen), true)
    match ← classMember r with
    | .constructor extent => do
      if (← read).inDeclare then return ((abstracts, seen), true)
      if seen then complain extent .constructorTwice
      return ((abstracts, true), true)
    | .abstract extent => return ((extent :: abstracts, seen), true)
    | .other => return ((abstracts, seen), true)) (([], false) : List Extent × Bool)
  if ← atEnd then complain (← here) (.expected "\x7d" (← found))
  else expect .closeBrace
  unless isAbstract do
    for extent in abstracts.reverse do complain extent .abstractInConcrete

def baseClass : Read Unit := do
  match ← r.leftHandSide with
  | .instantiated _ _ => return ()
  | _ => if (← typed) && (← isSym .less) then typeArguments r

def classNames : List String :=
  ["any", "unknown", "never", "bigint", "number", "boolean", "string", "symbol", "object",
    "void", "null"]

/-- A class from its keyword on; gives its name. -/
def classDecl (nameNeeded isAbstract : Bool) : Read (Option String) :=
  within (fun c => { c with inClass := true, inMethod := true }) do
    expectWord "class"
    let name ← if nameNeeded then some <$> bindingName else optionalName
    if ← typed then
      if let some (name, extent) := name then
        if classNames.contains name then complain extent .invalidClassName
      typeParameters? r .ofClass
    let hasBase ← eatWord "extends"
    if hasBase then
      baseClass r
      if ← typed <&&> eat .comma then
        for extent in ← heritage r do complain extent .severalBases
    if ← eatWord "extends" then
      complain (← get).last .extendsTwice
      baseClass r
    let lateBase ← (do
      unless ← typed do return false
      if ← eatWord "implements" then
        let _ ← heritage r
      if ← eatWord "implements" then
        complain (← get).last .implementsTwice
        let _ ← heritage r
      if ← eatWord "extends" then
        complain (← get).last .extendsAfterImplements
        baseClass r
        return true
      return false)
    expect .openBrace
    within (fun c => { c with hasBase := hasBase || lateBase }) (classMembers r isAbstract)
    return name.map Prod.fst

end TypeOnly.Source.Grammar
