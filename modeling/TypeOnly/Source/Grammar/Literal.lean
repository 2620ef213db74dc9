import TypeOnly.Source.Grammar.Function

/-!
Literals that have parts: regular expressions, arrays and objects.
-/

namespace TypeOnly.Source.Grammar

set_option autoImplicit false

open TypeOnly.Text (Extent)
open Read

variable (r : Rules)

/-! ### Regular expressions -/

def isRegexFlag (c : Char) : Bool := ['d', 'g', 'i', 'm', 's', 'u', 'v', 'y'].contains c

/-- The first flag that is given twice. -/
def repeatedFlag? : List Char → Option Char
  | [] => none
  | c :: rest => if rest.contains c then some c else repeatedFlag? rest

/-- A regular expression, whose slash is the current token, if it is one. -/
def regex? : Read (Option Expr) := do
  let extent ← here
  let slash := (← found).toList
  setRegexAt (some ⟨slash ++ (← get).scanner.cursor.rest, extent.start⟩)
  bump
  match ← token? with
  | some (.regex _ flags) => do
    setRegexAt none
    bump
    let extent ← since extent.start
    let flags := flags.toList
    if flags.any fun c => !isRegexFlag c then complain extent .unknownRegexFlags
    if let some c := repeatedFlag? flags then complain extent (.repeatedRegexFlag c)
    return some (.literal extent)
  | _ => return none

/-! ### Arrays -/

def arrayLiteral : Read Expr := within (fun c => { c with colonAhead := false }) do
  let start ← place
  expect .openBracket
  let (items, comma) ← iterate (fun ((got, comma) : List Expr × Option Extent) => do
    if (← atEnd) || (← isSym .closeBracket) then return ((got, comma), false)
    if ← eat .comma then return ((.hole :: got, comma), true)
    let e ← element r
    let comma ← (do
      unless ← isSym .closeBracket do
        expect .comma
        if ← isSym .closeBracket then return some (← get).last
      return none)
    return ((e :: got, comma), true)) (([], none) : List Expr × Option Extent)
  expect .closeBracket
  return .array items.reverse comma (← since start)

/-! ### Objects -/

/-- Whether something can follow the name of a property in an object literal. -/
def followsPropertyName (key : Key) : Read Bool := do
  match ← token? with
  | some (.symbol .closeBrace) =>
    match key with
    | .ident _ _ => return true
    | _ => return false
  | some (.symbol s) =>
    return [.openParen, .openBracket, .colon, .comma, .question, .equals, .star, .less].contains s
  | some (.word _) | some (.plainWord _) | some (.string _ _) | some (.number _) => return true
  | _ => return false

/-- A method or accessor after the word in front of its name. -/
def objectMethod (word : String) (start : Nat) : Read Expr := do
  let isGenerator ← if word = "async" then eat .star else pure false
  let key ← propertyName r
  within insideMethod do
    match word with
    | "get" => do
      let _ ← functionTailWith r (checkGetter key.extent) false false
    | "set" => do
      let (ps, _) ← functionTailWith r (checkSetter key.extent) false false
      if ps.isEmpty then complain key.extent .setterParameterCount
    | _ => do
      let _ ← functionTail r true isGenerator
  return .method (← since start)

def property : Read Expr := do
  let start ← place
  if ← eat .ellipsis then
    let inner ← withIn r.assignment
    return .spread inner (← since start)
  if ← eat .star then
    let _ ← propertyName r
    let _ ← within insideMethod (functionTail r false true)
    return .method (← since start)
  let modified ← eatParameterModifier
  let modifiersExtent := (← get).last
  let key ← propertyName r
  if (← typed) && !(← followsPropertyName key) then
    complain (← here) .semicolonNeeded
    let extent ← since start
    return .field (.invalid extent) extent
  if ← eat .colon then
    let value ← withIn r.assignment
    return .field value (← since start)
  if (← isSym .openParen) || ((← typed) && (← isSym .less)) then
    let _ ← within insideMethod (functionTail r false false)
    return .method (← since start)
  match key with
  | .ident name extent => do
    if ← eat .question then complain (← get).last .optionalMember
    if ← isOneOf [.equals, .comma, .closeBrace] then
      if ← eat .equals then
        let _ ← withIn r.assignment
        return .shorthandValue name extent (← since extent.start)
      return .name name extent
    if name = "get" || name = "set" || name = "async" then
      if modified then complain modifiersExtent .asyncHere
      return ← objectMethod r name start
    if ← typed then
      failUnexpected
        "... , *,  (, [, :, , ?, =, an identifier, public, protected, private, readonly, <."
    failUnexpected "... , *,  (, [, :, , ?, = or an identifier"
  | _ => failUnexpected "identifier"

def objectLiteral : Read Expr := within (fun c => { c with colonAhead := false }) do
  let start ← place
  let _ ← required
  bump
  let properties ← collect (do
    if ← eat .closeBrace then return none
    let p ← property r
    unless ← isSym .closeBrace do expect .comma
    return some p)
  return .object properties (← since start)

end TypeOnly.Source.Grammar
