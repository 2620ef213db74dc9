import TypeOnly.Source.Grammar.Type

/-!
Markup elements.
-/

namespace TypeOnly.Source.Grammar

set_option autoImplicit false

open TypeOnly.Text (Extent)
open Read

variable (r : Rules)

/-- A name without dots. -/
def markupWord : Read String := do
  match (← required).token with
  | .markupName name => do
    bump
    return name
  | _ => do
    if (← read).inForcedMarkup then return (← identifier).1
    failUnexpected "jsx identifier"

/-- A name that can have a namespace. -/
def attributeName : Read String := do
  let first ← markupWord
  if ← eat .colon then return first ++ ":" ++ (← markupWord)
  return first

/-- A name with a namespace or with properties. -/
def tagName : Read String := do
  iterate (fun (name : String) => do
    if ← eat .dot then return (name ++ "." ++ (← markupWord), true)
    return (name, false)) (← attributeName)

/-- An expression in braces; says whether there is one. -/
def braced : Read Bool := do
  bump
  let isEmpty ← isSym .closeBrace
  unless isEmpty do
    let _ ← eat .ellipsis
    let _ ← fullExpression r
  expect .closeBrace
  return !isEmpty

def attributeValue : Read Unit := do
  let start ← place
  match (← required).token with
  | .symbol .openBrace => unless ← braced r do failAt (← since start) .emptyMarkupAttribute
  | .string _ _ => bump
  | .tagStart => r.markup
  | _ => fail .markupValue

def tagAttribute : Read Unit := do
  if ← eat .openBrace then
    expect .ellipsis
    let _ ← r.assignment
    expect .closeBrace
  else
    let _ ← attributeName
    if ← eat .equals then
      within (fun c => { c with inConditional := false, colonAhead := false }) (attributeValue r)

/-- A tag after its opening bracket. A fragment has no name. -/
structure OpeningTag where
  name : Option String
  /-- Whether the element ends with it. -/
  isClosed : Bool

def openingTag : Read OpeningTag := do
  if ← eatToken .tagEnd then return ⟨none, false⟩
  let name ← tagName
  if (← typed) && (← isSym .less) then
    let _ ← attempt (do
      typeArguments r
      return some ())
  loop do
    if (← atEnd) || (← isSym .slash) || (← isToken .tagEnd) then return false
    tagAttribute r
    return true
  let isClosed ← eat .slash
  unless ← eatToken .tagEnd do
    unless ← pure (← read).inForcedMarkup <&&> eat .greater do
      failUnexpected "> (jsx closing tag)"
  return ⟨some name, isClosed⟩

def closingTag : Read (Option String) := do
  if ← eatToken .tagEnd then return none
  let name ← tagName
  unless ← eatToken .tagEnd do fail (.expected (describe .tagEnd) (← found))
  return some name

/-- What stands between the tags of an element, and the closing tag with its place. -/
def children : Read (Option String × Extent) :=
  iterate (fun (unclosed : Option String × Extent) => do
    let start ← place
    match (← required).token with
    | .tagStart => do
      if ← peekIsSym .slash then
        bump
        let _ ← required
        bump
        let name ← closingTag
        return ((name, ← since start), false)
      r.markup
      return (unclosed, true)
    | .markupText _ => do
      bump
      return (unclosed, true)
    | .symbol .openBrace => do
      let _ ← braced r
      return (unclosed, true)
    | _ => failUnexpected "< (jsx tag start), jsx text or \x7b") (none, .empty 0)

/-- An element or a fragment from its opening bracket on. Its closing tag has the same name. -/
def markup : Read Unit := do
  let forced := (← required).token != .tagStart
  bump
  within (fun c => { c with inForcedMarkup := forced, inType := false }) do
    let tag ← openingTag r
    unless tag.isClosed do
      let (closing, extent) ← children r
      if closing != tag.name then
        match tag.name with
        | some name => failAt extent (.closingTag name)
        | none => failAt extent .closingFragment

end TypeOnly.Source.Grammar
