import TypeOnly.Source.Frame
import TypeOnly.Source.Kind
import TypeOnly.Source.Number

/-!
Reading tokens one by one. A reader sees the current token, may look one further, and either takes
tokens away or fails. Tokens are found only when somebody asks for them, with the rules that hold
at that moment.
-/

namespace TypeOnly.Source

set_option autoImplicit false

open TypeOnly.Text

universe u

/-- What holds around the current token. -/
structure Context where
  dialect : Dialect
  /-- More than the number of characters of the text. -/
  bound : Nat
  inAsync : Bool := false
  inGenerator : Bool := false
  inFunction : Bool := false
  /-- Inside a function that is no arrow function. -/
  inOwnFunction : Bool := false
  inParameters : Bool := false
  inClass : Bool := false
  /-- In the value of a class field, or in a static block. -/
  inField : Bool := false
  inStaticBlock : Bool := false
  /-- Inside a method, where the base class can be spoken of. -/
  inMethod : Bool := false
  /-- Inside a class that extends another one. -/
  hasBase : Bool := false
  /-- Inside a `declare` or a declaration file. -/
  inDeclare : Bool
  inType : Bool := false
  inPropertyName : Bool := false
  /-- In a markup element whose bracket was not seen to start one. -/
  inForcedMarkup : Bool := false
  /-- Whether `in` is an operator here. -/
  allowIn : Bool := false
  /-- In the head of a loop. -/
  inLoopHead : Bool := false
  /-- In the head of a loop that waits for its elements. -/
  inAwaitLoopHead : Bool := false
  inConditional : Bool := false
  /-- Whether a colon has to follow, as in the middle of a conditional. -/
  colonAhead : Bool := false
  /-- Where an arrow function may start. -/
  arrowAt : Option Nat := none
  /-- Whether `extends` starts a conditional type here. -/
  allowConditional : Bool := true
  breakAllowed : Bool := false
  continueAllowed : Bool := false
  labels : List String := []
  /-- Few flaws are kept while reading on trial. -/
  quiet : Bool := false

namespace Context

def lexicon (c : Context) : Lexicon :=
  ⟨c.dialect.types, c.dialect.markup, c.inType, c.inPropertyName, c.bound⟩

end Context

/-- How far the text is read. -/
structure State where
  /-- The current token, once somebody has asked for it. -/
  current : Option Lexeme := none
  /-- The token after it, once somebody has asked for it. -/
  ahead : Option Lexeme := none
  /-- What finds the tokens after those. -/
  scanner : Scanner
  /-- The token taken last. -/
  last : Extent := .empty firstPlace
  /-- Flaws found so far, the latest first. -/
  flaws : List Flaw := []

/-- A reader of tokens. A failure carries the flaw that stopped it. -/
abbrev Read (α : Type) := ReaderT Context (EStateM Flaw State) α

namespace Read

variable {α β : Type}

def keep (i : Flaw) : Read Unit := modify fun s => { s with flaws := i :: s.flaws }

/-- Keeps a flaw, except on trial. -/
def note (i : Flaw) : Read Unit := do
  unless (← read).quiet do keep i

def findNext : Read (Option Lexeme) := do
  let s ← get
  let (lexeme, scanner, flaws) := s.scanner.next (← read).lexicon
  set { s with scanner }
  flaws.forM fun i => if i.fault.isToldOnTrial then keep i else note i
  return lexeme

/-- The current token, or `none` at the end of the text. -/
def current? : Read (Option Lexeme) := do
  let s ← get
  match s.current, s.ahead with
  | some l, _ => return some l
  | none, some l => do
    set { s with current := some l, ahead := none }
    return some l
  | none, none => do
    let found ← findNext
    modify fun s => { s with current := found }
    return found

def peek? : Read (Option Lexeme) := do
  let _ ← current?
  match (← get).ahead with
  | some l => return some l
  | none => do
    let found ← findNext
    modify fun s => { s with ahead := found }
    return found

/-- The place of the current token; at the end of the text, of the last one. -/
def here : Read Extent := do
  match ← current? with
  | some l => return l.extent
  | none => return (← get).last

/-- The place of the current token as far as it is known: that of the last one, before anybody has
asked for it. -/
def hereKnown : Read Extent := do
  let s ← get
  match s.current with
  | some l => return l.extent
  | none => return s.last

def place : Read Nat := do
  match ← current? with
  | some l => return l.extent.start
  | none => return (← get).last.stop

/-- The extent between two places, whichever comes first. -/
def between (a b : Nat) : Extent := if a ≤ b then ⟨a, b⟩ else ⟨b, a⟩

/-- The extent from a place to the end of the last token. -/
def since (start : Nat) : Read Extent := do
  return between start (← get).last.stop

def bump : Read Unit := do
  match ← current? with
  | some l => modify fun s => { s with current := none, last := l.extent }
  | none => return ()

/-- Takes the current token if it is no proper one, and gives its flaw. -/
def takeBad? : Read (Option Flaw) := do
  match ← current? with
  | some l =>
    match l.token with
    | .bad i => do
      bump
      return some i
    | _ => return none
  | none => return none

/-- Notes a flaw and goes on. Text that is no token is noted before it. -/
def report (i : Flaw) : Read Unit := do
  unless (← read).quiet do
    if let some bad ← takeBad? then note bad
    note i

def complain (extent : Extent) (fault : Fault) : Read Unit := report ⟨extent, fault⟩

/-- Notes a fault against the rules of module code. -/
def complainStrict (extent : Extent) (fault : Fault) : Read Unit := note ⟨extent, fault⟩

/-- Fails with a fault at a place. Text that is no token is noted first. -/
def failAt (extent : Extent) (fault : Fault) : Read α := do
  if let some bad ← takeBad? then report bad
  throw ⟨extent, fault⟩

def fail (fault : Fault) : Read α := do failAt (← here) fault

def describe : Token → String
  | .word name | .plainWord name => name
  | .symbol s => s.text
  | .string value raw => s!"string literal ({value}, {raw})"
  | .number raw =>
    let value := (numberValue raw).plainText
    s!"numeric literal ({value}, {raw})"
  | .bigint raw =>
    let value := integerValue raw
    s!"bigint literal ({value}, {raw})"
  | .regex body flags => s!"regexp literal ({body}, {flags})"
  | .templateText raw _ => s!"template token ({raw})"
  | .markupName name => s!"jsx name ({name})"
  | .markupText raw => s!"jsx text ({raw})"
  | .tagStart => "< (jsx tag start)"
  | .tagEnd => "> (jsx tag end)"
  | .bad i => i.tokenText

/-- The current token as a message names it. -/
def found : Read String := do
  match ← current? with
  | some l => return describe l.token
  | none => return "<eof>"

/-- The current token as a message names one that may be missing. -/
def foundOption : Read String := do
  match ← current? with
  | some l => return "Some(" ++ describe l.token ++ ")"
  | none => return "None"

def failUnexpected (wanted : String) : Read α := do fail (.unexpected (← found) wanted)

/-- The current token; the end of the text and text that is no token fail. -/
def required : Read Lexeme := do
  if let some bad ← takeBad? then throw bad
  match ← current? with
  | some l => return l
  | none => throw ⟨.empty (← get).last.stop, .endOfText⟩

/-! ### Asking -/

def token? : Read (Option Token) := do return (← current?).map (·.token)

def peekToken? : Read (Option Token) := do return (← peek?).map (·.token)

def atEnd : Read Bool := do return (← current?).isNone

def isSym (s : Symbol) : Read Bool := do return (← token?) == some (.symbol s)

def isToken (t : Token) : Read Bool := do return (← token?) == some t

def isWord (w : String) : Read Bool := do return (← token?) == some (.word w)

def isOneOf (symbols : List Symbol) : Read Bool := do
  match ← token? with
  | some (.symbol s) => return symbols.contains s
  | _ => return false

def isWordOf (words : List String) : Read Bool := do
  match ← token? with
  | some (.word w) => return words.contains w
  | _ => return false

/-- Whether the current token is a binary operator that is a symbol. -/
def isOperator : Read Bool := do
  match ← token? with
  | some (.symbol s) => return s.isBinary
  | _ => return false

def isAssignment : Read Bool := do
  match ← token? with
  | some (.symbol .equals) | some (.symbol (.compound _)) => return true
  | _ => return false

def peekIsSym (s : Symbol) : Read Bool := do return (← peekToken?) == some (.symbol s)

def peekIsWord (w : String) : Read Bool := do return (← peekToken?) == some (.word w)

/-- Whether the current token is an identifier or a keyword. -/
def isAnyWord : Read Bool := do return (← token?).any Token.isWord

def peekIsAnyWord : Read Bool := do return (← peekToken?).any Token.isWord

def isName : Read Bool := do return (← token?).any Token.isName

def peekIsName : Read Bool := do return (← peekToken?).any Token.isName

/-- Whether the current token starts a new line; the end of the text does. -/
def afterLineEnd : Read Bool := do
  match ← current? with
  | some l => return l.afterLineEnd
  | none => return true

def peekAfterLineEnd : Read Bool := do
  match ← peek? with
  | some l => return l.afterLineEnd
  | none => return true

def typed : Read Bool := do return (← read).dialect.types

def hasMarkup : Read Bool := do return (← read).dialect.markup

/-! ### Taking -/

def eat (s : Symbol) : Read Bool := do
  if ← isSym s then bump; return true else return false

def eatToken (t : Token) : Read Bool := do
  if ← isToken t then bump; return true else return false

def eatWord (w : String) : Read Bool := do
  if ← isWord w then bump; return true else return false

def expect (s : Symbol) : Read Unit := do
  unless ← eat s do fail (.expected s.text (← found))

def expectWord (w : String) : Read Unit := do
  unless ← eatWord w do fail (.expected w (← found))

/-- Whether a statement may end here: at a semicolon, a closing brace, a line end or the end. -/
def atStatementEnd : Read Bool := do
  match ← token? with
  | none => return true
  | some (.symbol .semicolon) | some (.symbol .closeBrace) => return true
  | some _ => afterLineEnd

/-- Takes the semicolon of a statement; one that can be left out need not be there. -/
def eatEnd : Read Bool := do
  if ← isSym .semicolon then bump; return true else atStatementEnd

def expectEnd : Read Unit := do
  unless ← eatEnd do fail (.expected ";" (← found))

/-! ### Combining -/

def within (f : Context → Context) (p : Read α) : Read α := fun c => p (f c)

def asType (p : Read α) : Read α := within (fun c => { c with inType := true }) p

def asValue (p : Read α) : Read α := within (fun c => { c with inType := false }) p

/-- Reads where `in` is an operator. -/
def withIn (p : Read α) : Read α := within (fun c => { c with allowIn := true }) p

/-- Reads on trial: if nothing comes of it, nothing is taken. Only typed sources try. -/
def attempt (p : Read (Option α)) : Read (Option α) := fun c s =>
  if !c.dialect.types then .ok none s
  else match p { c with quiet := true } s with
    | .ok (some a) s' => .ok (some a) s'
    | .ok none s' | .error _ s' => .ok none { s with flaws := s'.flaws }

/-- What a reader would give here, without taking anything. -/
def preview (p : Read α) : Read α := fun c s =>
  match p { c with quiet := true } s with
  | .ok a s' => .ok a { s with flaws := s'.flaws }
  | .error i s' => .error i { s with flaws := s'.flaws }

/-- Whether a reader would succeed with `true` here. -/
def lookAhead (p : Read Bool) : Read Bool := fun c s =>
  match preview p c s with
  | .ok a s => .ok a s
  | .error _ s => .ok false s

/-- Reads, and on failure goes on from where the failure was found. -/
def recover (p : Read α) (handle : Flaw → Read α) : Read α := fun c s =>
  match p c s with
  | .ok a s' => .ok a s'
  | .error i s' => handle i c s'

def loopUpTo (step : Read Bool) : Nat → Read Unit
  | 0 => return ()
  | n + 1 => do if ← step then loopUpTo step n

/-- Repeats a step until it says `false`. A step that says `true` takes a token. -/
def loop (step : Read Bool) : Read Unit := do loopUpTo step (← read).bound

def collectUpTo (step : Read (Option α)) : Nat → List α → Read (List α)
  | 0, got => return got.reverse
  | n + 1, got => do
    match ← step with
    | some a => collectUpTo step n (a :: got)
    | none => return got.reverse

/-- Repeats a step until it gives nothing. A step that gives something takes a token. -/
def collect (step : Read (Option α)) : Read (List α) := do collectUpTo step (← read).bound []

def iterateUpTo (step : α → Read (α × Bool)) : Nat → α → Read α
  | 0, a => return a
  | n + 1, a => do
    let (a, more) ← step a
    if more then iterateUpTo step n a else return a

/-- Repeats a step on what it has made so far, until it says `false`. -/
def iterate (step : α → Read (α × Bool)) (a : α) : Read α := do
  iterateUpTo step (← read).bound a

/-! ### The scanner -/

def setExpressionAllowed (allowed : Bool) : Read Unit :=
  modify fun s => { s with scanner := { s.scanner with expressionAllowed := allowed } }

def modifyFrames (f : Frames → Frames) : Read Unit :=
  modify fun s => { s with scanner := { s.scanner with frames := f s.scanner.frames } }

/-- Reads with only the outermost frame open. -/
def withoutFrames (p : Read α) : Read α := do
  let frames := (← get).scanner.frames
  modifyFrames fun _ => frames.drop (frames.length - 1)
  let a ← recover p fun i => do
    modifyFrames fun _ => frames
    throw i
  modifyFrames fun _ => frames
  return a

/-- Says that the next token is a regular expression that starts at a place, or that it is not. -/
def setRegexAt (start : Option Cursor) : Read Unit :=
  modify fun s => { s with scanner := { s.scanner with regexAt := start } }

/-- Splits a double bracket, of which the first half is done. -/
def cutDoubleLess : Read Unit := do
  match ← current? with
  | some l =>
    let half : Lexeme := ⟨.symbol .less, ⟨l.extent.start + 1, l.extent.stop⟩, false⟩
    modify fun s => { s with current := some half }
  | none => return ()

/-! ### Names -/

def anyName : Read (String × Extent) := do
  let l ← required
  match l.token.name? with
  | some name => do
    bump
    return (name, l.extent)
  | none => fail .identifierNeeded

/-- A word that can be an identifier. The flag says that `yield` can be one here. -/
def identifierWith (allowYield : Bool) : Read (String × Extent) := do
  let l ← required
  match l.token with
  | .plainWord name => do
    bump
    named name l.extent
  | .word name => do
    bump
    if name = "enum" then complain l.extent (.strictName name)
    else if strictWords.contains name then complainStrict l.extent (.strictName name)
    let c ← read
    if name = "await" then
      if c.inDeclare then return (name, l.extent)
      else if c.inStaticBlock then failAt l.extent .identifierNeeded
      else failAt l.extent .awaitAsName
    else if name = "this" && c.dialect.types then return (name, l.extent)
    else if name = "enum" || name = "let" then return (name, l.extent)
    else if name = "yield" then
      if allowYield then return (name, l.extent) else failAt l.extent .identifierNeeded
    else if isKeyword name then failAt l.extent .identifierNeeded
    else named name l.extent
  | _ => fail .identifierNeeded
where
  /-- A plain name; that of the arguments is not for fields. -/
  named (name : String) (extent : Extent) : Read (String × Extent) := do
    if name = "arguments" && (← read).inField then complain extent .argumentsInField
    return (name, extent)

def identifier : Read (String × Extent) := do identifierWith (!(← read).inGenerator)

/-- An identifier that is being declared. -/
def bindingName : Read (String × Extent) := do
  let (name, extent) ← identifierWith true
  if name = "eval" || name = "arguments" then complainStrict extent .strictBinding
  let c ← read
  if (c.inAsync || c.inStaticBlock) && name = "await" then complain extent .identifierNeeded
  if c.inGenerator && name = "yield" then complain extent .identifierNeeded
  return (name, extent)

end Read

end TypeOnly.Source
