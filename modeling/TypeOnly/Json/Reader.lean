import TypeOnly.Dictionary
import TypeOnly.Json.Value
import TypeOnly.Text.Character

/-!
Reading JSON. The text is read from left to right; the first thing that is wrong ends the reading
with a fault and the byte it was found at.
-/

namespace TypeOnly.Json

set_option autoImplicit false

/-- Why a text is no JSON document. -/
inductive Fault where
  | endInList
  | endInObject
  | endInString
  | endInValue
  | colonNeeded
  | listEndNeeded
  | objectEndNeeded
  | wordNeeded
  | valueNeeded
  | invalidEscape
  | invalidNumber
  | numberTooLarge
  | controlCharacter
  | keyNeeded
  | loneSurrogate
  | unfinishedSurrogate
  | trailingComma
  | trailingText
  | tooDeep
deriving DecidableEq, Repr

namespace Fault

def message : Fault → String
  | endInList => "EOF while parsing a list"
  | endInObject => "EOF while parsing an object"
  | endInString => "EOF while parsing a string"
  | endInValue => "EOF while parsing a value"
  | colonNeeded => "expected `:`"
  | listEndNeeded => "expected `,` or `]`"
  | objectEndNeeded => "expected `,` or `\x7d`"
  | wordNeeded => "expected ident"
  | valueNeeded => "expected value"
  | invalidEscape => "invalid escape"
  | invalidNumber => "invalid number"
  | numberTooLarge => "number out of range"
  | controlCharacter =>
    "control character (\\u0000-\\u001F) found while parsing a string"
  | keyNeeded => "key must be a string"
  | loneSurrogate => "lone leading surrogate in hex escape"
  | unfinishedSurrogate => "unexpected end of hex escape"
  | trailingComma => "trailing comma"
  | trailingText => "trailing characters"
  | tooDeep => "recursion limit exceeded"

end Fault

/-- A fault and the number of bytes before it. -/
structure Stop where
  fault : Fault
  index : Nat
deriving DecidableEq, Repr

/-- A place in the text: what is left, and the bytes before it. -/
structure Place where
  rest : List Char
  index : Nat

/-- How strictly a value is read. A value that is only passed over can hold numbers of any size and
characters that are half of a pair. -/
inductive Care where
  | exact
  | passing
deriving DecidableEq

/-- A reader of some of the text. -/
abbrev Scan (α : Type) := Place → Except Stop (α × Place)

/-! ### Places -/

namespace Scan

def stopAt {α : Type} (p : Place) (fault : Fault) : Except Stop α := .error ⟨fault, p.index⟩

/-- Fails at the byte that comes next; at the end of the text, at the end. -/
def stopNext {α : Type} (p : Place) (fault : Fault) : Except Stop α :=
  .error ⟨fault, if p.rest.isEmpty then p.index else p.index + 1⟩

def isJsonBlank (c : Char) : Bool := c = ' ' || c = '\n' || c = '\t' || c = '\r'

def skipFrom : List Char → Nat → Place
  | [], i => ⟨[], i⟩
  | c :: rest, i => if isJsonBlank c then skipFrom rest (i + 1) else ⟨c :: rest, i⟩

def skipBlanks (p : Place) : Place := skipFrom p.rest p.index

/-! ### Words and numbers -/

/-- The rest of a word. -/
def word (wanted : List Char) (value : Json) : Scan Json := fun p =>
  match wanted with
  | [] => .ok (value, p)
  | w :: wanted =>
    match p.rest with
    | [] => stopAt p .endInValue
    | c :: rest =>
      let next : Place := ⟨rest, p.index + c.utf8Size⟩
      if c = w then word wanted value next
      else .error ⟨.wordNeeded, p.index + 1⟩

def isJsonDigit (c : Char) : Bool := '0' ≤ c && c ≤ '9'

def digitOf (c : Char) : Nat := c.toNat - '0'.toNat

/-- Digits, for as long as the number they make fits in 64 bits; gives how many there were. -/
def digitsFrom : Nat → Nat → List Char → Nat → Nat × Nat × Place
  | value, count, [], i => (value, count, ⟨[], i⟩)
  | value, count, c :: rest, i =>
    if isJsonDigit c && value * 10 + digitOf c < Nat.pow 2 64 then
      digitsFrom (value * 10 + digitOf c) (count + 1) rest (i + 1)
    else (value, count, ⟨c :: rest, i⟩)

/-- Passes over digits; gives how many there were. -/
def countDigits : Nat → List Char → Nat → Nat × Place
  | count, [], i => (count, ⟨[], i⟩)
  | count, c :: rest, i =>
    if isJsonDigit c then countDigits (count + 1) rest (i + 1) else (count, ⟨c :: rest, i⟩)

def powerOfTen (n : Nat) : Float := (Double.ofRatio (Nat.pow 10 n) 1).toFloat

/-- `f * 10 ^ e` in the steps that powers of ten up to `1e308` allow; `none` if it is too large. -/
def scaleFloat : Nat → Float → Int → Option Float
  | 0, f, _ => some f
  | steps + 1, f, e =>
    if e.natAbs ≤ 308 then
      if 0 ≤ e then
        let g := f * powerOfTen e.toNat
        if g.isInf then none else some g
      else some (f / powerOfTen e.natAbs)
    else if f == 0.0 then some f
    else if 0 ≤ e then none
    else scaleFloat steps (f / powerOfTen 308) (e + 308)

def floatOf (care : Care) (positive : Bool) (digits : Nat) (e : Int) (p : Place) :
    Except Stop (Json × Place) :=
  match scaleFloat 8 (UInt64.ofNat digits).toFloat e with
  | some f => .ok (.number (.float (.ofFloat (if positive then f else -f))), p)
  | none =>
    match care with
    | .exact => stopAt p .numberTooLarge
    | .passing => .ok (.null, p)

/-- The digits of an exponent; `none` when they make a number too large for any exponent. -/
def exponentFrom : Nat → List Char → Nat → Option Nat × Place
  | value, [], i => (some value, ⟨[], i⟩)
  | value, c :: rest, i =>
    if isJsonDigit c then
      let next := value * 10 + digitOf c
      if next < Nat.pow 2 31 then exponentFrom next rest (i + 1) else (none, ⟨rest, i + 1⟩)
    else (some value, ⟨c :: rest, i⟩)

def exponentPart (care : Care) (positive : Bool) (digits : Nat) (e : Int) : Scan Json := fun p =>
  let p : Place := ⟨p.rest.drop 1, p.index + 1⟩
  let (up, p) : Bool × Place := match p.rest with
    | '+' :: rest => (true, ⟨rest, p.index + 1⟩)
    | '-' :: rest => (false, ⟨rest, p.index + 1⟩)
    | _ => (true, p)
  match p.rest with
  | [] => stopAt p .endInValue
  | c :: _ =>
    if isJsonDigit c then
      match exponentFrom 0 p.rest p.index with
      | (some x, p) => floatOf care positive digits (if up then e + x else e - x) p
      | (none, p) =>
        if care = .exact && digits ≠ 0 && up then stopAt p .numberTooLarge
        else
          let (_, p) := countDigits 0 p.rest p.index
          .ok (.number (.float (.ofFloat (if positive then 0.0 else -0.0))), p)
    else .error ⟨.invalidNumber, p.index + 1⟩

/-- A fraction from its point on. Digits beyond what fits in 64 bits are not looked at. -/
def fractionPart (care : Care) (positive : Bool) (digits : Nat) (e : Int) : Scan Json := fun p =>
  let (value, count, p) := digitsFrom digits 0 (p.rest.drop 1) (p.index + 1)
  let (skipped, p) := countDigits 0 p.rest p.index
  if count + skipped = 0 then
    if p.rest.isEmpty then stopNext p .endInValue else stopNext p .invalidNumber
  else
    match p.rest with
    | 'e' :: _ | 'E' :: _ => exponentPart care positive value (e - count) p
    | _ => floatOf care positive value (e - count) p

/-- What follows the digits before the point. -/
def numberEnd (care : Care) (positive : Bool) (digits : Nat) : Scan Json := fun p =>
  match p.rest with
  | '.' :: _ => fractionPart care positive digits 0 p
  | 'e' :: _ | 'E' :: _ => exponentPart care positive digits 0 p
  | _ =>
    if positive then .ok (.number (.int digits), p)
    else if 0 < digits && digits ≤ Nat.pow 2 63 then .ok (.number (.int (-digits)), p)
    else .ok (.number (.float (.ofFloat (-(UInt64.ofNat digits).toFloat))), p)

def number (care : Care) (positive : Bool) : Scan Json := fun p =>
  match p.rest with
  | [] => stopAt p .endInValue
  | '0' :: rest =>
    let next : Place := ⟨rest, p.index + 1⟩
    if rest.head?.any isJsonDigit then stopNext next .invalidNumber
    else numberEnd care positive 0 next
  | c :: _ =>
    if isJsonDigit c then
      let (value, _, next) := digitsFrom 0 0 p.rest p.index
      if next.rest.head?.any isJsonDigit then
        let (more, next) := countDigits 0 next.rest next.index
        match next.rest with
        | '.' :: _ => fractionPart care positive value more next
        | 'e' :: _ | 'E' :: _ => exponentPart care positive value more next
        | _ => floatOf care positive value more next
      else numberEnd care positive value next
    else .error ⟨.invalidNumber, p.index + 1⟩

/-! ### Strings -/

def bytesIn : List Char → Nat
  | [] => 0
  | c :: rest => c.utf8Size + bytesIn rest

def fourDigits (a b c d : Char) : Option Nat := do
  let a ← TypeOnly.Text.digitValue? a
  let b ← TypeOnly.Text.digitValue? b
  let c ← TypeOnly.Text.digitValue? c
  let d ← TypeOnly.Text.digitValue? d
  return ((a * 16 + b) * 16 + c) * 16 + d

/-- Four hexadecimal digits of an escape. -/
def hexEscape : Scan Nat := fun p =>
  if bytesIn (p.rest.take 4) < 4 then .error ⟨.endInString, p.index + bytesIn p.rest⟩
  else
    match p.rest with
    | a :: b :: c :: d :: rest =>
      match fourDigits a b c d with
      | some n => .ok (n, ⟨rest, p.index + 4⟩)
      | none => .error ⟨.invalidEscape, p.index + 4⟩
    | _ => .error ⟨.invalidEscape, p.index + 4⟩

/-- Takes one character of a pair of surrogate escapes. -/
def pairMark (wanted : Char) : Scan Unit := fun p =>
  match p.rest with
  | [] => stopAt p .endInString
  | c :: rest =>
    if c = wanted then .ok ((), ⟨rest, p.index + 1⟩)
    else .error ⟨.unfinishedSurrogate, p.index + 1⟩

/-- A character by its code, which two escapes can share. -/
def unicodeEscape (care : Care) : Scan Char := fun p => do
  let (n, p) ← hexEscape p
  if care = .passing then return (Char.ofNat n, p)
  else if 0xdc00 ≤ n && n ≤ 0xdfff then stopAt p .loneSurrogate
  else if 0xd800 ≤ n && n ≤ 0xdbff then
    let (_, p) ← pairMark '\\' p
    let (_, p) ← pairMark 'u' p
    let (m, p) ← hexEscape p
    if m < 0xdc00 || 0xdfff < m then stopAt p .loneSurrogate
    else return (Char.ofNat (0x10000 + (n - 0xd800) * 0x400 + (m - 0xdc00)), p)
  else return (Char.ofNat n, p)

def escape (care : Care) : Scan Char := fun p =>
  match p.rest with
  | [] => stopAt p .endInString
  | c :: rest =>
    let next : Place := ⟨rest, p.index + 1⟩
    match c with
    | '"' => .ok ('"', next)
    | '\\' => .ok ('\\', next)
    | '/' => .ok ('/', next)
    | 'b' => .ok ('\x08', next)
    | 'f' => .ok ('\x0c', next)
    | 'n' => .ok ('\n', next)
    | 'r' => .ok ('\r', next)
    | 't' => .ok ('\t', next)
    | 'u' => unicodeEscape care next
    | _ => .error ⟨.invalidEscape, p.index + 1⟩

/-- The characters of a string up to its closing quote. -/
def stringFrom (care : Care) : Nat → List Char → Place → Except Stop (List Char × Place)
  | 0, _, p => stopAt p .endInString
  | steps + 1, read, p =>
    match p.rest with
    | [] => stopAt p .endInString
    | '"' :: rest => .ok (read.reverse, ⟨rest, p.index + 1⟩)
    | '\\' :: rest =>
      match escape care ⟨rest, p.index + 1⟩ with
      | .ok (c, p) => stringFrom care steps (c :: read) p
      | .error s => .error s
    | c :: rest =>
      if c.toNat < 0x20 then .error ⟨.controlCharacter, p.index + 1⟩
      else stringFrom care steps (c :: read) ⟨rest, p.index + c.utf8Size⟩

def text (care : Care) : Scan String := fun p => do
  let (chars, p) ← stringFrom care (p.rest.length + 1) [] p
  return (String.ofList chars, p)

/-! ### Values -/

/-- The items of a list after its opening bracket. -/
def itemsFrom (item : Scan Json) : Nat → List Json → Place → Except Stop (List Json × Place)
  | 0, _, p => stopNext (skipBlanks p) .endInList
  | steps + 1, read, p =>
    let p := skipBlanks p
    match p.rest with
    | [] => stopNext p .endInList
    | ']' :: rest => .ok (read.reverse, ⟨rest, p.index + 1⟩)
    | c :: rest =>
      if read.isEmpty then
        match item p with
        | .ok (j, p) => itemsFrom item steps (j :: read) p
        | .error s => .error s
      else if c = ',' then
        let p := skipBlanks ⟨rest, p.index + 1⟩
        match p.rest with
        | [] => stopNext p .endInValue
        | ']' :: _ => stopNext p .trailingComma
        | _ =>
          match item p with
          | .ok (j, p) => itemsFrom item steps (j :: read) p
          | .error s => .error s
      else stopNext p .listEndNeeded

/-- A field from its opening quote on; its value is read as its name asks. -/
def fieldFrom (care : Care) (item : String → Scan Json) : Scan (String × Json) := fun p => do
  let (key, p) ← text care ⟨p.rest.drop 1, p.index + 1⟩
  let p := skipBlanks p
  match p.rest with
  | [] => stopNext p .endInObject
  | ':' :: rest =>
    let (value, p) ← item key ⟨rest, p.index + 1⟩
    return ((key, value), p)
  | _ => stopNext p .colonNeeded

/-- The fields of an object after its opening brace. -/
def fieldsFrom (care : Care) (item : String → Scan Json) :
    Nat → List (String × Json) → Place → Except Stop (List (String × Json) × Place)
  | 0, _, p => stopNext (skipBlanks p) .endInObject
  | steps + 1, read, p =>
    let p := skipBlanks p
    match p.rest with
    | [] => stopNext p .endInObject
    | '}' :: rest => .ok (read.reverse, ⟨rest, p.index + 1⟩)
    | c :: rest =>
      if read.isEmpty then
        if c = '"' then
          match fieldFrom care item p with
          | .ok (f, p) => fieldsFrom care item steps (f :: read) p
          | .error s => .error s
        else stopNext p .keyNeeded
      else if c = ',' then
        let p := skipBlanks ⟨rest, p.index + 1⟩
        match p.rest with
        | [] => stopNext p .endInValue
        | '"' :: _ =>
          match fieldFrom care item p with
          | .ok (f, p) => fieldsFrom care item steps (f :: read) p
          | .error s => .error s
        | '}' :: _ => stopNext p .trailingComma
        | _ => stopNext p .keyNeeded
      else stopNext p .objectEndNeeded

/-- A value whose lists and objects hold values read by `inner`; without it there can be none. -/
def valueWith (care : Care) (inner : Option (Scan Json)) : Scan Json := fun p =>
  let p := skipBlanks p
  match p.rest with
  | [] => stopNext p .endInValue
  | 'n' :: rest => word ['u', 'l', 'l'] .null ⟨rest, p.index + 1⟩
  | 't' :: rest => word ['r', 'u', 'e'] (.bool true) ⟨rest, p.index + 1⟩
  | 'f' :: rest => word ['a', 'l', 's', 'e'] (.bool false) ⟨rest, p.index + 1⟩
  | '-' :: rest => number care false ⟨rest, p.index + 1⟩
  | '"' :: rest => do
    let (s, p) ← text care ⟨rest, p.index + 1⟩
    return (.string s, p)
  | '[' :: rest =>
    match inner with
    | none => stopNext p .tooDeep
    | some item => do
      let (items, p) ← itemsFrom item (rest.length + 1) [] ⟨rest, p.index + 1⟩
      return (.array items, p)
  | '{' :: rest =>
    match inner with
    | none => stopNext p .tooDeep
    | some item => do
      let (fields, p) ← fieldsFrom care (fun _ => item) (rest.length + 1) [] ⟨rest, p.index + 1⟩
      return (.object (Dictionary.ofList fields).entries, p)
  | c :: _ => if isJsonDigit c then number care true p else stopNext p .valueNeeded

/-- A value, with lists and objects nested at most so deep. Of fields with the same name the last
one counts. -/
def value (care : Care) : Nat → Scan Json
  | 0 => valueWith care none
  | depth + 1 => valueWith care (some (value care depth))

def maxDepth : Nat := 127

/-- What makes up a whole text, with nothing but blanks after it. -/
def whole {α : Type} (scan : Scan α) (chars : List Char) : Except Stop α := do
  let (a, p) ← scan ⟨chars, 0⟩
  let p := skipBlanks p
  if p.rest.isEmpty then return a else stopNext p .trailingText

def document (chars : List Char) : Except Stop Json := whole (value .exact maxDepth) chars

end Scan

/-! ### Errors in their place -/

/-- A fault with its line, counted from one, and the bytes before it on that line. -/
structure ReadError where
  fault : Fault
  line : Nat
  column : Nat
deriving DecidableEq, Repr

namespace ReadError

/-- Counts the lines and the bytes of the last one, for the first `index` bytes of a text. -/
def locate : List Char → Nat → Nat → Nat → Nat × Nat
  | [], index, line, column => (line, column + index)
  | c :: rest, index, line, column =>
    if index < c.utf8Size then (line, column + index)
    else if c = '\n' then locate rest (index - 1) (line + 1) 0
    else locate rest (index - c.utf8Size) line (column + c.utf8Size)

def ofStop (chars : List Char) (s : Stop) : ReadError :=
  let (line, column) := locate chars s.index 1 0
  ⟨s.fault, line, column⟩

def shortMessage (e : ReadError) : String := e.fault.message

def message (e : ReadError) : String :=
  s!"{e.shortMessage} at line {e.line} column {e.column}"

end ReadError

def read (s : String) : Except ReadError Json :=
  (Scan.document s.toList).mapError (ReadError.ofStop s.toList)

end TypeOnly.Json
