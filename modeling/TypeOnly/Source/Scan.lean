import TypeOnly.Source.Number
import TypeOnly.Source.Token
import TypeOnly.Text.Entity

/-!
Finding a token at a place in the text. Each reader gives the token, the place after it, and what
is wrong with the text in between; text that cannot be a token is a token of its own kind, and the
next one is looked for where the trouble was found.
-/

namespace TypeOnly.Source

set_option autoImplicit false

open TypeOnly.Text

/-- What a reader of characters found. -/
structure Scanned where
  token : Token
  next : Cursor
  flaws : List Flaw := []

namespace Scanned

/-- Text that is no token, for a fault between two places. -/
def fail (start : Nat) (fault : Fault) (next : Cursor) (flaws : List Flaw) : Scanned :=
  ⟨.bad ⟨⟨start, next.place⟩, fault⟩, next, flaws⟩

end Scanned

/-! ### Blanks and comments -/

/-- What a character between two tokens belongs to. -/
inductive Gap where
  | blanks
  | lineComment
  | blockComment (start : Nat)

/-- The stretch between two tokens. -/
structure Interval where
  next : Cursor
  lineEnd : Bool
  flaws : List Flaw

def skipGap : Gap → Bool → Nat → List Char → Interval
  | .blockComment start, lineEnd, place, [] =>
    ⟨⟨[], place⟩, lineEnd, [⟨⟨start, place⟩, .unterminatedComment⟩]⟩
  | _, lineEnd, place, [] => ⟨⟨[], place⟩, lineEnd, []⟩
  | .blanks, lineEnd, place, '/' :: '/' :: rest => skipGap .lineComment lineEnd (place + 2) rest
  | .blanks, lineEnd, place, '/' :: '*' :: rest =>
    skipGap (.blockComment place) lineEnd (place + 2) rest
  | .blanks, lineEnd, place, c :: rest =>
    if isGap c then skipGap .blanks (lineEnd || isLineEnd c) (place + c.utf8Size) rest
    else ⟨⟨c :: rest, place⟩, lineEnd, []⟩
  | .lineComment, lineEnd, place, c :: rest =>
    if isLineEnd c then skipGap .blanks true (place + c.utf8Size) rest
    else skipGap .lineComment lineEnd (place + c.utf8Size) rest
  | .blockComment _, lineEnd, place, '*' :: '/' :: rest => skipGap .blanks lineEnd (place + 2) rest
  | .blockComment start, lineEnd, place, c :: rest =>
    skipGap (.blockComment start) (lineEnd || isLineEnd c) (place + c.utf8Size) rest

/-- Passes over the rest of a line that counts as a comment, and the gap after it. -/
def skipLine (lineEnd : Bool) (c : Cursor) : Interval := skipGap .lineComment lineEnd c.place c.rest

/-! ### Digits -/

def isDigitOf (base : Nat) (c : Char) : Bool := (digitValue? c).any (· < base)

structure DigitRun where
  value : Nat
  count : Nat
  /-- Whether an eight or a nine is among them. -/
  beyondOctal : Bool
  next : Cursor
  flaws : List Flaw

/-- Reads digits from `start` on, as long as `more` says of those read that another one is wanted. A
separator has to stand between two digits. -/
def digitRun (base start : Nat) (more : DigitRun → Bool) : DigitRun → List Char → Nat → DigitRun
  | run, [], place => { run with next := ⟨[], place⟩ }
  | run, c :: rest, place =>
    if !more run then { run with next := ⟨c :: rest, place⟩ }
    else if c = '_' then
      let misplaced := run.count = 0 || !rest.head?.any (isDigitOf base)
      let flaws :=
        if misplaced then run.flaws ++ [⟨⟨start, place⟩, .numberSeparator⟩] else run.flaws
      digitRun base start more { run with flaws } rest (place + 1)
    else match digitValue? c with
      | some d =>
        if d < base then
          digitRun base start more
            { run with
              value := run.value * base + d, count := run.count + 1,
              beyondOctal := run.beyondOctal || d = 8 || d = 9 }
            rest (place + 1)
        else { run with next := ⟨c :: rest, place⟩ }
      | none => { run with next := ⟨c :: rest, place⟩ }

def digitsWhile (base : Nat) (more : DigitRun → Bool) (c : Cursor) : DigitRun :=
  digitRun base c.place more ⟨0, 0, false, c, []⟩ c.rest c.place

def digitsAt (base : Nat) (c : Cursor) : DigitRun := digitsWhile base (fun _ => true) c

def digitsUpTo (base limit : Nat) (c : Cursor) : DigitRun :=
  digitsWhile base (fun run => run.count < limit) c

/-! ### Escapes -/

inductive CodeEscape where
  | chars (value : List Char) (next : Cursor) (flaws : List Flaw)
  /-- A fault, the place it is counted from in a name, and the place where it was found. -/
  | fault (fault : Fault) (start : Nat) (next : Cursor) (flaws : List Flaw)

/-- The characters that stand for a lone half of a pair: its own spelling, a few characters of
it. -/
def halfSpelling (braced : Bool) (c : Cursor) : List Char :=
  if braced then (c.rest.take 6).takeWhile (· ≠ '}') else c.rest.take 4

/-- Codes do not reach this one; digits are not read beyond it. -/
def codeLimit : Nat := Nat.pow 2 32

/-- The escape of a code point, from after its `u` on. A lone half of a pair keeps its spelling. -/
def codeEscape (c : Cursor) : CodeEscape :=
  let braced := c.rest.head? = some '{'
  let c := if braced then c.skip 1 else c
  let run :=
    if braced then digitsWhile 16 (fun run => run.value < codeLimit) c else digitsUpTo 16 4 c
  let wanted := if braced then "1-6 hex characters" else "4 hex characters"
  if run.count = 0 || (!braced && run.count < 4) || codeLimit ≤ run.value then
    .fault (.escapeDigits wanted) run.next.place run.next run.flaws
  else if 0x10ffff < run.value then
    .fault (.escapeDigits "1-6 hex characters in the range 0 to 10FFFF.") run.next.place run.next
      run.flaws
  else
    let isHalf := 0xd800 ≤ run.value && run.value ≤ 0xdfff
    let spelling := halfSpelling braced c
    let next := if isHalf then c.skip spelling.length else run.next
    let value :=
      if !isHalf then [Char.ofNat run.value]
      else if braced then '\\' :: 'u' :: '{' :: spelling ++ ['}']
      else '\\' :: 'u' :: spelling
    if !braced then .chars value next run.flaws
    else if next.rest.head? = some '}' then .chars value (next.skip 1) run.flaws
    else .fault .unicodeEscape c.place next run.flaws

inductive Escape where
  | chars (value : List Char) (next : Cursor) (flaws : List Flaw)
  | fault (flaw : Flaw) (next : Cursor) (flaws : List Flaw)

/-- The octal digits of an old escape after its first one, while the code stays below 256. -/
def octalDigits : Nat → Nat → Cursor → Nat × Cursor
  | 0, value, c => (value, c)
  | count + 1, value, c =>
    match c.rest.head? with
    | some d =>
      if '0' ≤ d && d ≤ '7' && value * 8 + (d.toNat - '0'.toNat) < 256 then
        octalDigits count (value * 8 + (d.toNat - '0'.toNat)) (c.skip 1)
      else (value, c)
    | none => (value, c)

def scanEscape (inTemplate : Bool) (start : Cursor) : Escape :=
  let c := start.skip 1
  let next := c.skip 1
  match c.rest with
  | [] => .fault ⟨.empty start.place, .stringEscape⟩ c []
  | 'n' :: _ => .chars ['\n'] next []
  | 'r' :: _ => .chars ['\r'] next []
  | 't' :: _ => .chars ['\t'] next []
  | 'b' :: _ => .chars ['\x08'] next []
  | 'v' :: _ => .chars ['\x0b'] next []
  | 'f' :: _ => .chars ['\x0c'] next []
  | '\r' :: '\n' :: _ => .chars [] (c.skip 2) []
  | 'x' :: _ =>
    let run := digitsUpTo 16 2 next
    if run.count = 2 then .chars [Char.ofNat run.value] run.next run.flaws
    else
      .fault ⟨⟨start.place, run.next.place⟩, .escapeDigits "2 hex characters"⟩ run.next
        run.flaws
  | 'u' :: _ =>
    match codeEscape next with
    | .chars value next flaws => .chars value next flaws
    | .fault fault _ next flaws => .fault ⟨⟨start.place, next.place⟩, fault⟩ next flaws
  | d :: after =>
    if isLineEnd d then .chars [] next []
    else if '0' ≤ d && d ≤ '7' then
      if d = '0' && !after.head?.any (isDigitOf 8) then .chars ['\x00'] next []
      else if inTemplate then
        .fault ⟨⟨start.place, next.place⟩, .legacyOctal⟩ next []
      else
        let first := d.toNat - '0'.toNat
        let (code, stop) := octalDigits 2 first next
        .chars [Char.ofNat code] stop [⟨⟨start.place, next.place⟩, .legacyEscape⟩]
    else .chars [d] next []

/-! ### Words -/

structure WordRun where
  /-- The characters, the last one first. -/
  chars : List Char
  escaped : Bool
  next : Cursor
  flaws : List Flaw
  /-- What keeps the word from being one. -/
  fault : Option Flaw

def wordRun : Nat → WordRun → WordRun
  | 0, run => run
  | steps + 1, run =>
    match run.next.rest with
    | '\\' :: 'u' :: _ =>
      let start := run.next.place
      match codeEscape (run.next.skip 2) with
      | .chars value next flaws =>
        let fits := value.head?.any isNamePart
        let flaws :=
          if fits then flaws else flaws ++ [⟨⟨start, next.place⟩, Fault.nameCharacter⟩]
        wordRun steps ⟨value.reverse ++ run.chars, true, next, run.flaws ++ flaws, none⟩
      | .fault fault from_ next flaws =>
        { run with
          next, flaws := run.flaws ++ flaws, fault := some ⟨⟨from_, next.place⟩, fault⟩ }
    | '\\' :: _ =>
      { run with
        next := run.next.skip 1, fault := some ⟨.empty run.next.place, .unicodeEscapeNeeded⟩ }
    | c :: rest =>
      if isNamePart c then
        wordRun steps
          { run with chars := c :: run.chars, next := ⟨rest, run.next.place + c.utf8Size⟩ }
      else run
    | [] => run

/-- Reads the characters of a word at a place; the text is shorter than the bound. -/
def wordAt (bound : Nat) (c : Cursor) : WordRun := wordRun bound ⟨[], false, c, [], none⟩

/-- Reads a word. Only one that starts with a plain letter can be a keyword. -/
def scanWord (bound : Nat) (c : Cursor) : Scanned :=
  let run := wordAt bound c
  let name := String.ofList run.chars.reverse
  match run.fault with
  | some flaw => ⟨.bad flaw, run.next, run.flaws⟩
  | none =>
    if c.rest.head?.any fun d => d = '\\' || 0x80 ≤ d.toNat then
      ⟨.plainWord name, run.next, run.flaws⟩
    else if run.escaped && isReserved name then
      .fail c.place (.escapedReserved name) run.next run.flaws
    else ⟨.word name, run.next, run.flaws⟩

/-! ### Numbers -/

/-- Ends a number, which must not run into a word. -/
def endNumber (start next : Cursor) (flaws after : List Flaw) : Scanned :=
  if next.rest.head?.any isNameStart then
    ⟨.bad ⟨.empty next.place, .identifierAfterNumber⟩, next, flaws⟩
  else ⟨.number (start.textUpTo next), next, flaws ++ after⟩

def scanRadix (base : Nat) (start : Cursor) : Scanned :=
  let digits := start.skip 2
  let run := digitsAt base digits
  if run.count = 0 then .fail digits.place (.digitNeeded base) run.next run.flaws
  else if run.next.rest.head? = some 'n' then
    let next := run.next.skip 1
    ⟨.bigint (start.textUpTo next), next, run.flaws⟩
  else endNumber start run.next run.flaws []

/-- Reads the exponent of a decimal number, where there is one, and ends the number. -/
def scanExponent (start c : Cursor) (flaws : List Flaw) : Scanned :=
  match c.rest with
  | e :: after =>
    if e = 'e' || e = 'E' then
      let c := c.skip 1
      match after with
      | [] => .fail c.place .exponentNeeded c flaws
      | sign :: _ =>
        let digits := if sign = '+' || sign = '-' then c.skip 1 else c
        let run := digitsAt 10 digits
        let flaws := flaws ++ run.flaws
        if run.count = 0 then .fail digits.place (.digitNeeded 10) run.next flaws
        else endNumber start run.next flaws []
    else endNumber start c flaws []
  | [] => endNumber start c flaws []

def scanFraction (start c : Cursor) (flaws : List Flaw) : Scanned :=
  if c.rest.head? = some '.' then
    let run := digitsAt 10 (c.skip 1)
    scanExponent start run.next (flaws ++ run.flaws)
  else scanExponent start c flaws

/-- Reads a number that starts with a digit. A leading zero makes it octal, which typed sources
refuse once more; it does not matter when the number is beyond all finite ones. -/
def scanDecimal (types : Bool) (start : Cursor) : Scanned :=
  let run := digitsAt 10 start
  let extent : Extent := ⟨start.place, run.next.place⟩
  if run.next.rest.head? = some 'n' then
    let next := run.next.skip 1
    ⟨.bigint (start.textUpTo next), next, run.flaws⟩
  else if start.rest.head? = some '0' && extent.stop ≠ extent.start + 1 &&
    run.value < infiniteFrom then
    if run.beyondOctal then
      scanFraction start run.next (run.flaws ++ [⟨extent, .legacyDecimal⟩])
    else
      let typed : List Flaw := if types then [⟨extent, .legacyOctalNumber⟩] else []
      endNumber start run.next run.flaws (typed ++ [⟨extent, .legacyOctal⟩])
  else scanFraction start run.next run.flaws

def scanNumber (types : Bool) (c : Cursor) : Scanned :=
  match c.rest with
  | '0' :: 'x' :: _ | '0' :: 'X' :: _ => scanRadix 16 c
  | '0' :: 'o' :: _ | '0' :: 'O' :: _ => scanRadix 8 c
  | '0' :: 'b' :: _ | '0' :: 'B' :: _ => scanRadix 2 c
  | '.' :: _ => scanFraction c c []
  | _ => scanDecimal types c

/-! ### Strings -/

structure StringRun where
  /-- The characters, the last one first. -/
  chars : List Char
  next : Cursor
  flaws : List Flaw
  closed : Bool
  fault : Option Flaw

/-- Reads a string literal up to its closing quote. A line end or the end of the text closes it,
too. -/
def stringRun (quote : Char) : Nat → StringRun → StringRun
  | 0, run => run
  | steps + 1, run =>
    match run.next.rest with
    | [] => run
    | '\\' :: _ =>
      match scanEscape false run.next with
      | .chars value next flaws =>
        stringRun quote steps
          ⟨value.reverse ++ run.chars, next, run.flaws ++ flaws, false, none⟩
      | .fault flaw next flaws =>
        { run with next, flaws := run.flaws ++ flaws, fault := some flaw }
    | c :: rest =>
      let next : Cursor := ⟨rest, run.next.place + c.utf8Size⟩
      if c = quote then { run with next, closed := true }
      else if c = '\n' || c = '\r' then run
      else stringRun quote steps { run with chars := c :: run.chars, next }

/-- Reads a string literal. One that is not closed is kept as far as it goes. -/
def scanString (bound : Nat) (quote : Char) (start : Cursor) : Scanned :=
  let run := stringRun quote bound ⟨[], start.skip 1, [], false, none⟩
  match run.fault with
  | some flaw => ⟨.bad flaw, run.next, run.flaws⟩
  | none =>
    let flaws :=
      if run.closed then run.flaws
      else run.flaws ++ [⟨⟨start.place, run.next.place⟩, .unterminatedString⟩]
    ⟨.string (String.ofList run.chars.reverse) (start.textUpTo run.next), run.next, flaws⟩

/-! ### Templates and regular expressions -/

/-- The text of a template up to its closing mark or a hole. -/
structure TemplateRun where
  next : Cursor
  lineEnd : Bool
  flaws : List Flaw
  /-- The last escape that is no proper one. -/
  fault : Option Flaw

def templateRun : Nat → TemplateRun → TemplateRun
  | 0, run => run
  | steps + 1, run =>
    match run.next.rest with
    | [] | '`' :: _ | '$' :: '{' :: _ => run
    | '\\' :: _ =>
      match scanEscape true run.next with
      | .chars _ next flaws =>
        templateRun steps { run with next, flaws := run.flaws ++ flaws }
      | .fault flaw next flaws =>
        templateRun steps { run with next, flaws := run.flaws ++ flaws, fault := some flaw }
    | c :: rest =>
      let lineEnd := run.lineEnd || c = '\n' || c = '\r'
      templateRun steps { run with next := ⟨rest, run.next.place + c.utf8Size⟩, lineEnd }

/-- Reads a part of a template: its text, and then the mark that ends the text. The template
started at `opening`; `afterText` says that its text was just read. -/
def scanTemplate (bound opening : Nat) (afterText : Bool) (start : Cursor) : Scanned × Bool :=
  match start.rest, afterText with
  | '`' :: _, true => (⟨.symbol .backtick, start.skip 1, []⟩, false)
  | '$' :: '{' :: _, true => (⟨.symbol .holeStart, start.skip 2, []⟩, false)
  | _, _ =>
    let run := templateRun bound ⟨start, false, [], none⟩
    match run.next.rest with
    | [] => (.fail opening .unterminatedTemplate run.next run.flaws, run.lineEnd)
    | _ =>
      (⟨.templateText (start.textUpTo run.next) run.fault, run.next, run.flaws⟩, run.lineEnd)

/-- The place after the body of a regular expression, at its last slash; or where it is found to
have none. -/
def regexBody : Bool → Bool → List Char → Nat → Cursor × Bool
  | _, _, [], place => (⟨[], place⟩, false)
  | escaped, inClass, c :: rest, place =>
    if isLineEnd c then (⟨c :: rest, place⟩, false)
    else if escaped then regexBody false inClass rest (place + c.utf8Size)
    else if c = '/' && !inClass then (⟨c :: rest, place⟩, true)
    else
      let inClass := if c = '[' then true else if c = ']' then false else inClass
      regexBody (c = '\\') inClass rest (place + c.utf8Size)

def scanRegex (bound : Nat) (start : Cursor) : Scanned :=
  let body := start.skip 1
  let (stop, closed) := regexBody false false body.rest body.place
  if !closed then .fail start.place .unterminatedRegex stop []
  else
    let flags := stop.skip 1
    if flags.rest.head?.any isNameStart then
      let run := wordAt bound flags
      match run.fault with
      | some flaw => ⟨.bad flaw, run.next, run.flaws⟩
      | none =>
        ⟨.regex (body.textUpTo stop) (String.ofList run.chars.reverse), run.next, run.flaws⟩
    else ⟨.regex (body.textUpTo stop) "", flags, []⟩

/-! ### Markup -/

def scanMarkupName (start : Cursor) : Scanned :=
  let next := Cursor.skipWhile (fun c => isNamePart c || c = '-') start.rest start.place
  ⟨.markupName (start.textUpTo next), next, []⟩

/-- The length of a quoted value, without its quotes. -/
def quotedEnd (quote : Char) (c : Cursor) : Cursor :=
  Cursor.skipWhile (· ≠ quote) c.rest c.place

/-- Reads a quoted value in a tag, which has no escapes. A closing quote right before the last
character of the text is not taken. -/
def scanMarkupString (quote : Char) (start : Cursor) : Scanned :=
  let body := start.skip 1
  let stop := quotedEnd quote body
  let flaws : List Flaw :=
    if stop.rest.isEmpty then [⟨⟨start.place, stop.place⟩, .unterminatedString⟩] else []
  let next := if stop.rest.length ≤ 2 then stop else stop.skip 1
  let value := String.ofList (markupValue 0 (body.upTo stop))
  ⟨.string value (start.textUpTo next), next, flaws⟩

/-- Reads text between tags up to a bracket or brace. -/
def markupRun : List Char → Nat → List Flaw → Cursor × List Flaw
  | [], place, flaws => (⟨[], place⟩, flaws.reverse)
  | c :: rest, place, flaws =>
    if c = '<' || c = '{' then (⟨c :: rest, place⟩, flaws.reverse)
    else
      let flaws : List Flaw :=
        if c = '>' then ⟨.empty place, .markupCharacter ["`\x7b'>'\x7d`", "`&gt;`"]⟩ :: flaws
        else if c = '}' then
          ⟨.empty place, .markupCharacter ["`\x7b'\x7d'\x7d`", "`&rbrace;`"]⟩ :: flaws
        else flaws
      markupRun rest (place + c.utf8Size) flaws

def scanMarkupText (start : Cursor) : Scanned :=
  let (next, flaws) := markupRun start.rest start.place []
  match next.rest with
  | [] => .fail start.place .unterminatedMarkup next flaws
  | _ => ⟨.markupText (start.textUpTo next), next, flaws⟩

/-! ### Symbols and the rest -/

/-- The longest symbol at a place. -/
def scanSymbol (c : Cursor) : Option Scanned :=
  Symbol.table.findSome? fun (chars, s) =>
    if chars.isPrefixOf c.rest then some ⟨.symbol s, c.skip chars.length, []⟩ else none

/-- Reads a token by its first character alone. The text is shorter than the bound. -/
def scanPlain (types : Bool) (bound : Nat) (c : Cursor) : Scanned :=
  match c.rest with
  | [] => ⟨.bad ⟨.empty c.place, .endOfText⟩, c, []⟩
  | '"' :: _ => scanString bound '"' c
  | '\'' :: _ => scanString bound '\'' c
  | d :: after =>
    if isNameStart d || d = '\\' then scanWord bound c
    else if isDigit d || (d = '.' && after.head?.any isDigit) then scanNumber types c
    else match scanSymbol c with
      | some found => found
      | none => ⟨.bad ⟨.empty c.place, .unexpectedCharacter d⟩, c.skip 1, []⟩

/-- Passes over a first line that names an interpreter. -/
def skipInterpreterLine (c : Cursor) : Cursor :=
  match c.rest with
  | '#' :: '!' :: _ => Cursor.skipWhile (fun c => !isLineEnd c) c.rest c.place
  | _ => c

end TypeOnly.Source
