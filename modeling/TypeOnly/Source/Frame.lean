import TypeOnly.Source.Scan

/-!
What a token means depends on what stands around it: in a template and between markup tags blanks
are text, inside a tag names have dashes, and an angle bracket starts markup only where an
expression can start. A scanner keeps the brackets that are open and the token before, and finds
the next token by them.
-/

namespace TypeOnly.Source

set_option autoImplicit false

open TypeOnly.Text

/-- Something that is open around a token. -/
inductive Frame where
  /-- Braces around statements. -/
  | block
  /-- Braces in an expression. -/
  | braces
  /-- A hole of a template, or braces between markup tags. -/
  | hole
  /-- The parentheses of a statement head; those of a loop are told apart. -/
  | head (ofLoop : Bool)
  /-- Other parentheses. -/
  | parens
  | template
  /-- A function in an expression, up to the end of its body. -/
  | functionExpr
  /-- A class in an expression, up to the end of its body. -/
  | classExpr
  | openingTag
  | closingTag
  /-- A markup element. -/
  | element
deriving DecidableEq, Repr, Inhabited

namespace Frame

/-- Whether what the frame encloses is part of an expression. -/
def isExpression : Frame → Bool
  | braces | hole | parens | template | functionExpr | classExpr | element => true
  | _ => false

def keepsBlanks : Frame → Bool
  | template | element => true
  | _ => false

end Frame

/-- The open frames, the innermost one first. -/
abbrev Frames := List Frame

structure Scanner where
  /-- Where the next token is looked for. -/
  cursor : Cursor
  /-- Whether no token has been found yet. -/
  isFirst : Bool := true
  /-- Whether a line end stands in front of the token found last. -/
  lineEnd : Bool := false
  frames : Frames := [.block]
  /-- Whether the next token can start an expression. -/
  expressionAllowed : Bool := true
  /-- The token found last. -/
  previous : Option Token := none
  /-- Where the innermost template starts. -/
  templateStart : Nat := 0
  /-- Where a regular expression starts, when the next token has to be one. -/
  regexAt : Option Cursor := none
deriving Repr, Inhabited

structure Lexicon where
  types : Bool
  markup : Bool
  /-- In a type, angle brackets stand alone. -/
  inType : Bool
  inPropertyName : Bool
  /-- More than the number of characters of the text. -/
  bound : Nat

namespace Scanner

/-- Whether a token is neither an operator nor a mark, so that a line end after it can end a
statement. -/
def endsOperand : Token → Bool
  | .word w => !isGrammarWord w || ["null", "true", "false"].contains w
  | .plainWord _ | .string _ _ | .number _ | .bigint _ | .regex _ _ | .bad _ => true
  | .symbol s =>
    [.hash, .atSign, .closeBracket, .closeBrace, .backtick, .increment, .decrement].contains s
  | _ => false

def startsBlock (s : Scanner) : Bool :=
  let otherwise := (s.lineEnd && s.previous.any endsOperand) || !s.expressionAllowed
  match s.previous with
  | none | some (.symbol .semicolon) | some (.symbol .closeParen) | some (.word "else")
  | some (.symbol .less) | some (.symbol .greater) | some (.symbol .arrow) => true
  | some (.word "return") | some (.word "yield") => s.lineEnd
  | some (.symbol .colon) =>
    match s.frames with
    | .block :: _ => true
    | .braces :: _ => false
    | _ => otherwise
  | some (.symbol .openBrace) =>
    match s.frames with
    | .braces :: .openingTag :: _ => true
    | .block :: _ => true
    | _ => false
  | _ => otherwise

def parensAfter : Option Token → Frame
  | some (.word "if") | some (.word "with") | some (.word "while") => .head false
  | some (.word "for") => .head true
  | _ => .parens

/-- The open frames after a token, and whether an expression can follow. -/
def framesAfter (s : Scanner) (markup : Bool) (token : Token) : Frames × Bool :=
  let afterDot := s.previous == some (.symbol .dot)
  if token.isGrammarWord && afterDot then (s.frames, false)
  else match token with
  | .symbol .closeParen | .symbol .closeBrace =>
    match s.frames with
    | [] => (s.frames, true)
    | [_] => (s.frames, true)
    | out :: rest =>
      match out, rest with
      | .block, .functionExpr :: outer | .block, .classExpr :: outer => (outer, false)
      | .hole, .template :: _ => (rest, false)
      | .hole, _ => (rest, true)
      | _, _ => (rest, !out.isExpression)
  | .word "function" =>
    (if s.expressionAllowed && !s.startsBlock then .functionExpr :: s.frames else s.frames, false)
  | .word "class" =>
    (if s.expressionAllowed && !s.startsBlock then .classExpr :: s.frames else s.frames, false)
  | .symbol .openBrace =>
    let frame : Frame :=
      match markup, s.frames with
      | true, .openingTag :: _ => .braces
      | true, .element :: _ => .hole
      | _, _ => if s.startsBlock then .block else .braces
    (frame :: s.frames, true)
  | .symbol .holeStart => (.hole :: s.frames, true)
  | .symbol .openParen => (parensAfter s.previous :: s.frames, true)
  | .symbol .increment | .symbol .decrement => (s.frames, s.expressionAllowed)
  | .symbol .backtick =>
    match s.frames with
    | .template :: rest => (rest, false)
    | _ => (.template :: s.frames, false)
  | .tagStart => (.openingTag :: .element :: s.frames, false)
  | .tagEnd =>
    match s.frames with
    | out :: rest =>
      if (out == .openingTag && s.previous == some (.symbol .slash)) || out == .closingTag then
        (rest.drop 1, (rest.drop 1).head? == some .element)
      else (rest, true)
    | [] => ([], true)
  | .symbol .slash =>
    if markup && s.previous == some .tagStart then (.closingTag :: s.frames.drop 2, false)
    else (s.frames, true)
  | .symbol .colon =>
    match s.frames with
    | .functionExpr :: rest | .classExpr :: rest => (rest, true)
    | _ => (s.frames, true)
  | .word w =>
    if w = "of" && s.frames.head? == some (.head true) then
      (s.frames, !s.previous.any Token.precedesExpression)
    else if isGrammarWord w then (s.frames, token.precedesExpression)
    else
      let declares := [some (Token.word "let"), some (.word "const"), some (.word "var")]
      (s.frames, s.lineEnd && declares.contains s.previous)
  | _ => (s.frames, token.precedesExpression)

def after (s : Scanner) (markup : Bool) (start : Nat) (token : Token) : Scanner :=
  let (frames, expressionAllowed) := s.framesAfter markup token
  let opensTemplate := token == .symbol .backtick && frames.head? == some .template
  { s with
    frames, expressionAllowed, previous := some token,
    templateStart := if opensTemplate then start else s.templateStart }

/-! ### Finding tokens -/

/-- A token found by its characters alone, or the end of the text. -/
structure Found where
  token : Option Token
  next : Cursor
  lineEnd : Bool
  flaws : List Flaw

def startsWith (text : String) (rest : List Char) : Bool := text.toList.isPrefixOf rest

/-- Finds a token by its characters. Old comments and the marks of a merge conflict are passed
over; they are noted. The mark in the middle of a conflict between three is no token, either. -/
def findPlain (l : Lexicon) : Nat → Bool → List Flaw → Cursor → Found
  | 0, lineEnd, flaws, c => ⟨none, c, lineEnd, flaws⟩
  | steps + 1, lineEnd, flaws, c =>
    let skipTo (i : Interval) (flaw : Flaw) : Found :=
      findPlain l steps i.lineEnd (flaws ++ [flaw] ++ i.flaws) i.next
    match c.rest with
    | [] => ⟨none, c, lineEnd, flaws⟩
    | '\x00' :: _ => ⟨none, c.skip 1, lineEnd, flaws⟩
    | d :: rest =>
      if l.types && l.inType && (d = '<' || d = '>') then
        ⟨some (.symbol (if d = '<' then .less else .greater)), c.skip 1, lineEnd, flaws⟩
      else if startsWith "<!--" c.rest then
        let i := skipLine lineEnd (c.skip 4)
        findPlain l steps i.lineEnd
          (flaws ++ i.flaws ++ [⟨⟨c.place, i.next.place⟩, .legacyComment⟩]) i.next
      else if lineEnd && startsWith "-->" c.rest then
        skipTo (skipLine lineEnd (c.skip 3)) ⟨⟨c.place, c.place + 3⟩, .legacyComment⟩
      else if lineEnd && (startsWith "<<<<<<< " c.rest || startsWith ">>>>>>> " c.rest
          || startsWith "=======" c.rest) then
        skipTo (skipLine lineEnd (c.skip 7)) ⟨⟨c.place, c.place + 7⟩, .conflictMarker⟩
      else if lineEnd && startsWith "||||||| " c.rest then
        let i := skipLine lineEnd (c.skip 7)
        let flaw : Flaw := ⟨⟨c.place, c.place + 7⟩, .conflictMarker⟩
        ⟨some (.bad flaw), i.next, i.lineEnd, flaws ++ [flaw] ++ i.flaws⟩
      else
        let found := scanPlain l.types l.bound ⟨d :: rest, c.place⟩
        ⟨some found.token, found.next, lineEnd, flaws ++ found.flaws⟩

/-- A token of markup or template text, where there is one. -/
def findSpecial? (l : Lexicon) (s : Scanner) (c : Cursor) : Option Found :=
  let found (f : Scanned) : Option Found := some ⟨some f.token, f.next, s.lineEnd, f.flaws⟩
  let isTagStart := c.rest.head? = some '<' && s.expressionAllowed
  let isMarker := s.lineEnd && startsWith "<<<<<<< " c.rest
  if l.markup && !l.inPropertyName && !l.inType then
    match s.frames, c.rest with
    | .element :: _, d :: _ =>
      if isTagStart then found ⟨.tagStart, c.skip 1, []⟩
      else if d = '<' || d = '{' then none
      else found (scanMarkupText c)
    | .openingTag :: _, d :: _ =>
      if isNameStart d then found (scanMarkupName c)
      else if d = '>' then found ⟨.tagEnd, c.skip 1, []⟩
      else if d = '"' || d = '\'' then found (scanMarkupString d c)
      else if isTagStart && !isMarker && !startsWith "<!" c.rest then
        found ⟨.tagStart, c.skip 1, []⟩
      else none
    | .closingTag :: _, d :: _ =>
      if isNameStart d then found (scanMarkupName c)
      else if d = '>' then found ⟨.tagEnd, c.skip 1, []⟩
      else if isTagStart && !isMarker && !startsWith "<!" c.rest then
        found ⟨.tagStart, c.skip 1, []⟩
      else none
    | _, _ =>
      if isTagStart && !isMarker && !startsWith "<!" c.rest then found ⟨.tagStart, c.skip 1, []⟩
      else inTemplate?
  else inTemplate?
where
  /-- A part of the innermost template. -/
  inTemplate? : Option Found :=
    match s.frames with
    | .template :: _ =>
      let afterText := match s.previous with
        | some (.templateText _ _) => true
        | _ => false
      let (f, lineEnd) := scanTemplate l.bound s.templateStart afterText c
      some ⟨some f.token, f.next, s.lineEnd || lineEnd, f.flaws⟩
    | _ => none

/-- The next token, the scanner after it, and what is wrong with the text in between. -/
def next (l : Lexicon) (s : Scanner) : Option Lexeme × Scanner × List Flaw :=
  match s.regexAt with
  | some start =>
    let found := scanRegex l.bound start
    let lexeme : Lexeme :=
      ⟨found.token, ⟨s.cursor.place, found.next.place⟩, s.lineEnd⟩
    let s := { s with cursor := found.next }
    (some lexeme, s.after l.markup lexeme.extent.start lexeme.token, found.flaws)
  | none =>
    let s := { s with lineEnd := s.isFirst, isFirst := false }
    let gap : Interval :=
      if s.frames.head?.any Frame.keepsBlanks then ⟨s.cursor, s.lineEnd, []⟩
      else skipGap .blanks s.lineEnd s.cursor.place s.cursor.rest
    let s := { s with cursor := gap.next, lineEnd := gap.lineEnd }
    match gap.next.rest with
    | [] => (none, s, gap.flaws)
    | _ =>
      let found := (findSpecial? l s gap.next).getD
        (findPlain l l.bound s.lineEnd [] gap.next)
      let s := { s with cursor := found.next, lineEnd := found.lineEnd }
      let flaws := gap.flaws ++ found.flaws
      match found.token with
      | none => (none, s, flaws)
      | some token =>
        let lexeme : Lexeme := ⟨token, ⟨gap.next.place, found.next.place⟩, found.lineEnd⟩
        (some lexeme, s.after l.markup gap.next.place token, flaws)

/-- A scanner at the start of a text, after a line that names an interpreter. -/
def start (text : List Char) : Scanner :=
  let c := skipInterpreterLine ⟨text, firstPlace⟩
  { cursor := c, expressionAllowed := c.place = firstPlace }

end Scanner

end TypeOnly.Source
