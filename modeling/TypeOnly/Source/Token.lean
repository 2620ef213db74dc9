import TypeOnly.Source.Fault
import TypeOnly.Text.Character

/-!
Tokens of source text: punctuation, words, literals, and the parts of templates and markup.
-/

namespace TypeOnly.Source

set_option autoImplicit false

open TypeOnly.Text

/-- Punctuation. Operators the grammar has no particular use for are kept as their text. -/
inductive Symbol where
  | openParen | closeParen | openBracket | closeBracket | openBrace | closeBrace
  | semicolon | comma | colon | dot | ellipsis | question | arrow | atSign | hash | backtick
  | tilde | bang | equals | less | greater | plus | minus | star | slash | bar | ampersand
  | increment | decrement
  /-- The start of a hole in a template. -/
  | holeStart
  /-- A binary operator. -/
  | operator (text : String)
  /-- An assignment that also computes. -/
  | compound (text : String)
deriving DecidableEq, Repr, Inhabited

namespace Symbol

def text : Symbol → String
  | openParen => "("
  | closeParen => ")"
  | openBracket => "["
  | closeBracket => "]"
  | openBrace => "\x7b"
  | closeBrace => "\x7d"
  | semicolon => ";"
  | comma => ","
  | colon => ":"
  | dot => "."
  | ellipsis => "..."
  | question => "?"
  | arrow => "=>"
  | atSign => "@"
  | hash => "#"
  | backtick => "`"
  | tilde => "~"
  | bang => "!"
  | equals => "="
  | less => "<"
  | greater => ">"
  | plus => "+"
  | minus => "-"
  | star => "*"
  | slash => "/"
  | bar => "|"
  | ampersand => "&"
  | increment => "++"
  | decrement => "--"
  | holeStart => "$\x7b"
  | operator text => text
  | compound text => text

/-- How tightly a binary operator binds; `none` for other symbols. -/
def precedence? : Symbol → Option Nat
  | bar => some 3
  | ampersand => some 5
  | less | greater => some 7
  | plus | minus => some 9
  | star | slash => some 10
  | operator "??" | operator "||" => some 1
  | operator "&&" => some 2
  | operator "^" => some 4
  | operator "==" | operator "!=" | operator "===" | operator "!==" => some 6
  | operator "<=" | operator ">=" => some 7
  | operator "<<" | operator ">>" | operator ">>>" => some 8
  | operator "%" => some 10
  | operator "**" => some 11
  | _ => none

def isBinary (s : Symbol) : Bool := s.precedence?.isSome

/-- Whether an expression can come right after the symbol. -/
def precedesExpression (s : Symbol) : Bool :=
  match s with
  | arrow | ellipsis | bang | openParen | openBrace | openBracket | semicolon | comma | colon
  | equals | compound _ | question | tilde | holeStart => true
  | s => s.isBinary

/-- Whether an expression can start with the symbol, a regular expression apart. -/
def startsExpression (s : Symbol) : Bool :=
  match s with
  | bang | openParen | openBrace | openBracket | backtick | holeStart | increment | decrement
  | tilde | plus | minus => true
  | _ => false

/-- Every symbol with its characters, each one before its own beginnings. -/
def table : List (List Char × Symbol) := [
  (['>', '>', '>', '='], compound ">>>="),
  (['.', '.', '.'], ellipsis),
  (['=', '=', '='], operator "==="),
  (['!', '=', '='], operator "!=="),
  (['*', '*', '='], compound "**="),
  (['<', '<', '='], compound "<<="),
  (['>', '>', '='], compound ">>="),
  (['>', '>', '>'], operator ">>>"),
  (['&', '&', '='], compound "&&="),
  (['|', '|', '='], compound "||="),
  (['?', '?', '='], compound "??="),
  (['=', '>'], arrow),
  (['=', '='], operator "=="),
  (['!', '='], operator "!="),
  (['+', '+'], increment),
  (['-', '-'], decrement),
  (['+', '='], compound "+="),
  (['-', '='], compound "-="),
  (['*', '='], compound "*="),
  (['/', '='], compound "/="),
  (['%', '='], compound "%="),
  (['&', '='], compound "&="),
  (['|', '='], compound "|="),
  (['^', '='], compound "^="),
  (['*', '*'], operator "**"),
  (['<', '='], operator "<="),
  (['>', '='], operator ">="),
  (['<', '<'], operator "<<"),
  (['>', '>'], operator ">>"),
  (['&', '&'], operator "&&"),
  (['|', '|'], operator "||"),
  (['?', '?'], operator "??"),
  (['('], openParen),
  ([')'], closeParen),
  (['['], openBracket),
  ([']'], closeBracket),
  (['{'], openBrace),
  (['}'], closeBrace),
  ([';'], semicolon),
  ([','], comma),
  ([':'], colon),
  (['.'], dot),
  (['?'], question),
  (['@'], atSign),
  (['#'], hash),
  (['`'], backtick),
  (['~'], tilde),
  (['!'], bang),
  (['='], equals),
  (['<'], less),
  (['>'], greater),
  (['+'], plus),
  (['-'], minus),
  (['*'], star),
  (['/'], slash),
  (['|'], bar),
  (['&'], ampersand),
  (['%'], operator "%"),
  (['^'], operator "^")]

end Symbol

/-! ### Words -/

/-- Words that are never names. -/
def keywords : List String :=
  ["break", "case", "catch", "class", "const", "continue", "debugger", "default", "delete", "do",
    "else", "enum", "export", "extends", "false", "finally", "for", "function", "if", "import",
    "in", "instanceof", "new", "null", "return", "super", "switch", "this", "throw", "true", "try",
    "typeof", "var", "void", "while", "with"]

def isKeyword (name : String) : Bool := keywords.contains name

/-- Words that are no names in module code, where strict rules hold. -/
def strictWords : List String :=
  ["implements", "interface", "let", "package", "private", "protected", "public", "static",
    "yield"]

def isReserved (name : String) : Bool :=
  isKeyword name || name = "await" || (strictWords.contains name && name != "static")

/-- Keywords that an expression comes right after. -/
def keywordsBeforeExpression : List String :=
  ["await", "case", "default", "do", "else", "return", "throw", "new", "extends", "yield", "in",
    "instanceof", "typeof", "void", "delete"]

/-- Words of the grammar that are no plain names, whatever stands around them. -/
def isGrammarWord (name : String) : Bool :=
  (isKeyword name && name != "enum") || ["await", "let", "yield"].contains name

/-! ### Tokens -/

inductive Token where
  /-- An identifier or a keyword, with its escapes read. -/
  | word (name : String)
  /-- An identifier that starts with an escape or a letter beyond ASCII, and so is never a
  keyword. -/
  | plainWord (name : String)
  | symbol (s : Symbol)
  | string (value raw : String)
  | number (raw : String)
  | bigint (raw : String)
  | regex (body flags : String)
  /-- Text of a template, with what is wrong with its escapes. -/
  | templateText (raw : String) (fault : Option Flaw)
  | markupName (name : String)
  | markupText (raw : String)
  /-- The bracket that starts a markup tag. -/
  | tagStart
  /-- The bracket that ends a markup tag. -/
  | tagEnd
  /-- Text that is no token. -/
  | bad (flaw : Flaw)
deriving DecidableEq, Repr, Inhabited

namespace Token

/-- The name that an identifier or keyword spells. -/
def name? : Token → Option String
  | word w | plainWord w => some w
  | _ => none

def isWord (t : Token) : Bool := t.name?.isSome

def isName : Token → Bool
  | word w => !isReserved w
  | plainWord _ => true
  | _ => false

/-- Whether the token is one of the words that the grammar alone gives a meaning. -/
def isGrammarWord : Token → Bool
  | word w => Source.isGrammarWord w
  | _ => false

def precedesExpression : Token → Bool
  | word w => keywordsBeforeExpression.contains w
  | symbol s => s.precedesExpression
  | markupText _ => true
  | _ => false

/-- Whether an expression can start with the token, as far as the token alone can tell. -/
def startsExpression : Token → Bool
  | word w =>
    !Source.isGrammarWord w
      || ["await", "function", "throw", "let", "new", "this", "super", "class", "import", "yield",
        "typeof", "void", "delete", "null", "true", "false"].contains w
  | plainWord _ | string _ _ | number _ | bigint _ | regex _ _ | tagStart => true
  | symbol s => s.startsExpression
  | _ => false

end Token

/-! ### Places -/

/-- A place in a text: what is still to read, and the place where it starts. -/
structure Cursor where
  rest : List Char
  place : Nat
deriving DecidableEq, Repr, Inhabited

def bytesOf : List Char → Nat
  | [] => 0
  | c :: rest => c.utf8Size + bytesOf rest

namespace Cursor

def skip : Nat → Cursor → Cursor
  | 0, c => c
  | _ + 1, ⟨[], place⟩ => ⟨[], place⟩
  | n + 1, ⟨c :: rest, place⟩ => skip n ⟨rest, place + c.utf8Size⟩

/-- Passes over the longest stretch of characters of a class. -/
def skipWhile (p : Char → Bool) : List Char → Nat → Cursor
  | [], place => ⟨[], place⟩
  | c :: rest, place =>
    if p c then skipWhile p rest (place + c.utf8Size) else ⟨c :: rest, place⟩

/-- The characters at the start of a text that take up some bytes. -/
def takeBytes : Nat → List Char → List Char
  | 0, _ | _, [] => []
  | n, c :: rest => c :: takeBytes (n - c.utf8Size) rest

def upTo (start stop : Cursor) : List Char := takeBytes (stop.place - start.place) start.rest

def textUpTo (start stop : Cursor) : String := String.ofList (start.upTo stop)

end Cursor

/-- A token in its place. -/
structure Lexeme where
  token : Token
  extent : Extent
  /-- Whether a line end stands between this token and the one before. -/
  afterLineEnd : Bool
deriving DecidableEq, Repr, Inhabited

end TypeOnly.Source
