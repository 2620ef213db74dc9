import TypeOnly.Text.HiddenRange
import TypeOnly.Text.LetterRange

/-!
The character classes source text is read by.
-/

namespace TypeOnly.Text

set_option autoImplicit false

/-- Characters that end a line of source text. -/
def isLineEnd (c : Char) : Bool :=
  c = '\n' || c = '\r' || c.toNat = 0x2028 || c.toNat = 0x2029

/-- White space of Unicode. -/
def isBlank (c : Char) : Bool :=
  (9 ≤ c.toNat && c.toNat ≤ 13) || c = ' ' || c.toNat = 0x85 || c.toNat = 0xa0
    || c.toNat = 0x1680 || (0x2000 ≤ c.toNat && c.toNat ≤ 0x200a) || c.toNat = 0x2028
    || c.toNat = 0x2029 || c.toNat = 0x202f || c.toNat = 0x205f || c.toNat = 0x3000

/-- What may stand between two tokens: white space and the byte order mark. -/
def isGap (c : Char) : Bool :=
  isBlank c || c.toNat = 0xfeff

def isDigit (c : Char) : Bool := '0' ≤ c && c ≤ '9'

/-- The value of a digit in a base up to sixteen. -/
def digitValue? (c : Char) : Option Nat :=
  if isDigit c then some (c.toNat - '0'.toNat)
  else if 'a' ≤ c && c ≤ 'f' then some (c.toNat - 'a'.toNat + 10)
  else if 'A' ≤ c && c ≤ 'F' then some (c.toNat - 'A'.toNat + 10)
  else none

def hexText (n : Nat) : String := String.ofList (Nat.toDigits 16 n)

/-- A character in quotes, as a message shows it: one that cannot be seen is named by its number. -/
def quotedChar (c : Char) : String :=
  let inner :=
    if c = '\x00' then "\\0"
    else if c = '\t' then "\\t"
    else if c = '\n' then "\\n"
    else if c = '\r' then "\\r"
    else if c = '\'' then "\\'"
    else if c = '\\' then "\\\\"
    else if c.toNat < 0x20 || inRanges hiddenRanges c.toNat then
      "\\u\x7b" ++ hexText c.toNat ++ "\x7d"
    else c.toString
  "'" ++ inner ++ "'"

def isNameStart (c : Char) : Bool :=
  ('a' ≤ c && c ≤ 'z') || ('A' ≤ c && c ≤ 'Z') || c = '$' || c = '_'
    || (0x80 ≤ c.toNat && inRanges startRanges c.toNat)

/-- Whether an identifier may go on with the character. -/
def isNamePart (c : Char) : Bool :=
  isNameStart c || isDigit c || (0x80 ≤ c.toNat && inRanges partRanges c.toNat)

end TypeOnly.Text
