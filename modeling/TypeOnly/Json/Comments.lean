import TypeOnly.Json.Reader

/-!
JSON with comments and trailing commas. Both are replaced by blanks, byte for byte, so that every
place in the text stays what it was.
-/

namespace TypeOnly.Json

set_option autoImplicit false

/-- What a character of a commented text belongs to. -/
inductive Region where
  | plain
  | text
  | lineComment
  | blockComment
deriving DecidableEq

def blanks (c : Char) : List Char := List.replicate c.utf8Size ' '

/-- A character of a comment: line ends stay. -/
def blankOut (c : Char) : List Char :=
  if c = '\n' || c = '\r' then [c] else blanks c

/-- The first character that is neither blank nor part of a comment. -/
def nextSolid : Region → List Char → Option Char
  | _, [] => none
  | .lineComment, '\n' :: rest => nextSolid .plain rest
  | .lineComment, _ :: rest => nextSolid .lineComment rest
  | .blockComment, '*' :: '/' :: rest => nextSolid .plain rest
  | .blockComment, _ :: rest => nextSolid .blockComment rest
  | _, '/' :: '/' :: rest => nextSolid .lineComment rest
  | _, '/' :: '*' :: rest => nextSolid .blockComment rest
  | _, c :: rest => if Scan.isJsonBlank c then nextSolid .plain rest else some c

/-- Whether a comma before this text has nothing to separate. -/
def closesNext (rest : List Char) : Bool :=
  match nextSolid .plain rest with
  | some c => c = '}' || c = ']'
  | none => false

def stripFrom : Region → List Char → List Char
  | _, [] => []
  | .text, '\\' :: c :: rest => '\\' :: c :: stripFrom .text rest
  | .text, c :: rest => c :: stripFrom (if c = '"' then .plain else .text) rest
  | .lineComment, '\n' :: rest => '\n' :: stripFrom .plain rest
  | .lineComment, c :: rest => blankOut c ++ stripFrom .lineComment rest
  | .blockComment, '*' :: '/' :: rest => ' ' :: ' ' :: stripFrom .plain rest
  | .blockComment, c :: rest => blankOut c ++ stripFrom .blockComment rest
  | .plain, '"' :: rest => '"' :: stripFrom .text rest
  | .plain, '/' :: '/' :: rest => ' ' :: ' ' :: stripFrom .lineComment rest
  | .plain, '/' :: '*' :: rest => ' ' :: ' ' :: stripFrom .blockComment rest
  | .plain, c :: rest =>
    (if c = ',' && closesNext rest then ' ' else c) :: stripFrom .plain rest

/-- A commented text with comments and trailing commas blanked out. -/
def strip (s : String) : String := String.ofList (stripFrom .plain s.toList)

def dropMark : List Char → List Char
  | c :: rest => if c.toNat = 0xfeff then rest else c :: rest
  | [] => []

/-- Reads JSON with comments. A text of blanks is an empty object. -/
def readCommented (s : String) : Except ReadError Json :=
  let stripped := stripFrom .plain (dropMark s.toList)
  if stripped.all TypeOnly.Text.isBlank then .ok (.object [])
  else (Scan.document stripped).mapError (ReadError.ofStop stripped)

end TypeOnly.Json
