/-!
Byte spans of a text, the extents that its readers find, and line positions.
-/

namespace TypeOnly.Text

set_option autoImplicit false

/-- A stretch of a text, in UTF-8 bytes. -/
structure Span where
  start : Nat
  length : Nat
deriving DecidableEq, Repr, Inhabited

namespace Span

def stop (s : Span) : Nat := s.start + s.length

/-- The span from one offset up to another. -/
def upTo (start stop : Nat) : Span := ⟨start, stop - start⟩

@[simp] theorem stop_upTo {a b : Nat} (h : a ≤ b) : (upTo a b).stop = b := by
  simp only [stop, upTo]; omega

/-- Passes over the characters that start within the next bytes. -/
def dropBytes : Nat → List Char → List Char
  | _, [] => []
  | 0, cs => cs
  | n + 1, c :: rest => dropBytes (n + 1 - c.utf8Size) rest

/-- The characters that start within the next bytes. -/
def takeBytes : Nat → List Char → List Char
  | _, [] => []
  | 0, _ => []
  | n + 1, c :: rest => c :: takeBytes (n + 1 - c.utf8Size) rest

def textIn (s : Span) (text : String) : String :=
  String.ofList (takeBytes s.length (dropBytes s.start text.toList))

end Span

/-- The place of the first byte of a text. Places count bytes from one. -/
def firstPlace : Nat := 1

/-- A stretch of a text from one place up to another. -/
structure Extent where
  start : Nat
  stop : Nat
deriving DecidableEq, Repr, Inhabited

namespace Extent

def empty (place : Nat) : Extent := ⟨place, place⟩

/-- The span of an extent in a text of some bytes. What is outside the text is left out. -/
def span (length : Nat) (e : Extent) : Span :=
  let start := min (e.start - firstPlace) length
  .upTo start (max start (min (e.stop - firstPlace) length))

end Extent

/-- A line and a column, both counted from one; columns count characters. -/
structure Position where
  line : Nat
  column : Nat
deriving DecidableEq, Repr

namespace Position

/-- The position after reading one more character. -/
def step (p : Position) (c : Char) : Position :=
  if c = '\n' then ⟨p.line + 1, 1⟩ else ⟨p.line, p.column + 1⟩

/-- The position reached from `p` by reading the characters that start within the next `bytes`
bytes. -/
def walk (p : Position) : List Char → Nat → Position
  | [], _ => p
  | _ :: _, 0 => p
  | c :: rest, bytes + 1 => walk (p.step c) rest (bytes + 1 - c.utf8Size)

/-- The position of a byte offset. An offset inside a character has the position after it, one
past the end has the position of the end. -/
def ofOffset (text : String) (offset : Nat) : Position :=
  walk ⟨1, 1⟩ text.toList offset

end Position

end TypeOnly.Text
