import TypeOnly.Text.Split

/-!
Paths of files and folders. A path is kept as it is written; what it means is the list of its parts.
-/

namespace TypeOnly

set_option autoImplicit false

open Text (splitOn fields)

/-- A path as it is written, with slashes between its parts. -/
structure Path where
  text : String
deriving DecidableEq, Repr, Inhabited

inductive Part where
  /-- The top folder. -/
  | root
  /-- A dot at the beginning of a relative path. Other dots are no parts. -/
  | here
  /-- The folder above. -/
  | up
  | name (s : String)
deriving DecidableEq, Repr

namespace Part

def text : Part → String
  | root => "/"
  | here => "."
  | up => ".."
  | name s => s

def rank : Part → Nat
  | root => 0
  | here => 1
  | up => 2
  | name _ => 3

/-- Ascending order of parts; names come last, by their characters. -/
def before (a b : Part) : Bool :=
  match a, b with
  | name s, name t => s < t
  | _, _ => a.rank < b.rank

/-- The part that a stretch between slashes stands for; none for an empty one and for a dot. -/
def ofSegment? (s : String) : Option Part :=
  if s = "" || s = "." then none
  else if s = ".." then some up
  else some (name s)

end Part

namespace Path

def isAbsolute (p : Path) : Bool := p.text.toList.head? == some '/'

/-- The stretches between slashes; an absolute path begins with an empty one. -/
def segments (p : Path) : List String := fields '/' p.text

/-- What a path says, part by part. -/
def parts (p : Path) : List Part :=
  if p.isAbsolute then .root :: p.segments.filterMap Part.ofSegment?
  else if p.segments.head? = some "." then .here :: p.segments.filterMap Part.ofSegment?
  else p.segments.filterMap Part.ofSegment?

def same (a b : Path) : Bool := a.parts == b.parts

/-- The path with these parts, written without anything superfluous. -/
def ofParts : List Part → Path
  | [] => ⟨""⟩
  | .root :: rest => ⟨"/" ++ "/".intercalate (rest.map Part.text)⟩
  | parts => ⟨"/".intercalate (parts.map Part.text)⟩

/-- A path seen from a folder. An absolute path is the same from everywhere. -/
def join (base p : Path) : Path :=
  if p.isAbsolute then p
  else if base.text = "" || base.text.toList.getLast? = some '/' then ⟨base.text ++ p.text⟩
  else ⟨base.text ++ "/" ++ p.text⟩

def child (base : Path) (name : String) : Path := base.join ⟨name⟩

/-- Whether a stretch between slashes adds nothing to a path. -/
def isIdle (segment : String) : Bool := segment = "" || segment = "."

/-- The path without its last part, if it has one besides the top folder. What is left is written as
it was, up to what adds nothing at its end. -/
def parent? (p : Path) : Option Path :=
  let shorten (body : List String) : Option (List String) :=
    match body.reverse.dropWhile isIdle with
    | [] => none
    | _ :: rest => some (rest.dropWhile isIdle).reverse
  if p.isAbsolute then
    (shorten (p.segments.drop 1)).map fun kept => ⟨"/" ++ "/".intercalate kept⟩
  else if p.segments.head? = some "." then
    match shorten (p.segments.drop 1) with
    | none => some ⟨""⟩
    | some kept => some ⟨"/".intercalate ("." :: kept)⟩
  else (shorten p.segments).map fun kept => ⟨"/".intercalate kept⟩

def parent (p : Path) : Path := p.parent?.getD ⟨""⟩

def ancestorsFrom : Nat → Path → List Path
  | 0, p => [p]
  | steps + 1, p =>
    match p.parent? with
    | some up => p :: ancestorsFrom steps up
    | none => [p]

/-- A path, the folder that it is in, the folder above, and so on. -/
def ancestors (p : Path) : List Path := ancestorsFrom p.segments.length p

def fileName? (p : Path) : Option String :=
  match p.parts.getLast? with
  | some (.name s) => some s
  | _ => none

/-- What follows the last point of a file name; nothing when the name begins with it. -/
def suffix? (p : Path) : Option String :=
  match p.fileName?.bind fun name => Text.breakAtLast '.' name.toList with
  | some (_ :: _, after) => some (String.ofList after)
  | _ => none

/-- A path as patterns are written, with slashes for backslashes. -/
def slashed (p : Path) : String := Text.replaceAll '\\' "/" p.text

/-! ### Normal forms -/

/-- Adds a part to a path given in reverse: a step up takes the last part back, where there is one
besides the top folder. -/
def fold (acc : List Part) : Part → List Part
  | .here => acc
  | .up =>
    match acc with
    | [] => [.up]
    | .root :: rest => .up :: .root :: rest
    | _ :: rest => rest
  | part => part :: acc

def normalParts (parts : List Part) : List Part := (parts.foldl fold []).reverse

/-- The path without dots and, as far as its text tells, without steps up. -/
def normalize (p : Path) : Path := ofParts (normalParts p.parts)

/-- A path seen from a folder, in normal form. -/
def locate (base p : Path) : Path := (base.join p).normalize

def dropCommon : List Part → List Part → List Part × List Part
  | a :: as, b :: bs => if a = b then dropCommon as bs else (a :: as, b :: bs)
  | as, bs => (as, bs)

/-- The way from a folder to a path. Paths that do not begin at the same place have none, and the
path stays as it is. -/
def wayFrom (p base : Path) : Path :=
  if p.parts.head? ≠ base.parts.head? then p
  else
    let (down, up) := dropCommon p.parts base.parts
    ofParts (List.replicate up.length .up ++ down)

/-- The parts of a path below a folder. -/
def below? (p folder : Path) : Option (List Part) :=
  if folder.parts.isPrefixOf p.parts then some (p.parts.drop folder.parts.length) else none

/-! ### Order -/

def partsLe : List Part → List Part → Bool
  | [], _ => true
  | _ :: _, [] => false
  | a :: as, b :: bs => if a = b then partsLe as bs else a.before b

def le (a b : Path) : Bool := partsLe a.parts b.parts

end Path

end TypeOnly
