/-!
Cutting texts at characters and taking known beginnings and ends off them.
-/

namespace TypeOnly.Text

set_option autoImplicit false

/-- The stretches between the places where a character stands; one more than there are places. -/
def splitOn (sep : Char) : List Char → List (List Char)
  | [] => [[]]
  | c :: rest =>
    if c = sep then [] :: splitOn sep rest
    else
      match splitOn sep rest with
      | [] => [[c]]
      | field :: fields => (c :: field) :: fields

theorem splitOn_ne_nil (sep : Char) (cs : List Char) : splitOn sep cs ≠ [] := by
  induction cs with
  | nil => simp [splitOn]
  | cons c rest ih =>
    unfold splitOn
    split
    · simp
    · split <;> simp

/-- The stretches of a text between the places where a character stands. -/
def fields (sep : Char) (s : String) : List String :=
  (splitOn sep s.toList).map String.ofList

/-- What stands before and after the first place of a character. -/
def breakAt (sep : Char) : List Char → Option (List Char × List Char)
  | [] => none
  | c :: rest =>
    if c = sep then some ([], rest)
    else (breakAt sep rest).map fun (before, after) => (c :: before, after)

/-- What stands before and after the last place of a character. -/
def breakAtLast (sep : Char) (cs : List Char) : Option (List Char × List Char) :=
  (breakAt sep cs.reverse).map fun (after, before) => (before.reverse, after.reverse)

def beginsWith (start s : String) : Bool := start.toList.isPrefixOf s.toList

def endsWith (ending s : String) : Bool := ending.toList.isSuffixOf s.toList

/-- A text without a beginning that it must have. -/
def dropStart? (start s : String) : Option String :=
  if beginsWith start s then some (String.ofList (s.toList.drop start.length)) else none

/-- A text without an ending that it must have. -/
def dropEnd? (ending s : String) : Option String :=
  if endsWith ending s then some (String.ofList (s.toList.take (s.length - ending.length)))
  else none

/-- Puts a text in the place of every character of one kind. -/
def replaceAll (c : Char) (by_ : String) (s : String) : String :=
  String.ofList (s.toList.flatMap fun x => if x = c then by_.toList else [x])

/-- Puts a text in the place of the first character of one kind. -/
def replaceFirst (c : Char) (by_ : String) (s : String) : String :=
  match breakAt c s.toList with
  | some (before, after) => String.ofList (before ++ by_.toList ++ after)
  | none => s

end TypeOnly.Text
