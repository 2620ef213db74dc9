import TypeOnly.Text.Split

/-!
Patterns for names of modules, in which one star stands for anything.
-/

namespace TypeOnly.Wildcard

set_option autoImplicit false

open Text (breakAt)

/-- What the first star of a pattern stands for in a name; nothing, where there is no star. -/
def capture? (pattern name : String) : Option String :=
  match breakAt '*' pattern.toList with
  | none => if pattern = name then some "" else none
  | some (before, after) =>
    let cs := name.toList
    if before.length + after.length ≤ cs.length && before.isPrefixOf cs && after.isSuffixOf cs then
      some (String.ofList ((cs.drop before.length).take (cs.length - before.length - after.length)))
    else none

def hasStar (pattern : String) : Bool := pattern.toList.contains '*'

/-- The bytes before the first star: the more, the more specific is a pattern. -/
def weight (pattern : String) : Nat :=
  match breakAt '*' pattern.toList with
  | none => pattern.utf8ByteSize
  | some (before, _) => (String.ofList before).utf8ByteSize

end TypeOnly.Wildcard
