import TypeOnly.Dictionary
import TypeOnly.Json.Value

/-!
The options that a project is compiled with.
-/

namespace TypeOnly

set_option autoImplicit false

/-- Options by their names. -/
abbrev Options := Dictionary Json

namespace Options

def bool? (o : Options) (name : String) : Option Bool := (o.get? name).bind Json.asBool?

def string? (o : Options) (name : String) : Option String :=
  (o.get? name).bind Json.asString?

/-- The texts in a list of values. -/
def textsIn (j : Json) : Option (List String) :=
  j.asArray?.map fun items => items.filterMap Json.asString?

def strings? (o : Options) (name : String) : Option (List String) :=
  (o.get? name).bind textsIn

def allowJs (o : Options) : Bool := (o.bool? "allowJs").getD false

/-- Whether imports and exports stay as they are written. -/
def verbatim (o : Options) : Bool := (o.bool? "verbatimModuleSyntax").getD false

/-- The options that every compilation runs with, whatever the project says. -/
def forced (o : Options) : Options :=
  ((o.insert "skipLibCheck" (.bool true)).insert "module" (.string "preserve")).insert
    "verbatimModuleSyntax" (.bool true)

end Options

end TypeOnly
