import TypeOnly.Source.Reader
import TypeOnly.Source.Tree

/-!
Expressions and patterns, as far as the grammar has to tell them apart: what can be assigned to,
what can be read again as a pattern, and what cannot be an operand.
-/

namespace TypeOnly.Source

set_option autoImplicit false

open TypeOnly.Text (Extent)

/-- What names are bound to, or values stored in. -/
inductive Pattern where
  | name (id : String) (extent : Extent)
  | array (parts : List Pattern) (extent : Extent)
  | object (parts : List Pattern) (extent : Extent)
  | rest (inner : Pattern) (extent : Extent)
  | withDefault (left : Pattern) (extent : Extent)
  /-- A value that something can be stored in. -/
  | place (extent : Extent)
  /-- Something else, which has been told of. -/
  | invalid (extent : Extent)
deriving Inhabited

namespace Pattern

def extent : Pattern → Extent
  | name _ s | array _ s | object _ s | rest _ s | withDefault _ s | place s | invalid s => s

def withExtent (s : Extent) : Pattern → Pattern
  | name id _ => name id s
  | array parts _ => array parts s
  | object parts _ => object parts s
  | rest inner _ => rest inner s
  | withDefault left _ => withDefault left s
  | place _ => place s
  | invalid _ => invalid s

def isName : Pattern → Bool
  | name _ _ => true
  | _ => false

def isRest : Pattern → Bool
  | rest _ _ => true
  | _ => false

/-- Whether it is a single variable or property. -/
def isPlace : Pattern → Bool
  | name _ _ | place _ => true
  | _ => false

mutual

def binding : Pattern → Binding
  | name id _ => .name id
  | array parts _ | object parts _ => .group (bindings parts)
  | rest inner _ => inner.binding
  | withDefault left _ => left.binding
  | place _ | invalid _ => .group []

def bindings : List Pattern → List Binding
  | [] => []
  | p :: others => p.binding :: bindings others

end

mutual

/-- The places of the names that strict rules keep from being bound. -/
def strictNames : Pattern → List Extent
  | name id s => if id = "eval" || id = "arguments" then [s] else []
  | array parts _ | object parts _ => strictNamesOfAll parts
  | rest inner _ => inner.strictNames
  | withDefault left _ => left.strictNames
  | place _ | invalid _ => []

def strictNamesOfAll : List Pattern → List Extent
  | [] => []
  | p :: others => p.strictNames ++ strictNamesOfAll others

end

end Pattern

/-- How a type is said of a value. -/
inductive Assertion where
  /-- With `as` and a type. -/
  | cast
  /-- That it does not change. -/
  | const
  | satisfies
  /-- That it is not missing. -/
  | present
  /-- With a type in angle brackets in front. -/
  | angle
deriving DecidableEq, Repr

inductive Expr where
  | name (id : String) (extent : Extent)
  /-- A string literal as it is written. -/
  | string (raw : String) (extent : Extent)
  /-- Another literal. -/
  | literal (extent : Extent)
  /-- A property of a value. -/
  | member (extent : Extent)
  /-- A property of the base class. -/
  | superMember (extent : Extent)
  /-- A property or call that may be cut short. The flags say which, and whether it may be cut short
  right here. -/
  | chain (ofMember optional : Bool) (extent : Extent)
  | call (extent : Extent)
  /-- `new`, with or without arguments. -/
  | construct (hasArguments : Bool) (extent : Extent)
  | paren (inner : Expr) (extent : Extent)
  /-- An array, with the comma after its last element. -/
  | array (items : List Expr) (comma : Option Extent) (extent : Extent)
  /-- A missing element of an array. -/
  | hole
  | object (properties : List Expr) (extent : Extent)
  /-- A property of an object with its value. -/
  | field (value : Expr) (extent : Extent)
  /-- A property with a default, which only a pattern can have. -/
  | shorthandValue (id : String) (key extent : Extent)
  /-- A method or accessor of an object. -/
  | method (extent : Extent)
  | spread (inner : Expr) (extent : Extent)
  /-- A plain assignment, with what is assigned to as it was first read. -/
  | assign (left : Expr) (target : Pattern) (extent : Extent)
  /-- An assignment that also computes. -/
  | compound (extent : Extent)
  | arrow (extent : Extent)
  /-- A unary operator and its operand. -/
  | unary (extent : Extent)
  /-- `await` and its operand, with the name that this is if it is one. -/
  | awaited (name : Option String) (extent : Extent)
  /-- `yield`, with or without an operand. -/
  | yielded (extent : Extent)
  /-- Two operands, with the operator of the left one if it has one. -/
  | binary (op : String) (left : Option String) (extent : Extent)
  | update (extent : Extent)
  | conditional (extent : Extent)
  /-- A value with a type said of it. -/
  | asserted (inner : Expr) (kind : Assertion) (extent : Extent)
  /-- A value with type arguments. -/
  | instantiated (inner : Expr) (extent : Extent)
  | super (extent : Extent)
  /-- `import`, before the call that it needs. -/
  | importing (extent : Extent)
  | privateName (extent : Extent)
  /-- Functions, classes and templates without a tag. -/
  | value (extent : Extent)
  | other (extent : Extent)
  /-- Something else, which has been told of. -/
  | invalid (extent : Extent)
deriving Inhabited

namespace Expr

def extent : Expr → Extent
  | name _ s | string _ s | literal s | member s | superMember s | chain _ _ s | call s
  | construct _ s | paren _ s | array _ _ s | object _ s | field _ s | shorthandValue _ _ s
  | method s | spread _ s | assign _ _ s | compound s | arrow s | unary s | awaited _ s
  | yielded s | binary _ _ s | update s | conditional s | asserted _ _ s | instantiated _ s
  | super s | importing s | privateName s | value s | other s | invalid s => s
  | hole => .empty 0

def isArrow : Expr → Bool
  | arrow _ => true
  | _ => false

/-- Whether the expression is an operator with its operands, to which nothing is assigned. -/
def isOperation : Expr → Bool
  | unary _ | binary _ _ _ | update _ | conditional _ => true
  | _ => false

/-- Whether a value can be stored in it: a variable or a property. -/
def isTarget : Expr → Bool
  | name id _ => id != "eval" && id != "arguments"
  | member _ | superMember _ => true
  | paren inner _ | instantiated inner _ => inner.isTarget
  | asserted inner kind _ => kind != .const && inner.isTarget
  | _ => false

/-- Whether it has the form of something that a value can be stored in. -/
def hasTargetForm : Expr → Bool
  | name _ _ | member _ | superMember _ | chain _ _ _ | paren _ _ | instantiated _ _
  | invalid _ => true
  | asserted _ kind _ => kind != .const
  | _ => false

/-- Whether the expression is an access or call that may be cut short, perhaps said to be
present. -/
def isChain : Expr → Bool
  | chain _ _ _ => true
  | asserted inner .present _ => inner.isChain
  | _ => false

/-- The operator of two operands. -/
def operator? : Expr → Option String
  | binary op _ _ => some op
  | _ => none

/-- Whether `&&` or `||` joins the expression. -/
def isLogical (e : Expr) : Bool := e.operator? = some "&&" || e.operator? = some "||"

/-- Whether a call of the expression asks for a module. -/
def isImport : Expr → Bool
  | importing _ | name "import" _ => true
  | _ => false

/-- The keyword that is not an expression without what follows it. -/
def keyword? : Expr → Option String
  | super _ => some "super"
  | importing _ => some "import"
  | _ => none

/-- The expression without the parentheses around it. -/
def bare : Expr → Expr
  | paren inner _ => inner.bare
  | e => e

/-- Whether a refused target is refused twice. -/
def refusedTwice (callsToo : Bool) (e : Expr) : Bool :=
  match e.bare with
  | string _ _ | literal _ | binary _ _ _ => false
  | call _ => callsToo
  | _ => true

end Expr

/-- What stands between the parentheses that may be those of an arrow function. -/
inductive ParenItem where
  | expr (e : Expr)
  | pattern (p : Pattern)
deriving Inhabited

namespace ParenItem

def extent : ParenItem → Extent
  | expr e => e.extent
  | pattern p => p.extent

def isPattern : ParenItem → Bool
  | pattern _ => true
  | expr _ => false

end ParenItem

/-- The rules of the grammar that call each other. -/
structure Rules where
  /-- An expression up to a comma. -/
  assignment : Read Expr
  /-- The same, where no markup can stand. -/
  assignmentBase : Read Expr
  /-- Operands and operators. -/
  operation : Read Expr
  unary : Read Expr
  /-- What follows an operand, above a precedence. -/
  binary : Nat → Expr → Read Expr
  /-- What is called or created. -/
  callee : Read Expr
  /-- What can stand on the left of an assignment. -/
  leftHandSide : Read Expr
  /-- Calls, properties and templates after an expression. The flags leave out calls and computed
  properties. -/
  subscripts : Bool → Bool → Expr → Read Expr
  type : Read Unit
  /-- A type that is not conditional. -/
  plainType : Read Unit
  /-- A type with operators in front. -/
  operatorType : Read Unit
  /-- A statement or declaration. The first flag allows imports and exports, the second
  declarations. -/
  item : Bool → Bool → Read Item
  binding : Read Pattern
  /-- A markup element from its opening bracket on. -/
  markup : Read Unit
  /-- The rest of a namespace after its first name. -/
  namespaceBody : Read NamespaceBody

open Read in
/-- The rules when no depth is left, which no text reaches. -/
def Rules.exhausted : Rules where
  assignment := fail .endOfText
  assignmentBase := fail .endOfText
  operation := fail .endOfText
  unary := fail .endOfText
  binary := fun _ _ => fail .endOfText
  callee := fail .endOfText
  leftHandSide := fail .endOfText
  subscripts := fun _ _ _ => fail .endOfText
  type := fail .endOfText
  plainType := fail .endOfText
  operatorType := fail .endOfText
  item := fun _ _ => fail .endOfText
  binding := fail .endOfText
  markup := fail .endOfText
  namespaceBody := fail .endOfText

end TypeOnly.Source
