import TypeOnly.Text.Character
import TypeOnly.Text.Span

/-!
What can be wrong with the text of a source file, and how it is said.
-/

namespace TypeOnly.Source

set_option autoImplicit false

open TypeOnly.Text (Extent quotedChar)

/-- Why a stretch of source text is refused. -/
inductive Fault where
  -- Tokens that are missing or out of place.
  /-- One particular token was needed. -/
  | expected (wanted found : String)
  /-- One of several tokens was needed. -/
  | unexpected (found wanted : String)
  | endOfText
  | identifierNeeded
  | expressionNeeded
  | typeMemberNameNeeded
  | semicolonNeeded
  | statementEndNeeded
  | trailingComma
  -- Tokens that are badly written.
  | unexpectedCharacter (c : Char)
  | unicodeEscapeNeeded
  | unicodeEscape
  | escapeDigits (wanted : String)
  | nameCharacter
  | escapedReserved (name : String)
  | stringEscape
  | legacyEscape
  | unterminatedComment
  | unterminatedString
  | unterminatedRegex
  | unterminatedTemplate
  | identifierAfterNumber
  | exponentNeeded
  | digitNeeded (base : Nat)
  | numberSeparator
  | legacyDecimal
  | legacyOctal
  | legacyOctalNumber
  | legacyComment
  | conflictMarker
  | unknownRegexFlags
  | repeatedRegexFlag (flag : Char)
  | spaceAfterHash
  -- Names.
  | strictName (name : String)
  | strictBinding
  | argumentsInField
  | awaitAsName
  -- Variables.
  | constWithoutValue
  | patternWithoutValue
  | noVariables
  | usingNotEnabled
  | usingPattern
  | usingWithoutValue
  | usingOverKeys
  -- Ambient code and signatures.
  | implementationInAmbient
  | initializerInSignature
  | optionalInitializer
  | optionalPattern
  | declareInAmbient
  -- Modules.
  | stringExport
  | stringImport (value : String)
  | exportWithoutSource (name : String)
  | typeModifierInTypeImport
  | typeModifierInTypeExport
  | moduleItemInBlock
  | importHere
  | exportHere
  -- Statements.
  | returnOutsideFunction
  | breakOutsideLoop
  | breakToUnknownLabel
  | continueOutsideLoop
  | continueToUnknownLabel
  | duplicateLabel (name : String)
  | labelledFunction
  | labelledGenerator
  | declarationInStatement
  | withInStrict
  | withUntyped
  | lineBreakAfterThrow
  | severalDefaults
  | severalLoopVariables
  | loopVariableWithValue
  | loopVariableWithType
  | loopVariablePattern
  | asyncLoopVariable
  | awaitWithoutOf
  -- Expressions.
  | awaitOutsideAsync
  | awaitInParameter
  | awaitStar
  | yieldInParameter
  | deleteOfName
  | deleteOfValue
  | assignedShorthand
  | invalidTarget
  | notAssignable
  | assignsArguments
  | notATarget
  | notAPattern
  | notAnExpression
  | emptyParentheses
  | spreadInParentheses
  | unaryBeforePower
  | mixedNullish
  | arrowHere
  | arrowAfterLineBreak
  | superHere
  | superCall
  | superCallOptional
  | newOptional
  | templateAfterOptional
  | newTargetOutsideFunction
  | importTrailingComma
  | commaInComputedName
  -- Patterns and parameters.
  | restNotLast
  | restWithoutName
  | restParameterNotLast
  | restParameterOptional
  | restParameterWithValue
  | commaAfterRest
  | optionalMember
  | modifierOnParameter
  | propertyPattern
  | strictDirective
  | typeAfterValue
  -- Classes.
  | modifierOnMember
  | modifierTwice (name : String)
  | modifierOrder (first second : String)
  | modifierConflict (first second : String)
  | modifierOnConstructor (name : String)
  | modifierOnPrivate (name : String)
  | accessOnPrivate
  | overrideWithoutBase
  | declareOnMember
  | accessorReadonly
  | methodReadonly
  | getterWithParameter
  | setterParameterCount
  | setterRest
  | asyncHere
  | constructorTwice
  | constructorGenerator
  | constructorAsync
  | constructorAccessor
  | constructorField
  | constructorPrivate
  | constructorTyped
  | constructorTypeParameters
  | emptyTypeParameters
  | abstractBody
  | abstractValue
  | abstractPlace
  | abstractInConcrete
  | extendsTwice
  | implementsTwice
  | extendsAfterImplements
  | severalBases
  | invalidClassName
  | decoratorBeforeExport
  | decoratorsTwice
  -- Types.
  | modifierOnTypeParameter (name : String)
  | varianceOnFunction (name : String)
  | constOnTypeParameter (name : String)
  | invalidInterfaceName
  | interfaceBase
  | privateInInterface
  | indexParameterCount
  | requiredAfterOptional
  | importTypeArgument
  | numericMember
  | computedMember
  | assertedName (name : String)
  -- Markup.
  | markupCharacter (choices : List String)
  | unterminatedMarkup
  | emptyMarkupAttribute
  | markupValue
  | closingTag (name : String)
  | closingFragment
deriving DecidableEq, Repr, Inhabited

namespace Fault

def message : Fault → String
  | expected wanted found => s!"Expected '{wanted}', got '{found}'"
  | unexpected found wanted => s!"Unexpected token `{found}`. Expected {wanted}"
  | endOfText => "Unexpected eof"
  | identifierNeeded => "Expected ident"
  | expressionNeeded => "Expression expected"
  | typeMemberNameNeeded => "Expected an identifier"
  | semicolonNeeded => "Expected a semicolon"
  | statementEndNeeded => "Expected ';', '\x7d' or <eof>"
  | trailingComma => "Trailing comma is not allowed"
  | unexpectedCharacter c => "Unexpected character " ++ quotedChar c
  | unicodeEscapeNeeded => "Expected unicode escape"
  | unicodeEscape => "Invalid unicode escape"
  | escapeDigits wanted => s!"Bad character escape sequence, expected {wanted}"
  | nameCharacter => "Invalid character in identifier"
  | escapedReserved name => s!"Unexpected escape sequence in reserved word: {name}"
  | stringEscape => "Invalid string escape"
  | legacyEscape | legacyOctal => "Legacy octal escape is not permitted in strict mode"
  | unterminatedComment => "Unterminated block comment"
  | unterminatedString => "Unterminated string constant"
  | unterminatedRegex => "Unterminated regexp literal"
  | unterminatedTemplate => "Unterminated template"
  | identifierAfterNumber => "Identifier cannot follow number"
  | exponentNeeded => "Expected +, - or decimal digit after e"
  | digitNeeded 2 => "Expected a binary digit"
  | digitNeeded 8 => "Expected an octal digit"
  | digitNeeded 16 => "Expected a hexadecimal digit"
  | digitNeeded _ => "Expected a decimal digit"
  | numberSeparator => "A numeric separator is only allowed between two digits"
  | legacyDecimal => "Legacy decimal escape is not permitted in strict mode"
  | legacyOctalNumber =>
    "Legacy octal literals are not available when targeting ECMAScript 5 and higher"
  | legacyComment => "Legacy comments cannot be used in module code"
  | conflictMarker => "Merge conflict marker encountered."
  | unknownRegexFlags => "Unknown regular expression flags."
  | repeatedRegexFlag flag => s!"Duplicated regular expression flag '{flag}'."
  | spaceAfterHash => "Unexpected space between # and identifier"
  | strictName name => s!"`{name}` cannot be used as an identifier in strict mode"
  | strictBinding =>
    "'eval' and 'arguments' cannot be used as a binding identifier in strict mode"
  | argumentsInField => "'arguments' is only allowed in functions and class methods"
  | awaitAsName => "`await` cannot be used as an identifier in an async context"
  | constWithoutValue => "'const' declarations must be initialized"
  | patternWithoutValue => "Destructuring bindings require initializers"
  | noVariables => "Variable declaration list cannot be empty"
  | usingNotEnabled =>
    "Using declaration is not enabled. Set jsc.parser.explicitResourceManagement to true"
  | usingPattern => "Using declaration only allows identifiers"
  | usingWithoutValue => "Using declaration requires initializer"
  | usingOverKeys => "Using declaration is not allowed in for-in loop"
  | implementationInAmbient => "An implementation cannot be declared in ambient contexts"
  | initializerInSignature =>
    "A parameter initializer is only allowed in a function or constructor implementation"
  | optionalInitializer => "Parameter cannot have question mark and initializer"
  | optionalPattern =>
    "A binding pattern parameter cannot be optional in an implementation signature."
  | declareInAmbient =>
    "`declare` modifier not allowed for code already in an ambient context"
  | stringExport => "A string literal cannot be used as an exported binding without `from`."
  | stringImport value =>
    "A string literal cannot be used as an imported binding.\n- Did you mean `import \x7b \""
      ++ value ++ "\" as foo \x7d`?"
  | exportWithoutSource name => s!"`{name}` cannot be used without `from` clause"
  | typeModifierInTypeImport =>
    "The 'type' modifier cannot be used on a named import when 'import type' is used on its "
      ++ "import statement."
  | typeModifierInTypeExport =>
    "The 'type' modifier cannot be used on a named export when 'export type' is used on its "
      ++ "export statement."
  | moduleItemInBlock => "'import', and 'export' cannot be used outside of module code"
  | importHere => "Import is not allowed here"
  | exportHere => "`export` is not allowed here"
  | returnOutsideFunction => "Return statement is not allowed here"
  | breakOutsideLoop =>
    "A 'break' statement can only be used within an enclosing iteration or switch statement"
  | breakToUnknownLabel =>
    "A 'break' statement can only jump to a label of an enclosing statement"
  | continueOutsideLoop =>
    "A 'continue' statement can only jump to a label of an enclosing iteration statement"
  | continueToUnknownLabel => "Jump target cannot cross function boundary"
  | duplicateLabel name => s!"Label {name} is already declared"
  | labelledFunction => "Function cannot be labelled in strict mode"
  | labelledGenerator => "Generator or async function cannot be labelled"
  | declarationInStatement => "Declaration is not allowed"
  | withInStrict => "With statement are not allowed in strict mode"
  | withUntyped =>
    "The 'with' statement is not supported. All symbols in a 'with' block will have type 'any'."
  | lineBreakAfterThrow => "LineBreak cannot follow 'throw'"
  | severalDefaults => "A switch block cannot have multiple defaults"
  | severalLoopVariables => "Expected one variable binding"
  | loopVariableWithValue => "Unexpected initializer in for in/of loop"
  | loopVariableWithType =>
    "The left-hand side of a 'for...of' statement cannot use a type annotation"
  | loopVariablePattern =>
    "The left-hand side of a 'for...in' statement cannot be a destructuring pattern"
  | asyncLoopVariable =>
    "The left-hand side of a `for...of` statement may not be `async`"
  | awaitWithoutOf => "for await syntax is valid only for for-of statement"
  | awaitOutsideAsync => "await isn't allowed in non-async function"
  | awaitInParameter => "`await` expressions cannot be used in a parameter initializer."
  | awaitStar =>
    "await* has been removed from the async functions proposal. Use Promise.all() instead."
  | yieldInParameter => "'yield' cannot be used as a parameter within generator"
  | deleteOfName => "'delete' cannot be called on an identifier in strict mode"
  | deleteOfValue => "The operand of a delete operator must be a property reference."
  | assignedShorthand => "assignment property is invalid syntax"
  | invalidTarget =>
    "The left-hand side of an assignment expression must be a variable or a property access."
  | notAssignable => "Cannot assign to this"
  | assignsArguments => "Invalid use of 'arguments' in strict mode"
  | notATarget => "Invalid assignment target"
  | notAPattern => "Not a pattern"
  | notAnExpression => "Not an expression"
  | emptyParentheses => "Parenthesized expression cannot be empty"
  | spreadInParentheses => "Parenthesized expression cannot contain spread operator"
  | unaryBeforePower => "'**' cannot be applied to unary/await expression."
  | mixedNullish =>
    "Nullish coalescing operator(??) requires parens when mixing with logical operators"
  | arrowHere => "An arrow function is not allowed here"
  | arrowAfterLineBreak => "Unexpected line break between arrow head and arrow"
  | superHere => "Invalid access to super"
  | superCall => "Invalid `super()`"
  | superCallOptional => "Super call cannot be optional"
  | newOptional => "Constructor in/after an optional chaining is not allowed."
  | templateAfterOptional => "Tagged template literal is not allowed in optional chain."
  | newTargetOutsideFunction =>
    "'new.target' is only allowed in the body of a function declaration, function expression, "
      ++ "or class."
  | importTrailingComma => "Trailing comma is disallowed inside import(...) arguments"
  | commaInComputedName =>
    "A comma expression is not allowed in a computed property name"
  | restNotLast => "Rest element must be final element"
  | restWithoutName => "`...` must be followed by an identifier in declaration contexts"
  | restParameterNotLast => "A rest parameter must be last in a parameter list"
  | restParameterOptional => "A rest parameter cannot be optional"
  | restParameterWithValue => "A rest parameter cannot have an initializer"
  | commaAfterRest => "Trailing comma isn't permitted after a rest element"
  | optionalMember => "An object member cannot be declared optional"
  | modifierOnParameter =>
    "A parameter property is only allowed in a constructor implementation"
  | propertyPattern =>
    "Typescript parameter property must be an identifier or assignment pattern"
  | strictDirective =>
    "Illegal 'use strict' directive in function with non-simple parameter list."
  | typeAfterValue => "Type annotations must come before default assignments"
  | modifierOnMember => "Modifiers cannot appear here"
  | modifierTwice name => s!"'{name}' modifier already seen."
  | modifierOrder first second => s!"'{first}' modifier must precede '{second}' modifier."
  | modifierConflict first second =>
    s!"'{first}' modifier cannot be used with '{second}' modifier."
  | modifierOnConstructor name =>
    s!"'{name}' modifier cannot appear on a constructor declaration"
  | modifierOnPrivate name => s!"'{name}' modifier cannot be used with a private identifier"
  | accessOnPrivate => "An accessibility modifier cannot be used with a private identifier."
  | overrideWithoutBase =>
    "This member cannot have an 'override' modifier because its containing class does not extend "
      ++ "another class."
  | declareOnMember => "`declare` modifier cannot appear on class elements of this kind"
  | accessorReadonly => "A getter or a setter cannot be readonly"
  | methodReadonly => "A method cannot be readonly"
  | getterWithParameter => "A `get` accessor cannot have parameters"
  | setterParameterCount => "A `set` accessor must have exactly one parameter"
  | setterRest => "Rest pattern is not allowed in setter"
  | asyncHere => "`async` modifier cannot be used here"
  | constructorTwice => "A class can only have one constructor"
  | constructorGenerator => "A constructor cannot be generator"
  | constructorAsync => "Constructor can't be an async function"
  | constructorAccessor => "Class constructor can't be an accessor."
  | constructorField => "Classes may not have a non-static field named 'constructor'"
  | constructorPrivate => "Classes can't have a private field named '#constructor'."
  | constructorTyped => "Type annotation cannot appear on a constructor declaration"
  | constructorTypeParameters =>
    "Type parameters cannot appear on a constructor declaration"
  | emptyTypeParameters => "Type parameter list cannot be empty"
  | abstractBody => "Abstract method cannot have an implementation."
  | abstractValue => "Abstract property cannot have an initializer."
  | abstractPlace =>
    "`abstract` modifier can only appear on a class or method declaration"
  | abstractInConcrete => "Abstract methods can only appear within an abstract class."
  | extendsTwice => "`extends` clause already seen."
  | implementsTwice => "`implements` clause already seen"
  | extendsAfterImplements => "'extends' clause must precede 'implements' clause."
  | severalBases => "Classes can only extend a single class"
  | invalidClassName => "Invalid class name"
  | decoratorBeforeExport =>
    "Using the export keyword between a decorator and a class is not allowed. Please use "
      ++ "`export @dec class` instead."
  | decoratorsTwice =>
    "Decorators may not appear after `export` or `export default` if they also appear before "
      ++ "`export`."
  | modifierOnTypeParameter name => s!"'{name}' modifier cannot appear on a type parameter"
  | varianceOnFunction name =>
    s!"'{name}' modifier can only appear on a type parameter of a class, interface or type alias"
  | constOnTypeParameter name =>
    s!"'{name}' modifier can only appear on a type parameter of a function, method or class"
  | invalidInterfaceName => "interface name is invalid"
  | interfaceBase =>
    "An interface can only extend an identifier/qualified-name with optional type arguments."
  | privateInInterface => "private names are not allowed in interface"
  | indexParameterCount => "An index signature must have exactly one parameter"
  | requiredAfterOptional => "A required element cannot follow an optional element."
  | importTypeArgument => "literal in an import type should be string literal"
  | numericMember => "An enum member cannot have a numeric name"
  | computedMember => "Computed property names are not allowed in enums"
  | assertedName name =>
    s!"Typescript non-null assertion operator is not allowed with '{name}'"
  | markupCharacter choices =>
    "Unexpected token. Did you mean " ++ " or ".intercalate choices ++ "?"
  | unterminatedMarkup => "Unterminated JSX contents"
  | emptyMarkupAttribute =>
    "JSX attributes must only be assigned a non-empty expression"
  | markupValue =>
    "JSX value should be either an expression or a quoted JSX text"
  | closingTag name => s!"Expected corresponding JSX closing tag for <{name}>"
  | closingFragment => "Expected corresponding JSX closing tag for <>"

/-- Whether the fault is told of each time its text is read, on trial as well. -/
def isToldOnTrial : Fault → Bool
  | legacyComment => true
  | _ => false

/-- The name of a fault that keeps a stretch of text from being a token. -/
def label : Fault → String
  | unexpectedCharacter c => "UnexpectedChar \x7b c: " ++ quotedChar c ++ " \x7d"
  | unicodeEscapeNeeded => "ExpectedUnicodeEscape"
  | unicodeEscape => "InvalidUnicodeEscape"
  | escapeDigits wanted => "BadCharacterEscapeSequence \x7b expected: \"" ++ wanted ++ "\" \x7d"
  | escapedReserved name => "EscapeInReservedWord \x7b word: \"" ++ name ++ "\" \x7d"
  | stringEscape => "InvalidStrEscape"
  | unterminatedRegex => "UnterminatedRegExp"
  | unterminatedTemplate => "UnterminatedTpl"
  | identifierAfterNumber => "IdentAfterNum"
  | exponentNeeded => "NumLitTerminatedWithExp"
  | digitNeeded base => "ExpectedDigit \x7b radix: " ++ toString base ++ " \x7d"
  | unterminatedMarkup => "UnterminatedJSXContents"
  | fault => fault.message

end Fault

/-- A fault and the stretch of text it is about. -/
structure Flaw where
  extent : Extent
  fault : Fault
deriving DecidableEq, Repr, Inhabited

namespace Flaw

def message (i : Flaw) : String := i.fault.message

/-- How a message names text that is no token. -/
def tokenText (i : Flaw) : String :=
  let start := toString i.extent.start
  let stop := toString i.extent.stop
  "<lexing error: Error \x7b error: (" ++ start ++ ".." ++ stop ++ "#0, " ++ i.fault.label
    ++ ") \x7d>"

end Flaw

end TypeOnly.Source
