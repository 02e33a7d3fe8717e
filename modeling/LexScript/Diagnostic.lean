import LexScript.Token

/-!
# Diagnostics

Each phase has its own causes of failure, and each cause has one wording. A lexical error
knows its line only; an error of the parser knows the token at which it arose; errors of
name resolution and of a run know a mark, the text and line of the token they are anchored
at. `Diagnostic` joins the four phases for whoever reports them.

## Main definitions

* `LexError`, `SyntaxError`, `ScopeError`, `RuntimeError` : an error of each phase.
* `Diagnostic.message`, `Diagnostic.display` : the wording alone and with its place.
-/

namespace LexScript

/-- The text and line of a token that an error is anchored at. -/
structure Mark where
  lexeme : String
  line : Nat
deriving DecidableEq

/-! ## Lexical errors -/

/-- Why a piece of program text is no token. -/
inductive LexFault where
  | unexpectedCharacter (c : Char)
  | unterminatedString
deriving DecidableEq

/-- A lexical error and its line. -/
structure LexError where
  fault : LexFault
  line : Nat
deriving DecidableEq

/-- The wording of a lexical error. -/
def LexFault.message : LexFault → String
  | unexpectedCharacter c => "Unexpected character: " ++ c.toString
  | unterminatedString => "Unterminated string."

/-! ## Errors of the parser -/

/-- The three ways to write a function. -/
inductive FunctionForm where
  | function
  | method
  | lambda
deriving DecidableEq

/-- The word for a way to write a function. -/
def FunctionForm.word : FunctionForm → String
  | function => "function"
  | method => "method"
  | lambda => "lambda"

/-- What a name would have been the name of. -/
inductive NameRole where
  | classDecl
  | superclass
  | declared (form : FunctionForm)
  | parameter
  | variableDecl
  | property
  | superMethod
deriving DecidableEq

/-- The wording for a missing name. -/
def NameRole.text : NameRole → String
  | classDecl => "class name"
  | superclass => "superclass name"
  | declared form => form.word ++ " name"
  | parameter => "parameter name"
  | variableDecl => "variable name"
  | property => "property name after '.'"
  | superMethod => "superclass method name"

/-- Where in a construct a symbol is required. -/
inductive Spot where
  | beforeClassBody
  | afterClassBody
  | afterName (form : FunctionForm)
  | afterParameters
  | beforeBody (form : FunctionForm)
  | afterVariableDeclaration
  | afterFor
  | afterLoopCondition
  | afterForClauses
  | afterValue
  | afterExpression
  | afterIf
  | afterIfCondition
  | afterWhile
  | afterCondition
  | afterReturnValue
  | afterBlock
  | afterArguments
  | afterSuper
  | afterFun
deriving DecidableEq

/-- The wording for a place in a construct. -/
def Spot.text : Spot → String
  | beforeClassBody => "before class body"
  | afterClassBody => "after class body"
  | afterName form => "after " ++ form.word ++ " name"
  | afterParameters => "after parameters"
  | beforeBody form => "before " ++ form.word ++ " body"
  | afterVariableDeclaration => "after variable declaration"
  | afterFor => "after 'for'"
  | afterLoopCondition => "after loop condition"
  | afterForClauses => "after for clauses"
  | afterValue => "after value"
  | afterExpression => "after expression"
  | afterIf => "after 'if'"
  | afterIfCondition => "after if condition"
  | afterWhile => "after 'while'"
  | afterCondition => "after condition"
  | afterReturnValue => "after return value"
  | afterBlock => "after block"
  | afterArguments => "after arguments"
  | afterSuper => "after 'super'"
  | afterFun => "after 'fun'"

/-- Why a list of tokens is no program. -/
inductive SyntaxFault where
  /-- A name is required here. -/
  | missingName (role : NameRole)
  /-- A symbol is required here. -/
  | missingSymbol (symbol : Symbol) (spot : Spot)
  /-- No expression starts with this token. -/
  | noExpression
  /-- The left side of this `=` cannot be assigned to. -/
  | invalidTarget
  /-- This parameter is beyond the limit. -/
  | tooManyParameters
  /-- This argument is beyond the limit. -/
  | tooManyArguments
  /-- An expression was to end here. -/
  | trailingToken
  /-- The construct nests deeper than the parser was allowed to look. -/
  | tooDeep
deriving DecidableEq

/-- An error of the parser and the token at which it arose. -/
structure SyntaxError where
  fault : SyntaxFault
  token : Token
deriving DecidableEq

/-- The greatest number of parameters and of arguments. -/
def maxArity : Nat := 255

/-- The wording of an error of the parser. -/
def SyntaxFault.message : SyntaxFault → String
  | missingName role => "Expect " ++ role.text ++ "."
  | missingSymbol symbol spot => "Expect '" ++ symbol.spelling ++ "' " ++ spot.text ++ "."
  | noExpression => "Expect expression."
  | invalidTarget => "Invalid assignment target."
  | tooManyParameters => "Can't have more than " ++ maxArity.repr ++ " parameters."
  | tooManyArguments => "Can't have more than " ++ maxArity.repr ++ " arguments."
  | trailingToken => "Expected end of expression."
  | tooDeep => "Program nests too deeply."

/-! ## Errors of name resolution -/

/-- Why a program is not legal although it parses. -/
inductive ScopeFault where
  | ownInitializer
  | redeclared
  | returnAtTopLevel
  | valueFromInitializer
  | thisOutsideClass
  | superOutsideClass
  | superWithoutSuperclass
  | inheritsFromItself
deriving DecidableEq

/-- An error of name resolution and the token it is anchored at. -/
structure ScopeError where
  fault : ScopeFault
  mark : Mark
deriving DecidableEq

/-- The wording of an error of name resolution. -/
def ScopeFault.message : ScopeFault → String
  | ownInitializer => "Can't read local variable in its own initializer."
  | redeclared => "Already a variable with this name in this scope."
  | returnAtTopLevel => "Can't return from top-level code."
  | valueFromInitializer => "Can't return a value from an initializer."
  | thisOutsideClass => "Can't use 'this' outside of a class."
  | superOutsideClass => "Can't use 'super' outside of a class."
  | superWithoutSuperclass => "Can't use 'super' in a class with no superclass."
  | inheritsFromItself => "A class can't inherit from itself."

/-! ## Errors of a run -/

/-- Why a run stops before its end. -/
inductive Fault where
  | operandMustBeNumber
  | operandsMustBeNumbers
  | operandsMustBeNumbersOrStrings
  | divisionByZero
  | undefinedVariable (name : String)
  | undefinedProperty (name : String)
  | notCallable
  | arityMismatch (expected got : Nat)
  | invalidSuperclass
  | notAnInstance
  | stackOverflow
  | native (reason : String)
  | output (reason : String)
deriving DecidableEq

/-- An error of a run and the token it is anchored at. -/
structure RuntimeError where
  fault : Fault
  mark : Mark
deriving DecidableEq

/-- The wording of an error of a run. -/
def Fault.message : Fault → String
  | operandMustBeNumber => "Operand must be a number."
  | operandsMustBeNumbers => "Operands must be numbers."
  | operandsMustBeNumbersOrStrings => "Operands must be two numbers or two strings."
  | divisionByZero => "Division by zero."
  | undefinedVariable name => "Undefined variable '" ++ name ++ "'."
  | undefinedProperty name => "Undefined property '" ++ name ++ "'."
  | notCallable => "Can only call functions and classes."
  | arityMismatch expected got =>
    "Expected " ++ expected.repr ++ " arguments but got " ++ got.repr ++ "."
  | invalidSuperclass => "Superclass must be a class."
  | notAnInstance => "Only instances have properties."
  | stackOverflow => "Stack overflow."
  | native reason => reason
  | output reason => "Could not write output: " ++ reason

/-! ## All phases -/

/-- An error of any phase. -/
inductive Diagnostic where
  | lex (e : LexError)
  | parse (e : SyntaxError)
  | resolve (e : ScopeError)
  | runtime (e : RuntimeError)
deriving DecidableEq

namespace Diagnostic

/-- The line that a diagnostic refers to. -/
def line : Diagnostic → Nat
  | lex e => e.line
  | parse e => e.token.line
  | resolve e => e.mark.line
  | runtime e => e.mark.line

/-- The place within the line, told only by the parser and name resolution. -/
def location : Diagnostic → String
  | parse ⟨_, ⟨.endOfFile, _⟩⟩ => " at end"
  | parse e => " at '" ++ e.token.kind.lexeme ++ "'"
  | resolve e => " at '" ++ e.mark.lexeme ++ "'"
  | _ => ""

/-- The wording alone. -/
def message : Diagnostic → String
  | lex e => e.fault.message
  | parse e => e.fault.message
  | resolve e => e.fault.message
  | runtime e => e.fault.message

/-- The wording with its place: before the message, except for errors of a run. -/
def display : Diagnostic → String
  | runtime e => e.fault.message ++ "\n[line " ++ e.mark.line.repr ++ "]"
  | d => "[line " ++ d.line.repr ++ "] Error" ++ d.location ++ ": " ++ d.message

end Diagnostic

end LexScript
