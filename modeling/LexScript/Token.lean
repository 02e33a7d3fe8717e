import LexScript.Number.Text

/-!
# Tokens

A token is a kind and the line on which its text ends. The kind determines the text: fixed
spellings for symbols and keywords, the name, the quoted contents or the digits otherwise.
The end of a program is a token with an empty text.

## Main definitions

* `Symbol`, `Keyword` : the fixed spellings.
* `TokenKind`, `Token` : what a piece of program text stands for, and where.
* `Keyword.ofSpelling?` : a name that is a keyword is never an identifier.
-/

namespace LexScript

/-- The operators and separators of one or two characters. -/
inductive Symbol where
  | leftParen
  | rightParen
  | leftBrace
  | rightBrace
  | comma
  | dot
  | minus
  | plus
  | semicolon
  | slash
  | star
  | bang
  | bangEqual
  | equal
  | equalEqual
  | greater
  | greaterEqual
  | less
  | lessEqual
deriving DecidableEq

/-- The words that are no identifiers. -/
inductive Keyword where
  | andWord
  | classWord
  | elseWord
  | falseWord
  | funWord
  | forWord
  | ifWord
  | nilWord
  | orWord
  | printWord
  | returnWord
  | superWord
  | thisWord
  | trueWord
  | varWord
  | whileWord
deriving DecidableEq

/-- What a piece of program text stands for. -/
inductive TokenKind where
  | symbol (s : Symbol)
  | keyword (k : Keyword)
  | identifier (name : String)
  | string (contents : String)
  | number (text : String)
  | endOfFile
deriving DecidableEq

/-- A kind and the line, counted from one, on which its text ends. -/
structure Token where
  kind : TokenKind
  line : Nat
deriving DecidableEq

namespace Symbol

/-- The characters of a symbol. -/
def spelling : Symbol → String
  | leftParen => "("
  | rightParen => ")"
  | leftBrace => "\x7b"
  | rightBrace => "\x7d"
  | comma => ","
  | dot => "."
  | minus => "-"
  | plus => "+"
  | semicolon => ";"
  | slash => "/"
  | star => "*"
  | bang => "!"
  | bangEqual => "!="
  | equal => "="
  | equalEqual => "=="
  | greater => ">"
  | greaterEqual => ">="
  | less => "<"
  | lessEqual => "<="

/-- The name of a symbol in a list of tokens. -/
def label : Symbol → String
  | leftParen => "LEFT_PAREN"
  | rightParen => "RIGHT_PAREN"
  | leftBrace => "LEFT_BRACE"
  | rightBrace => "RIGHT_BRACE"
  | comma => "COMMA"
  | dot => "DOT"
  | minus => "MINUS"
  | plus => "PLUS"
  | semicolon => "SEMICOLON"
  | slash => "SLASH"
  | star => "STAR"
  | bang => "BANG"
  | bangEqual => "BANG_EQUAL"
  | equal => "EQUAL"
  | equalEqual => "EQUAL_EQUAL"
  | greater => "GREATER"
  | greaterEqual => "GREATER_EQUAL"
  | less => "LESS"
  | lessEqual => "LESS_EQUAL"

end Symbol

namespace Keyword

/-- The characters of a keyword. -/
def spelling : Keyword → String
  | andWord => "and"
  | classWord => "class"
  | elseWord => "else"
  | falseWord => "false"
  | funWord => "fun"
  | forWord => "for"
  | ifWord => "if"
  | nilWord => "nil"
  | orWord => "or"
  | printWord => "print"
  | returnWord => "return"
  | superWord => "super"
  | thisWord => "this"
  | trueWord => "true"
  | varWord => "var"
  | whileWord => "while"

/-- The name of a keyword in a list of tokens. -/
def label : Keyword → String
  | andWord => "AND"
  | classWord => "CLASS"
  | elseWord => "ELSE"
  | falseWord => "FALSE"
  | funWord => "FUN"
  | forWord => "FOR"
  | ifWord => "IF"
  | nilWord => "NIL"
  | orWord => "OR"
  | printWord => "PRINT"
  | returnWord => "RETURN"
  | superWord => "SUPER"
  | thisWord => "THIS"
  | trueWord => "TRUE"
  | varWord => "VAR"
  | whileWord => "WHILE"

/-- Every keyword once. -/
def all : List Keyword :=
  [andWord, classWord, elseWord, falseWord, funWord, forWord, ifWord, nilWord, orWord,
    printWord, returnWord, superWord, thisWord, trueWord, varWord, whileWord]

/-- The keyword with a given spelling. -/
def ofSpelling? (word : String) : Option Keyword := all.find? (·.spelling == word)

end Keyword

namespace TokenKind

/-- What a whole word of letters, digits and underscores stands for. -/
def ofWord (word : String) : TokenKind :=
  match Keyword.ofSpelling? word with
  | some k => keyword k
  | none => identifier word

/-- The program text of a token of this kind. -/
def lexeme : TokenKind → String
  | symbol s => s.spelling
  | keyword k => k.spelling
  | identifier name => name
  | string contents => "\"" ++ contents ++ "\""
  | number text => text
  | endOfFile => ""

/-- The name of the kind in a list of tokens. -/
def label : TokenKind → String
  | symbol s => s.label
  | keyword k => k.label
  | identifier _ => "IDENTIFIER"
  | string _ => "STRING"
  | number _ => "NUMBER"
  | endOfFile => "EOF"

/-- The value that a token of this kind denotes, as a list of tokens shows it. -/
def denotation : TokenKind → String
  | string contents => contents
  | number text => (Number.ofText text).tokenText
  | _ => "null"

/-- One line of a list of tokens: the kind, the text and the value. -/
def display (kind : TokenKind) : String :=
  kind.label ++ " " ++ kind.lexeme ++ " " ++ kind.denotation

end TokenKind

end LexScript
