import LexScript.Program

/-!
# Cursors

A parser walks over the tokens before the first end of the program. Its state is a cursor:
the tokens still ahead, the line of the end, the next id to give out and the errors recorded
so far. The token ahead of a cursor without remaining tokens is the end itself, so looking
ahead never fails. Nothing here moves a cursor back.

After a failure parsing resumes behind the next semicolon or in front of the next keyword
that starts a declaration or statement, but at least one token further on.

## Main definitions

* `Cursor`, `Parse` : the state of a parser, and parsers.
* `Parse.skip`, `Parse.accept`, `Parse.expectSymbol`, `Parse.expectName` : moving on.
* `Cursor.resume` : where parsing goes on after a failure.
-/

namespace LexScript

/-- The state of a parser. -/
structure Cursor where
  /-- The tokens ahead, none of which ends the program. -/
  rest : List Token
  /-- The line of the end of the program. -/
  endLine : Nat
  /-- The id of the next expression. -/
  nextId : Nat
  /-- The errors recorded so far, in order. -/
  errors : Array SyntaxError

/-- A parser: it fails with one error or yields a result, and moves a cursor on. -/
abbrev Parse := EStateM SyntaxError Cursor

namespace Cursor

/-- Whether a token ends the program. -/
def isEnd (t : Token) : Bool := t.kind == .endOfFile

/-- The cursor at the start of a list of tokens. Tokens behind the first end are not looked
at; a list without an end ends on the line of its last token. -/
def start (firstId : Nat) (tokens : List Token) : Cursor where
  rest := tokens.takeWhile (!isEnd ·)
  endLine :=
    match tokens.find? isEnd with
    | some t => t.line
    | none => (tokens.getLast?.map Token.line).getD 1
  nextId := firstId
  errors := #[]

/-- The token ahead. -/
def token (c : Cursor) : Token :=
  match c.rest with
  | [] => ⟨.endOfFile, c.endLine⟩
  | t :: _ => t

/-- Whether the token ahead is of the given kind. -/
def sees (c : Cursor) (kind : TokenKind) : Bool := c.token.kind == kind

/-- Whether no token is left. -/
def atEnd (c : Cursor) : Bool := c.rest.isEmpty

/-- Whether a block ends here, by its brace or with the program. -/
def atBlockEnd (c : Cursor) : Bool := c.atEnd || c.sees (.symbol .rightBrace)

/-- Whether an identifier comes right after the token ahead. -/
def seesNameNext (c : Cursor) : Bool :=
  match c.rest with
  | _ :: ⟨.identifier _, _⟩ :: _ => true
  | _ => false

/-- Whether a token starts a declaration or statement with a keyword. -/
def startsStatement (t : Token) : Bool :=
  match t.kind with
  | .keyword .classWord | .keyword .funWord | .keyword .varWord | .keyword .forWord
  | .keyword .ifWord | .keyword .whileWord | .keyword .printWord | .keyword .returnWord => true
  | _ => false

/-- What is left to parse after a failure in front of the given tokens. -/
def resume : List Token → List Token
  | [] => []
  | t :: ts =>
    if t.kind == .symbol .semicolon || ts.head?.any startsStatement then ts else resume ts

end Cursor

namespace Parse

/-- The cursor itself. -/
def cursor : Parse Cursor := get

/-- Fails at the token ahead. -/
def fail {α : Type} (fault : SyntaxFault) : Parse α := fun c ↦ .error ⟨fault, c.token⟩ c

/-- Records an error at the token ahead and goes on. -/
def record (fault : SyntaxFault) : Parse Unit := fun c ↦
  .ok () { c with errors := c.errors.push ⟨fault, c.token⟩ }

/-- Moves over the token ahead, if there is one. -/
def skip : Parse Unit := fun c ↦ .ok () { c with rest := c.rest.tail }

/-- An id that no expression has had. -/
def freshId : Parse Nat := fun c ↦ .ok c.nextId { c with nextId := c.nextId + 1 }

/-- Moves over the token ahead if it is of the given kind. -/
def accept (kind : TokenKind) : Parse Bool := do
  if (← cursor).sees kind then
    skip
    pure true
  else
    pure false

/-- Moves over a required symbol and yields its line. -/
def expectSymbol (s : Symbol) (spot : Spot) : Parse Nat := do
  let t := (← cursor).token
  if t.kind == .symbol s then
    skip
    pure t.line
  else
    fail (.missingSymbol s spot)

/-- Moves over a required identifier. -/
def expectName (role : NameRole) : Parse Ident := do
  match (← cursor).token with
  | ⟨.identifier text, line⟩ =>
    skip
    pure ⟨text, line⟩
  | _ => fail (.missingName role)

/-- Runs a parser; if it fails, records its error, resumes further on and yields nothing. -/
def recover {α : Type} (p : Parse α) : Parse (Option α) := fun c ↦
  match p c with
  | .ok a c => .ok (some a) c
  | .error e c => .ok none { c with rest := Cursor.resume c.rest, errors := c.errors.push e }

/-- Items with a comma between them, at least one. An item beyond the limit is recorded as an
error but still read. The first argument bounds the number of items looked for. -/
def commaSeparated {α : Type} (excess : SyntaxFault) (item : Parse α) :
    Nat → Nat → Parse (List α)
  | 0, _ => fail .tooDeep
  | bound + 1, count => do
    if maxArity ≤ count then record excess
    let first ← item
    if ← accept (.symbol .comma) then
      let others ← commaSeparated excess item bound (count + 1)
      pure (first :: others)
    else
      pure [first]

/-- Items up to a cursor at which to stop. The first argument bounds their number. -/
def itemsUntil {α : Type} (stop : Cursor → Bool) (item : Parse α) : Nat → Parse (List α)
  | 0 => fail .tooDeep
  | bound + 1 => do
    if stop (← cursor) then
      pure []
    else
      let first ← item
      let others ← itemsUntil stop item bound
      pure (first :: others)

end Parse

end LexScript
