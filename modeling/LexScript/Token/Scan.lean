import LexScript.Diagnostic

/-!
# Scanning

A program text is scanned byte by byte from left to right. From a start, the scanner takes the
bytes of one piece: a gap (a blank, a newline or a comment up to its newline), a token, or a fault.
The bytes that it looks at are all in the ASCII range, where a byte is a character; other
characters have several bytes, all of them outside this range.

Lines are counted where newlines are taken, as gaps and inside strings. An item of the stream
carries the line that is reached behind its piece. One token marks the end of the text.

## Main definitions

* `Scanner` : a position in a program text.
* `Scanner.scanToken` : the next piece.
* `scan` : the stream of tokens and lexical errors of a text.
-/

namespace LexScript

/-- What a stretch of program text is. -/
inductive Piece where
  | gap
  | token (kind : TokenKind)
  | fault (f : LexFault)
deriving DecidableEq

/-- One entry of the stream that scanning yields. -/
inductive Item where
  | token (t : Token)
  | error (e : LexError)
deriving DecidableEq

/-- Whether a character may start a word; only letters of the Latin alphabet and the
underscore do. -/
def startsWord (c : Char) : Bool := c.isAlpha || c == '_'

/-- Whether a character may continue a word. -/
def continuesWord (c : Char) : Bool := c.isAlphanum || c == '_'

/-- Whether a byte belongs to a character that begins with an earlier one. -/
def continuesCharacter (b : Char) : Bool := decide ('\x80' ≤ b ∧ b < '\xc0')

/-- A position in a program text. -/
structure Scanner where
  source : String
  /-- The first byte of the current piece. -/
  start : Nat
  /-- One past the last byte that was taken. -/
  current : Nat
  line : Nat

namespace Scanner

/-! ## Bytes -/

/-- The byte at a position, as the character that has its number; 0 behind the end. -/
def byteAt (s : Scanner) (i : Nat) : Char :=
  if h : i < s.source.toUTF8.size then .ofUInt8 s.source.toUTF8[i] else '\x00'

/-- Whether all bytes were taken. -/
def isAtEnd (s : Scanner) : Bool := decide (s.source.utf8ByteSize ≤ s.current)

/-- The next byte. -/
def peek (s : Scanner) : Char := s.byteAt s.current

/-- The byte behind the next one. -/
def peekNext (s : Scanner) : Char := s.byteAt (s.current + 1)

/-- Takes a byte. -/
def advance (s : Scanner) : Scanner := { s with current := s.current + 1 }

/-- Counts a newline. -/
def countLine (s : Scanner) : Scanner := { s with line := s.line + 1 }

/-- Takes the next byte if it is the expected one. -/
def matchByte (s : Scanner) (expected : Char) : Bool × Scanner :=
  if s.peek == expected && !s.isAtEnd then (true, s.advance) else (false, s)

/-- Takes bytes as long as they are as told. -/
def advanceWhile (p : Char → Bool) (s : Scanner) : Scanner :=
  if _ : s.current < s.source.utf8ByteSize then
    if p s.peek then advanceWhile p s.advance else s
  else s
termination_by s.source.utf8ByteSize - s.current
decreasing_by simp only [advance]; omega

/-- Takes bytes up to a quote or to the end, and counts the newlines among them. -/
def advanceToQuote (s : Scanner) : Scanner :=
  if _ : s.current < s.source.utf8ByteSize then
    if s.peek == '"' then s
    else if s.peek == '\n' then advanceToQuote s.advance.countLine
    else advanceToQuote s.advance
  else s
termination_by s.source.utf8ByteSize - s.current
decreasing_by all_goals simp only [advance, countLine]; omega

/-- The text between two positions. -/
def slice (s : Scanner) (i j : Nat) : String := String.Pos.Raw.extract s.source ⟨i⟩ ⟨j⟩

/-! ## Pieces -/

/-- A symbol of one character, or of two if an `=` follows. -/
def oneOrTwo (s : Scanner) (single double : Symbol) : Piece × Scanner :=
  match s.matchByte '=' with
  | (true, s) => (.token (.symbol double), s)
  | (false, s) => (.token (.symbol single), s)

/-- A slash, or a comment if another slash follows. The newline behind a comment is not taken, so
that gaps count lines in one place. -/
def slashOrComment (s : Scanner) : Piece × Scanner :=
  match s.matchByte '/' with
  | (true, s) => (.gap, s.advanceWhile (· != '\n'))
  | (false, s) => (.token (.symbol .slash), s)

/-- A string up to its closing quote, or a fault that takes all that is left. -/
def string (s : Scanner) : Piece × Scanner :=
  let s := s.advanceToQuote
  if s.isAtEnd then (.fault .unterminatedString, s)
  else (.token (.string (s.slice (s.start + 1) s.current)), s.advance)

/-- Takes digits, then a point and digits if at least one digit follows the point. -/
def advanceNumber (s : Scanner) : Scanner :=
  let s := s.advanceWhile Char.isDigit
  if s.peek == '.' && s.peekNext.isDigit then s.advance.advanceWhile Char.isDigit else s

/-- A number. -/
def number (s : Scanner) : Piece × Scanner :=
  let s := s.advanceNumber
  (.token (.number (s.slice s.start s.current)), s)

/-- A keyword or an identifier. -/
def word (s : Scanner) : Piece × Scanner :=
  let s := s.advanceWhile continuesWord
  (.token (.ofWord (s.slice s.start s.current)), s)

/-- A character with which nothing begins. The rest of its bytes is taken as well, so that the next
piece starts with a character. -/
def unexpected (s : Scanner) : Piece × Scanner :=
  let s := s.advanceWhile continuesCharacter
  (.fault (.unexpectedCharacter (String.Pos.Raw.get s.source ⟨s.start⟩)), s)

/-- The piece that begins with the byte `b`, which was taken. -/
def pieceOf (b : Char) (s : Scanner) : Piece × Scanner :=
  match b with
  | '(' => (.token (.symbol .leftParen), s)
  | ')' => (.token (.symbol .rightParen), s)
  | '\x7b' => (.token (.symbol .leftBrace), s)
  | '\x7d' => (.token (.symbol .rightBrace), s)
  | ',' => (.token (.symbol .comma), s)
  | '.' => (.token (.symbol .dot), s)
  | '-' => (.token (.symbol .minus), s)
  | '+' => (.token (.symbol .plus), s)
  | ';' => (.token (.symbol .semicolon), s)
  | '*' => (.token (.symbol .star), s)
  | '!' => s.oneOrTwo .bang .bangEqual
  | '=' => s.oneOrTwo .equal .equalEqual
  | '<' => s.oneOrTwo .less .lessEqual
  | '>' => s.oneOrTwo .greater .greaterEqual
  | '/' => s.slashOrComment
  | ' ' | '\r' | '\t' => (.gap, s)
  | '\n' => (.gap, s.countLine)
  | '"' => s.string
  | b =>
    if b.isDigit then s.number
    else if startsWord b then s.word
    else s.unexpected

/-- The next piece. -/
def scanToken (s : Scanner) : Piece × Scanner :=
  { s with start := s.current }.advance.pieceOf s.peek

/-! ## The stream -/

/-- A scanner has gone on in the same text. -/
structure GoesTo (s s' : Scanner) : Prop where
  source : s'.source = s.source
  current : s.current ≤ s'.current

namespace GoesTo

variable {s s' s'' : Scanner}

theorem refl (s : Scanner) : s.GoesTo s := ⟨rfl, Nat.le_refl _⟩

theorem trans (h : s.GoesTo s') (h' : s'.GoesTo s'') : s.GoesTo s'' :=
  ⟨h'.source.trans h.source, Nat.le_trans h.current h'.current⟩

theorem advance (s : Scanner) : s.GoesTo s.advance := ⟨rfl, Nat.le_succ _⟩

theorem countLine (s : Scanner) : s.GoesTo s.countLine := ⟨rfl, Nat.le_refl _⟩

theorem advanceWhile (p : Char → Bool) (s : Scanner) : s.GoesTo (s.advanceWhile p) := by
  fun_induction Scanner.advanceWhile p s with
  | case1 s _ _ ih => exact (advance s).trans ih
  | case2 s | case3 s => exact refl s

theorem advanceToQuote (s : Scanner) : s.GoesTo s.advanceToQuote := by
  fun_induction Scanner.advanceToQuote s with
  | case1 s | case4 s => exact refl s
  | case2 s _ _ _ ih => exact ((advance s).trans (countLine s.advance)).trans ih
  | case3 s _ _ _ ih => exact (advance s).trans ih

theorem matchByte (s : Scanner) (expected : Char) : s.GoesTo (s.matchByte expected).2 := by
  unfold Scanner.matchByte
  split
  · exact advance s
  · exact refl s

theorem oneOrTwo (s : Scanner) (single double : Symbol) :
    s.GoesTo (s.oneOrTwo single double).2 := by
  have hmatch := matchByte s '='
  unfold Scanner.oneOrTwo
  split
  all_goals next heq => rwa [heq] at hmatch

theorem slashOrComment (s : Scanner) : s.GoesTo s.slashOrComment.2 := by
  have hmatch := matchByte s '/'
  unfold Scanner.slashOrComment
  split
  · next s' heq =>
    rw [heq] at hmatch
    exact hmatch.trans (advanceWhile _ s')
  · next heq => rwa [heq] at hmatch

theorem string (s : Scanner) : s.GoesTo s.string.2 := by
  unfold Scanner.string
  dsimp only
  split
  · exact advanceToQuote s
  · exact (advanceToQuote s).trans (advance _)

theorem advanceNumber (s : Scanner) : s.GoesTo s.advanceNumber := by
  unfold Scanner.advanceNumber
  dsimp only
  split
  · exact (advanceWhile _ s).trans ((advance _).trans (advanceWhile _ _))
  · exact advanceWhile _ s

theorem pieceOf (b : Char) (s : Scanner) : s.GoesTo (s.pieceOf b).2 := by
  unfold Scanner.pieceOf
  split
  case h_11 | h_12 | h_13 | h_14 => exact oneOrTwo s _ _
  case h_15 => exact slashOrComment s
  case h_19 => exact countLine s
  case h_20 => exact string s
  case h_21 =>
    split
    · exact advanceNumber s
    · split
      · exact advanceWhile _ s
      · exact advanceWhile _ s
  all_goals exact refl s

end GoesTo

theorem goesTo_scanToken (s : Scanner) :
    { s with start := s.current }.advance.GoesTo s.scanToken.2 :=
  .pieceOf s.peek _

/-- Every piece has at least one byte. -/
theorem current_lt_scanToken (s : Scanner) : s.current < s.scanToken.2.current :=
  Nat.lt_of_succ_le s.goesTo_scanToken.current

end Scanner

/-- Puts the item of a piece that ends on `line` in front of later items; a gap has none. -/
def Piece.emit (piece : Piece) (line : Nat) (later : List Item) : List Item :=
  match piece with
  | gap => later
  | token kind => .token ⟨kind, line⟩ :: later
  | fault f => .error ⟨f, line⟩ :: later

/-- The items of what is left of a text. -/
def Scanner.items (s : Scanner) : List Item :=
  if _ : s.current < s.source.utf8ByteSize then
    s.scanToken.1.emit s.scanToken.2.line s.scanToken.2.items
  else [.token ⟨.endOfFile, s.line⟩]
termination_by s.source.utf8ByteSize - s.current
decreasing_by
  have hsource : s.scanToken.2.source = s.source := s.goesTo_scanToken.source
  have hcurrent := s.current_lt_scanToken
  rw [hsource]
  omega

/-- The tokens and lexical errors of a program text, in order. -/
def scan (source : String) : List Item := Scanner.items ⟨source, 0, 0, 1⟩

/-- The tokens among the items. -/
def Item.tokens (items : List Item) : List Token :=
  items.filterMap fun
    | .token t => some t
    | .error _ => none

/-- The lexical errors among the items. -/
def Item.errors (items : List Item) : List LexError :=
  items.filterMap fun
    | .token _ => none
    | .error e => some e

@[simp] theorem Item.tokens_map_token (ts : List Token) : Item.tokens (ts.map token) = ts := by
  simp only [tokens, List.filterMap_map]
  exact List.filterMap_some

@[simp] theorem Item.errors_map_token (ts : List Token) : Item.errors (ts.map token) = [] := by
  simp [errors]

end LexScript
