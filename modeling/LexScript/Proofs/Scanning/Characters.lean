import LexScript.Token.Scan
import Mathlib.Data.List.TakeWhile

/-!
# Scanning by characters

What the scanner does can be said of characters. The piece at the start of a text and its extent
depend only on the characters from its first one on. Every piece has at least one character, and it
is told by its first character together with the longest run of characters that can belong to it.

An item carries the line before its piece plus the newlines inside the piece. The scanner counts
newlines where it takes them, as gaps of their own and inside strings; no other piece has one.

## Main definitions

* `Piece.at` : the piece at the start of a text and how many further characters it takes.
* `scanFrom` : the items of a text whose first character is on a line.

## Main statements

* `numberExtent_eq` : where a number ends.
* `piece_at_of_startsWord`, `piece_at_of_isDigit` : words and numbers are told by their first
  character.
-/

namespace LexScript

/-- How many characters continue a number: digits, then a point and digits if at least one
digit follows the point. -/
def numberExtent (cs : List Char) : Nat :=
  let whole := (cs.takeWhile Char.isDigit).length
  match cs.drop whole with
  | '.' :: more =>
    let places := (more.takeWhile Char.isDigit).length
    if places = 0 then whole else whole + 1 + places
  | _ => whole

namespace Piece

/-- A symbol of one character, or of two if an `=` follows. -/
def oneOrTwo (single double : Symbol) : List Char → Piece × Nat
  | '=' :: _ => (token (.symbol double), 1)
  | _ => (token (.symbol single), 0)

/-- A slash, or a comment up to the end of the line if another slash follows. -/
def slashOrComment : List Char → Piece × Nat
  | '/' :: more => (gap, 1 + (more.takeWhile (· != '\n')).length)
  | _ => (token (.symbol .slash), 0)

/-- A string up to its closing quote, or a fault that takes all that is left. -/
def quoted (cs : List Char) : Piece × Nat :=
  let contents := cs.takeWhile (· != '"')
  match cs.dropWhile (· != '"') with
  | [] => (fault .unterminatedString, contents.length)
  | _ :: _ => (token (.string (String.ofList contents)), contents.length + 1)

/-- A number whose first digit is `c`. -/
def number (c : Char) (cs : List Char) : Piece × Nat :=
  let extent := numberExtent cs
  (token (.number (String.ofList (c :: cs.take extent))), extent)

/-- A keyword or an identifier whose first character is `c`. -/
def word (c : Char) (cs : List Char) : Piece × Nat :=
  let more := cs.takeWhile continuesWord
  (token (.ofWord (String.ofList (c :: more))), more.length)

/-- The piece at the start of `c :: cs` and the number of characters of `cs` it takes. -/
def «at» (c : Char) (cs : List Char) : Piece × Nat :=
  match c with
  | '(' => (token (.symbol .leftParen), 0)
  | ')' => (token (.symbol .rightParen), 0)
  | '\x7b' => (token (.symbol .leftBrace), 0)
  | '\x7d' => (token (.symbol .rightBrace), 0)
  | ',' => (token (.symbol .comma), 0)
  | '.' => (token (.symbol .dot), 0)
  | '-' => (token (.symbol .minus), 0)
  | '+' => (token (.symbol .plus), 0)
  | ';' => (token (.symbol .semicolon), 0)
  | '*' => (token (.symbol .star), 0)
  | '!' => oneOrTwo .bang .bangEqual cs
  | '=' => oneOrTwo .equal .equalEqual cs
  | '<' => oneOrTwo .less .lessEqual cs
  | '>' => oneOrTwo .greater .greaterEqual cs
  | '/' => slashOrComment cs
  | ' ' | '\r' | '\t' | '\n' => (gap, 0)
  | '"' => quoted cs
  | c =>
    if c.isDigit then number c cs
    else if startsWord c then word c cs
    else (fault (.unexpectedCharacter c), 0)

end Piece

/-- The number of newlines in a text. -/
def newlines (cs : List Char) : Nat := cs.count '\n'

/-- The items of a text whose first character is on `line`. -/
def scanFrom (line : Nat) : List Char → List Item
  | [] => [.token ⟨.endOfFile, line⟩]
  | c :: cs =>
    let (piece, extent) := Piece.at c cs
    let last := line + newlines (c :: cs.take extent)
    piece.emit last (scanFrom last (cs.drop extent))
termination_by cs => cs.length
decreasing_by simp only [List.length_drop, List.length_cons]; omega

/-! ### Runs -/

/-- A list is its longest run of elements with a property and what is behind it. -/
theorem exists_run (p : Char → Bool) (cs : List Char) :
    ∃ ds rest, cs = ds ++ rest ∧ (∀ d ∈ ds, p d = true) ∧ ∀ c ∈ rest.head?, p c = false := by
  refine ⟨cs.takeWhile p, cs.dropWhile p, List.takeWhile_append_dropWhile.symm,
    fun d hd ↦ List.mem_takeWhile_imp hd, fun c hc ↦ ?_⟩
  have := List.head?_dropWhile_not p cs
  rw [hc] at this
  exact this

theorem takeWhile_append_of_breaks {p : Char → Bool} {ds rest : List Char}
    (h : ∀ d ∈ ds, p d = true) (hrest : ∀ c ∈ rest.head?, p c = false) :
    (ds ++ rest).takeWhile p = ds := by
  rw [List.takeWhile_append_of_pos h]
  cases rest with
  | nil => simp
  | cons c rest => simp [hrest c rfl]

theorem take_length_takeWhile (p : Char → Bool) (cs : List Char) :
    cs.take (cs.takeWhile p).length = cs.takeWhile p :=
  (List.prefix_iff_eq_take.1 (List.takeWhile_prefix p)).symm

/-! ### Numbers -/

/-- Whether a text begins with a point and a digit. -/
def startsPlaces (cs : List Char) : Bool :=
  cs.head? == some '.' && (cs.tail.headD '\x00').isDigit

theorem exists_of_startsPlaces {cs : List Char} (h : startsPlaces cs = true) :
    ∃ more, cs = '.' :: more := by
  rw [startsPlaces, Bool.and_eq_true, beq_iff_eq] at h
  exact List.head?_eq_some_iff.1 h.1

/-- How many characters continue a number, by what is behind its first digits. -/
theorem numberExtent_eq {ds more : List Char} (hds : ∀ d ∈ ds, d.isDigit = true)
    (hmore : ∀ c ∈ more.head?, c.isDigit = false) : numberExtent (ds ++ more) =
      if startsPlaces more then ds.length + (1 + (more.tail.takeWhile Char.isDigit).length)
      else ds.length := by
  simp only [numberExtent, takeWhile_append_of_breaks hds hmore, List.drop_left]
  cases more with
  | nil => rfl
  | cons c more =>
    by_cases hc : c = '.'
    · subst hc
      cases more with
      | nil => rfl
      | cons d more =>
        by_cases hd : d.isDigit = true
        · simp [startsPlaces, hd, Nat.add_assoc]
        · simp [startsPlaces, hd]
    · simp [startsPlaces, hc]

/-! ### Pieces by their first character -/

theorem isDigit_eq_false_of_startsWord {c : Char} (h : startsWord c = true) :
    c.isDigit = false := by
  have halpha : c.isAlpha = (decide (65 ≤ c.val ∧ c.val ≤ 90) ||
      decide (97 ≤ c.val) && decide (c.val ≤ 122)) := rfl
  simp only [startsWord, halpha, Bool.or_eq_true, Bool.and_eq_true, decide_eq_true_eq, beq_iff_eq,
    UInt32.le_iff_toNat_le] at h
  simp only [Char.isDigit, Bool.and_eq_false_iff, decide_eq_false_iff_not, ge_iff_le,
    UInt32.le_iff_toNat_le]
  rcases h with (h | h) | rfl
  · exact .inr (by simp at h ⊢; omega)
  · exact .inr (by simp at h ⊢; omega)
  · exact .inr (by decide)

theorem piece_at_of_startsWord {c : Char} (h : startsWord c = true) (cs : List Char) :
    Piece.at c cs = Piece.word c cs := by
  unfold Piece.at
  split
  all_goals first
    | exact absurd h (by decide)
    | skip
  simp [isDigit_eq_false_of_startsWord h, h]

theorem piece_at_of_isDigit {c : Char} (h : c.isDigit = true) (cs : List Char) :
    Piece.at c cs = Piece.number c cs := by
  unfold Piece.at
  split
  all_goals first
    | exact absurd h (by decide)
    | skip
  simp [h]

namespace Piece

variable {contents : List Char} (h : ∀ c ∈ contents, (c != '"') = true)
include h

theorem quoted_open : quoted contents = (fault .unterminatedString, contents.length) := by
  simp only [quoted, List.dropWhile_eq_nil_iff.2 h, List.takeWhile_eq_self_iff.2 h]

theorem quoted_closed (rest : List Char) : quoted (contents ++ '"' :: rest) =
    (token (.string (String.ofList contents)), contents.length + 1) := by
  have htake : (contents ++ '"' :: rest).takeWhile (· != '"') = contents :=
    takeWhile_append_of_breaks h (by simp)
  simp only [quoted, htake, List.dropWhile_append_of_pos h]
  rfl

end Piece

end LexScript
