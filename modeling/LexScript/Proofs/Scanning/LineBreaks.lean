import LexScript.Proofs.Printing.Kinds
import LexScript.Proofs.Sessions.Reading

/-!
# Scanning from line to line

A source in which every string has an end may be cut behind any of its lines, whatever other errors
it has: its items are those of its parts, one behind the other, those of the later part further
down. At the end of the first part scanning looks at nothing in one case and at a newline in the
other; neither continues a token or a comment.

The other way round, lexemes that are put on lines of their own are scanned as the tokens that they
are the lexemes of, since a newline breaks every token off.

## Main statements

* `scans_lexemes` : lexemes on lines of their own.
* `scan_append_newline` : a source is scanned line by line.
-/

namespace LexScript

/-! ### Lexemes on lines of their own -/

theorem breaksOff_newline (cs : List Char) : breaksOff ('\n' :: cs) = true := rfl

/-- Lexemes on lines of their own are scanned one by one. -/
theorem scans_lexemes {kinds : List TokenKind} (h : ∀ k ∈ kinds, k.IsSpelled ∧ k ≠ .endOfFile)
    {rest : List Char} (hrest : breaksOff rest = true) :
    Scans (("\n".intercalate (kinds.map (·.lexeme))).toList ++ rest) kinds rest := by
  induction kinds with
  | nil => exact .nil rest
  | cons k kinds ih =>
    obtain ⟨⟨hspelled, hend⟩, h⟩ := List.forall_mem_cons.1 h
    cases kinds with
    | nil => simpa using scans_lexeme hspelled hend hrest
    | cons k' kinds =>
      have hline := scans_lexeme hspelled hend (breaksOff_newline
        (("\n".intercalate ((k' :: kinds).map (·.lexeme))).toList ++ rest))
      simpa [String.intercalate_cons_cons] using (hline.append (.newline _)).append (ih h)

theorem Scans.kinds_tokens {cs : List Char} {kinds : List TokenKind} (h : Scans cs kinds []) :
    Item.errors (scan (String.ofList cs)) = [] ∧
      (Item.tokens (scan (String.ofList cs))).map Token.kind = kinds ++ [.endOfFile] := by
  obtain ⟨ts, line, rfl, hscan⟩ := h 1
  have htokens : scan (String.ofList cs) = (ts ++ [(⟨.endOfFile, line⟩ : Token)]).map .token := by
    rw [scan_eq, String.toList_ofList, hscan, scanFrom, List.map_append]
    rfl
  rw [htokens, Item.errors_map_token, Item.tokens_map_token, List.map_append]
  exact ⟨rfl, rfl⟩

/-- Lexemes on lines of their own are scanned as tokens of their kinds, whether or not there is one
more line for the end, whose lexeme is empty. -/
theorem kinds_scan_lexemes {kinds : List TokenKind} (h : ∀ k ∈ kinds, k.IsSpelled ∧ k ≠ .endOfFile)
    {joined : String}
    (hjoined : joined = "\n".intercalate ((kinds ++ [TokenKind.endOfFile]).map (·.lexeme)) ∨
      joined = "\n".intercalate (kinds.map (·.lexeme))) :
    Item.errors (scan joined) = [] ∧
      (Item.tokens (scan joined)).map Token.kind = kinds ++ [.endOfFile] := by
  have hscans : Scans joined.toList kinds [] := by
    rcases hjoined with rfl | rfl
    · cases kinds with
      | nil => simpa [TokenKind.lexeme] using Scans.nil []
      | cons k kinds =>
        have hlines := (scans_lexemes h (breaksOff_newline [])).append (.newline [])
        rw [List.append_nil] at hlines
        rw [List.map_append, String.intercalate_append_of_ne_nil (by simp) (by simp)]
        simpa [TokenKind.lexeme] using hlines
    · have hend : breaksOff [] = true := rfl
      simpa using scans_lexemes h hend
  have hmatch := hscans.kinds_tokens
  rwa [String.ofList_toList] at hmatch

/-- The tokens of a source without lexical errors are spelled, and only the last one is the end. -/
theorem exists_kinds_of_scan {source : String} (h : Item.errors (scan source) = []) :
    ∃ kinds : List TokenKind, (∀ k ∈ kinds, k.IsSpelled ∧ k ≠ .endOfFile) ∧
      (Item.tokens (scan source)).map Token.kind = kinds ++ [.endOfFile] := by
  obtain ⟨ts, hts, hscan, -⟩ := exists_tokens_of_scanFrom (scan_eq source ▸ h)
  have htokens : Item.tokens (scan source) = ts ++ [⟨.endOfFile, 1 + newlines source.toList⟩] := by
    rw [scan_eq, hscan, Item.tokens_map_token]
  refine ⟨ts.map Token.kind, List.forall_mem_map.2 fun t ht ↦ ⟨?_, ?_⟩, by simp [htokens]⟩
  · have hmem : t ∈ Item.tokens (scan source) := htokens ▸ List.mem_append_left _ ht
    exact isSpelled_of_scan hmem
  · simpa [Cursor.isEnd] using hts t ht

/-- A source in which every string has an end is scanned line by line. With a newline and another
source behind it, its items but the end come first, and then those of the other source, each on a
line that is further down by the lines of the first source. And if a source has no lexical error at
all, its lexemes on lines of their own are scanned as the same tokens. -/
theorem scan_append_newline {source : String}
    (h : ∀ e ∈ Item.errors (scan source), e.fault ≠ .unterminatedString) :
    scan source = (scan source).dropLast ++ [.token ⟨.endOfFile, linesOf source⟩] ∧
    (∀ later, scan (source ++ "\n" ++ later) =
      (scan source).dropLast ++ (scan later).map (Item.relabel (.shift 0 (linesOf source)))) ∧
    (Item.errors (scan source) = [] →
      let lexemes := (Item.tokens (scan source)).map (·.kind.lexeme)
      ∀ joined, joined = "\n".intercalate lexemes ∨ joined = "\n".intercalate lexemes.dropLast →
        Item.errors (scan joined) = [] ∧
          (Item.tokens (scan joined)).map Token.kind =
            (Item.tokens (scan source)).map Token.kind) := by
  obtain ⟨items, hend, hitems, hrest⟩ := scanFrom_append_newline (scan_eq source ▸ h)
  have hsource : scan source = items ++ [.token ⟨.endOfFile, linesOf source⟩] := by
    rw [scan_eq, hitems, linesOf, Nat.add_comm 1]
  have hdropLast : (scan source).dropLast = items := by rw [hsource, List.dropLast_concat]
  refine ⟨by rw [hdropLast, hsource], fun later ↦ ?_, fun herrors ↦ ?_⟩
  · have hlater := hrest later.toList
    have hline : 1 + newlines source.toList + 1 = 1 + linesOf source := rfl
    rw [hdropLast, scan_eq, scan_eq, ← scanFrom_add, ← hline, ← hlater]
    simp
  · intro lexemes joined hjoined
    obtain ⟨kinds, hkinds, htokens⟩ := exists_kinds_of_scan herrors
    have hlexemes : lexemes = (kinds ++ [TokenKind.endOfFile]).map (·.lexeme) := by
      rw [← htokens, List.map_map]
      rfl
    have hdrop : lexemes.dropLast = kinds.map (·.lexeme) := by
      rw [hlexemes, List.map_append, List.map_singleton, List.dropLast_concat]
    rw [hdrop, hlexemes] at hjoined
    rw [htokens]
    exact kinds_scan_lexemes hkinds hjoined

/-- A comment ends with its line, and a character with which nothing begins is reported on its own
line, whatever source comes next. -/
theorem scan_append_newline_comment :
    let source := "x\n@ // y"
    (∀ e ∈ Item.errors (scan source), e.fault ≠ .unterminatedString) ∧
      scan (source ++ "\n" ++ "\"") =
        [.token ⟨.identifier "x", 1⟩, .error ⟨.unexpectedCharacter '@', 2⟩,
          .error ⟨.unterminatedString, 3⟩, .token ⟨.endOfFile, 3⟩] := by
  intro source
  have hscan : scan source = [.token ⟨.identifier "x", 1⟩, .error ⟨.unexpectedCharacter '@', 2⟩,
      .token ⟨.endOfFile, 2⟩] := by decide +kernel
  have hlater : scan "\"" = [.error ⟨.unterminatedString, 1⟩, .token ⟨.endOfFile, 1⟩] := by
    decide +kernel
  have hstrings : ∀ e ∈ Item.errors (scan source), e.fault ≠ .unterminatedString := by
    rw [hscan]
    decide
  refine ⟨hstrings, ?_⟩
  rw [(scan_append_newline hstrings).2.1 "\"", hscan, hlater]
  decide

end LexScript
