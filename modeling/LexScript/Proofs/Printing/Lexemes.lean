import LexScript.Proofs.Numerals
import LexScript.Proofs.Scanning.ByteCursor

/-!
# Scanning single lexemes

The text of a token is scanned as that token if the text behind it does not continue it. The
judgement `Scans` is about a text with the text behind it in place, so that longest matches are
never cut when texts are put together.

## Main definitions

* `TokenKind.IsSpelled` : the contents of a token are such that its text can stand for it.
* `breaksOff` : a text that continues no token.
* `Scans` : the tokens in front of the rest of a text.
* `Piece.Takes` : the forms of pieces, with their texts.

## Main statements

* `scans_lexeme` : the text of a token is scanned as that token.
* `takes_of_piece` : a piece of a text is of one of the forms.
* `isSpelled_of_scan` : the tokens of a source are spelled.
-/

namespace LexScript

/-! ### Spellings -/

/-- Whether characters form a word that is no keyword. -/
def IsIdentifier (cs : List Char) : Prop :=
  ∃ c ds, cs = c :: ds ∧ startsWord c = true ∧ (∀ d ∈ ds, continuesWord d = true) ∧
    Keyword.ofSpelling? (String.ofList cs) = none

/-- The contents of a token are such that its text can stand for it. -/
def TokenKind.IsSpelled : TokenKind → Prop
  | identifier name => IsIdentifier name.toList
  | string contents => '"' ∉ contents.toList
  | number text => IsNumeral text.toList
  | _ => True

/-- Whether a text begins with a character that continues no token in front of it. -/
def breaksOff : List Char → Bool
  | [] => true
  | c :: cs =>
    !continuesWord c && c != '=' && c != '/' && !(c == '.' && cs.head?.any Char.isDigit)

/-- Whether a text begins with a character that continues no symbol in front of it. -/
def EndsSymbol (cs : List Char) : Prop := ∀ c ∈ cs.head?, c ≠ '=' ∧ c ≠ '/'

/-! ### Scanning a part of a text -/

/-- Scanning a text yields tokens of the given kinds and goes on with the rest. -/
def Scans (cs : List Char) (kinds : List TokenKind) (rest : List Char) : Prop :=
  ∀ line, ∃ (ts : List Token) (line' : Nat), ts.map Token.kind = kinds ∧
    scanFrom line cs = ts.map Item.token ++ scanFrom line' rest

theorem Scans.nil (cs : List Char) : Scans cs [] cs := fun line ↦ ⟨[], line, rfl, rfl⟩

theorem Scans.append {cs ds rest : List Char} {ks js : List TokenKind} (h : Scans cs ks ds)
    (h' : Scans ds js rest) : Scans cs (ks ++ js) rest := by
  intro line
  obtain ⟨ts, line', hts, hcs⟩ := h line
  obtain ⟨us, line'', hus, hds⟩ := h' line'
  exact ⟨ts ++ us, line'', by simp [hts, hus], by simp [hcs, hds]⟩

theorem scanFrom_cons (line : Nat) (c : Char) (cs : List Char) :
    scanFrom line (c :: cs) =
      (Piece.at c cs).1.emit (line + newlines (c :: cs.take (Piece.at c cs).2))
        (scanFrom (line + newlines (c :: cs.take (Piece.at c cs).2))
          (cs.drop (Piece.at c cs).2)) := by
  rw [scanFrom]

theorem Scans.of_token {c : Char} {cs : List Char} {k : TokenKind} {n : Nat}
    (h : Piece.at c cs = (.token k, n)) : Scans (c :: cs) [k] (cs.drop n) := by
  intro line
  refine ⟨[⟨k, line + newlines (c :: cs.take n)⟩], line + newlines (c :: cs.take n), rfl, ?_⟩
  simp [scanFrom_cons, h, Piece.emit]

theorem Scans.of_gap {c : Char} {cs : List Char} {n : Nat} (h : Piece.at c cs = (.gap, n)) :
    Scans (c :: cs) [] (cs.drop n) := by
  intro line
  exact ⟨[], _, rfl, by simp [scanFrom_cons, h, Piece.emit]; rfl⟩

theorem Scans.blank (rest : List Char) : Scans (' ' :: rest) [] rest := .of_gap (n := 0) rfl

theorem Scans.newline (rest : List Char) : Scans ('\n' :: rest) [] rest := .of_gap (n := 0) rfl

theorem Scans.blanks (n : Nat) (rest : List Char) :
    Scans (List.replicate n ' ' ++ rest) [] rest := by
  induction n with
  | zero => exact .nil rest
  | succ n ih =>
    rw [List.replicate_succ]
    exact (Scans.blank _).append ih

/-! ### Words -/

theorem continuesWord_of_breaksOff {rest : List Char} (h : breaksOff rest = true) :
    ∀ c ∈ rest.head?, continuesWord c = false := by
  cases rest with
  | nil => simp
  | cons c rest =>
    simp only [breaksOff, Bool.and_eq_true, Bool.not_eq_true'] at h
    simpa using h.1.1.1

theorem endsSymbol_of_breaksOff {rest : List Char} (h : breaksOff rest = true) :
    EndsSymbol rest := by
  cases rest with
  | nil => simp [EndsSymbol]
  | cons c rest =>
    simp only [breaksOff, Bool.and_eq_true, bne_iff_ne] at h
    simpa [EndsSymbol] using ⟨h.1.1.2, h.1.2⟩

/-- A word is scanned up to its end. -/
theorem scans_word {c : Char} {ds rest : List Char} (hc : startsWord c = true)
    (hd : ∀ d ∈ ds, continuesWord d = true) (hrest : breaksOff rest = true) :
    Scans (c :: ds ++ rest) [.ofWord (String.ofList (c :: ds))] rest := by
  have htake := takeWhile_append_of_breaks hd (continuesWord_of_breaksOff hrest)
  have hpiece : Piece.at c (ds ++ rest) =
      (.token (.ofWord (String.ofList (c :: ds))), ds.length) := by
    rw [piece_at_of_startsWord hc, Piece.word, htake]
  simpa using Scans.of_token hpiece

theorem scans_identifier {name : String} (h : IsIdentifier name.toList) {rest : List Char}
    (hrest : breaksOff rest = true) :
    Scans (name.toList ++ rest) [.identifier name] rest := by
  obtain ⟨c, ds, hname, hc, hd, hword⟩ := h
  have hscans := scans_word hc hd hrest
  rw [← hname, String.ofList_toList] at hscans
  rw [String.ofList_toList] at hword
  simpa [TokenKind.ofWord, hword] using hscans

/-- A keyword is a word. -/
theorem Keyword.exists_spelling (k : Keyword) : ∃ c ds, k.spelling.toList = c :: ds ∧
    startsWord c = true ∧ (∀ d ∈ ds, continuesWord d = true) ∧
    TokenKind.ofWord k.spelling = .keyword k := by
  cases k <;> exact ⟨_, _, rfl, by decide, List.all_eq_true.1 (by decide), by decide⟩

theorem scans_keyword (k : Keyword) {rest : List Char} (hrest : breaksOff rest = true) :
    Scans (k.spelling.toList ++ rest) [.keyword k] rest := by
  obtain ⟨c, ds, hspelling, hc, hd, hkind⟩ := k.exists_spelling
  have hscans := scans_word hc hd hrest
  rwa [← hspelling, String.ofList_toList, hkind] at hscans

/-! ### Numbers -/

theorem isDigit_of_breaksOff {rest : List Char} (h : breaksOff rest = true) :
    ∀ c ∈ rest.head?, c.isDigit = false := by
  intro c hc
  have hword := continuesWord_of_breaksOff h c hc
  simp only [continuesWord, Char.isAlphanum, Bool.or_eq_false_iff] at hword
  exact hword.1.2

theorem startsPlaces_of_breaksOff {rest : List Char} (h : breaksOff rest = true) :
    startsPlaces rest = false := by
  match rest, h with
  | [], _ => rfl
  | [c], _ => exact Bool.and_false _
  | c :: d :: rest, h =>
    rw [breaksOff, Bool.and_eq_true, Bool.not_eq_true'] at h
    exact h.2

theorem numberExtent_whole {cs rest : List Char} (h : ∀ c ∈ cs, c.isDigit = true)
    (hrest : breaksOff rest = true) : numberExtent (cs ++ rest) = cs.length := by
  rw [numberExtent_eq h (isDigit_of_breaksOff hrest), startsPlaces_of_breaksOff hrest, if_neg nofun]

theorem numberExtent_point {cs ds rest : List Char} (h : ∀ c ∈ cs, c.isDigit = true)
    (h' : ∀ d ∈ ds, d.isDigit = true) (hne : ds ≠ []) (hrest : breaksOff rest = true) :
    numberExtent (cs ++ '.' :: (ds ++ rest)) = cs.length + 1 + ds.length := by
  have hpoint : ∀ c ∈ ('.' :: (ds ++ rest)).head?, c.isDigit = false := by simp
  obtain ⟨d, ds, rfl⟩ := List.exists_cons_of_ne_nil hne
  have hplaces : startsPlaces ('.' :: (d :: ds ++ rest)) = true := (List.forall_mem_cons.1 h').1
  rw [numberExtent_eq h hpoint, if_pos hplaces, List.tail_cons,
    takeWhile_append_of_breaks h' (isDigit_of_breaksOff hrest), Nat.add_assoc]

/-- A numeral is scanned up to its end. -/
theorem scans_number {text : String} (h : IsNumeral text.toList) {rest : List Char}
    (hrest : breaksOff rest = true) : Scans (text.toList ++ rest) [.number text] rest := by
  have hpiece : ∃ c ds, text.toList = c :: ds ∧ c.isDigit = true ∧
      numberExtent (ds ++ rest) = ds.length := by
    generalize text.toList = cs at h
    cases h with
    | @whole cs hne hcs =>
      obtain ⟨c, ds, rfl⟩ := List.exists_cons_of_ne_nil hne
      rw [List.forall_mem_cons] at hcs
      exact ⟨c, ds, rfl, hcs.1, numberExtent_whole hcs.2 hrest⟩
    | @point cs ds hne hne' hcs hds =>
      obtain ⟨c, cs, rfl⟩ := List.exists_cons_of_ne_nil hne
      rw [List.forall_mem_cons] at hcs
      refine ⟨c, cs ++ '.' :: ds, rfl, hcs.1, ?_⟩
      rw [List.append_assoc, List.cons_append, numberExtent_point hcs.2 hds hne' hrest]
      simp
      omega
  obtain ⟨c, ds, htext, hc, hextent⟩ := hpiece
  have hat : Piece.at c (ds ++ rest) = (.token (.number text), ds.length) := by
    rw [piece_at_of_isDigit hc, Piece.number, hextent, List.take_left, ← htext,
      String.ofList_toList]
  rw [htext]
  simpa using Scans.of_token hat

/-! ### Strings and symbols -/

theorem piece_at_string {contents : String} (h : '"' ∉ contents.toList) (rest : List Char) :
    Piece.at '"' (contents.toList ++ '"' :: rest) =
      (.token (.string contents), contents.toList.length + 1) := by
  have hne : ∀ c ∈ contents.toList, (c != '"') = true := by
    intro c hc
    rw [bne_iff_ne]
    rintro rfl
    exact h hc
  have hpiece := Piece.quoted_closed hne rest
  rwa [String.ofList_toList] at hpiece

theorem scans_string {contents : String} (h : '"' ∉ contents.toList) (rest : List Char) :
    Scans ('"' :: (contents.toList ++ '"' :: rest)) [.string contents] rest := by
  simpa using Scans.of_token (piece_at_string h rest)

/-- Whether a symbol is scanned as such whatever stands behind it. -/
def Symbol.isPlain : Symbol → Bool
  | bang | equal | less | greater | slash => false
  | _ => true

theorem scans_plainSymbol {s : Symbol} (h : s.isPlain = true) (rest : List Char) :
    Scans (s.spelling.toList ++ rest) [.symbol s] rest := by
  cases s <;> first
    | exact absurd h (by decide)
    | exact .of_token (n := 0) rfl
    | exact .of_token (n := 1) rfl

theorem oneOrTwo_of_endsSymbol {rest : List Char} (h : EndsSymbol rest) (single double : Symbol) :
    Piece.oneOrTwo single double rest = (.token (.symbol single), 0) := by
  unfold Piece.oneOrTwo
  split
  · exact absurd rfl (h '=' rfl).1
  · rfl

theorem slashOrComment_of_endsSymbol {rest : List Char} (h : EndsSymbol rest) :
    Piece.slashOrComment rest = (.token (.symbol .slash), 0) := by
  unfold Piece.slashOrComment
  split
  · exact absurd rfl (h '/' rfl).2
  · rfl

theorem scans_symbol (s : Symbol) {rest : List Char} (h : EndsSymbol rest) :
    Scans (s.spelling.toList ++ rest) [.symbol s] rest := by
  by_cases hs : s.isPlain = true
  · exact scans_plainSymbol hs rest
  · cases s <;> first
      | exact absurd rfl hs
      | exact .of_token (n := 0) (oneOrTwo_of_endsSymbol h _ _)
      | exact .of_token (n := 0) (slashOrComment_of_endsSymbol h)

/-! ### What a piece takes -/

theorem isNumeral_number {c : Char} (hc : c.isDigit = true) (cs : List Char) :
    IsNumeral (c :: cs.take (numberExtent cs)) := by
  obtain ⟨ds, rest, rfl, hds, hrest⟩ := exists_run Char.isDigit cs
  have hwhole : ∀ d ∈ c :: ds, d.isDigit = true := List.forall_mem_cons.2 ⟨hc, hds⟩
  simp only [numberExtent, takeWhile_append_of_breaks hds hrest, List.drop_left]
  split
  · rename_i more
    obtain ⟨es, rest, rfl, hes, hrest'⟩ := exists_run Char.isDigit more
    rw [takeWhile_append_of_breaks hes hrest']
    split
    · rw [List.take_left]
      exact .whole (by simp) hwhole
    · rename_i hplaces
      rw [Nat.add_assoc, List.take_length_add_append, Nat.add_comm 1, List.take_succ_cons,
        List.take_left, ← List.cons_append]
      exact .point (by simp) (by simpa using hplaces) hwhole hes
  · rw [List.take_left]
    exact .whole (by simp) hwhole

/-- A piece takes a text in front of a rest. -/
inductive Piece.Takes : Piece → List Char → List Char → Prop where
  | blank {c : Char} (h : c = ' ' ∨ c = '\r' ∨ c = '\t' ∨ c = '\n') (rest : List Char) :
      Takes gap [c] rest
  | comment {body rest : List Char} (h : '\n' ∉ body) (hrest : ∀ c ∈ rest.head?, c = '\n') :
      Takes gap ('/' :: '/' :: body) rest
  | symbol (s : Symbol) (rest : List Char) : Takes (token (.symbol s)) s.spelling.toList rest
  | word {c : Char} {ds : List Char} (hc : startsWord c = true)
      (hd : ∀ d ∈ ds, continuesWord d = true) (rest : List Char) :
      Takes (token (.ofWord (String.ofList (c :: ds)))) (c :: ds) rest
  | number {text : List Char} (h : IsNumeral text) (rest : List Char) :
      Takes (token (.number (String.ofList text))) text rest
  | string {contents : List Char} (h : '"' ∉ contents) (rest : List Char) :
      Takes (token (.string (String.ofList contents))) ('"' :: (contents ++ ['"'])) rest
  | unexpected {c : Char} (h : c ≠ '"') (rest : List Char) :
      Takes (fault (.unexpectedCharacter c)) [c] rest
  | unterminated {text : List Char} (h : '"' ∉ text) :
      Takes (fault .unterminatedString) ('"' :: text) []

section Takes

variable {piece : Piece} {c : Char} {cs : List Char} {n : Nat}

theorem takes_oneOrTwo {single double : Symbol} (hsingle : single.spelling.toList = [c])
    (hdouble : double.spelling.toList = [c, '='])
    (h : Piece.oneOrTwo single double cs = (piece, n)) :
    piece.Takes (c :: cs.take n) (cs.drop n) := by
  unfold Piece.oneOrTwo at h
  split at h
  · cases h
    exact hdouble ▸ .symbol double _
  · cases h
    exact hsingle ▸ .symbol single cs

theorem takes_slashOrComment (h : Piece.slashOrComment cs = (piece, n)) :
    piece.Takes ('/' :: cs.take n) (cs.drop n) := by
  unfold Piece.slashOrComment at h
  split at h
  · next more =>
    obtain ⟨body, rest, rfl, hbody, hrest⟩ := exists_run (· != '\n') more
    rw [takeWhile_append_of_breaks hbody hrest] at h
    cases h
    rw [Nat.add_comm, List.take_succ_cons, List.take_left, List.drop_succ_cons, List.drop_left]
    refine .comment (fun hmem ↦ ?_) fun d hd ↦ by simpa using hrest d hd
    exact absurd rfl (bne_iff_ne.1 (hbody _ hmem))
  · cases h
    exact .symbol .slash cs

theorem takes_quoted (h : Piece.quoted cs = (piece, n)) :
    piece.Takes ('"' :: cs.take n) (cs.drop n) := by
  obtain ⟨contents, rest, rfl, hcontents, hrest⟩ := exists_run (· != '"') cs
  have hquote : '"' ∉ contents := fun hmem ↦ absurd rfl (bne_iff_ne.1 (hcontents _ hmem))
  simp only [Piece.quoted, takeWhile_append_of_breaks hcontents hrest,
    List.dropWhile_append_of_pos hcontents] at h
  cases rest with
  | nil =>
    cases h
    rw [List.take_left, List.drop_left]
    exact .unterminated hquote
  | cons quote rest =>
    obtain rfl : quote = '"' := by simpa using hrest quote rfl
    cases h
    rw [List.take_length_add_append]
    exact .string hquote _

/-- A piece of a text takes a text of one of the forms. -/
theorem takes_of_piece (h : Piece.at c cs = (piece, n)) :
    piece.Takes (c :: cs.take n) (cs.drop n) := by
  unfold Piece.at at h
  split at h
  case h_11 | h_12 | h_13 | h_14 => exact takes_oneOrTwo rfl rfl h
  case h_15 => exact takes_slashOrComment h
  case h_16 | h_17 | h_18 | h_19 =>
    cases h
    exact .blank (by simp) cs
  case h_20 => exact takes_quoted h
  case h_21 =>
    split at h
    · next hdigit =>
      cases h
      exact .number (isNumeral_number hdigit cs) _
    · split at h
      · next hword =>
        cases h
        rw [← List.prefix_iff_eq_take.1 (List.takeWhile_prefix continuesWord)]
        exact .word hword (fun d hd ↦ List.mem_takeWhile_imp hd) _
      · cases h
        exact .unexpected ‹_› cs
  -- What is left are symbols of one character.
  all_goals
    cases h
    exact .symbol _ cs

end Takes

theorem lexeme_ofWord (word : String) : (TokenKind.ofWord word).lexeme = word := by
  unfold TokenKind.ofWord
  split
  · next k hk =>
    rw [Keyword.ofSpelling?] at hk
    have hspelling := List.find?_some hk
    exact beq_iff_eq.1 hspelling
  · rfl

/-- The characters of a string, with its quotes. -/
theorem toList_lexeme_string (contents : String) :
    (TokenKind.string contents).lexeme.toList = '"' :: (contents.toList ++ ['"']) := by
  simp [TokenKind.lexeme]

namespace Piece.Takes

variable {k : TokenKind} {text rest : List Char} (h : (token k).Takes text rest)
include h

theorem isSpelled : k.IsSpelled := by
  cases h with
  | symbol s => trivial
  | @word c ds hc hd =>
    unfold TokenKind.ofWord
    split
    · trivial
    · next hword => exact ⟨c, ds, String.toList_ofList, hc, hd, by rwa [String.ofList_toList]⟩
  | number h => rwa [TokenKind.IsSpelled, String.toList_ofList]
  | string h => rwa [TokenKind.IsSpelled, String.toList_ofList]

theorem ne_endOfFile : k ≠ .endOfFile := by
  cases h with
  | word hc hd =>
    unfold TokenKind.ofWord
    split <;> nofun
  | _ => nofun

/-- The text of the token is what the piece takes. -/
theorem toList_lexeme : k.lexeme.toList = text := by
  cases h with
  | symbol s => rfl
  | word hc hd => rw [lexeme_ofWord, String.toList_ofList]
  | number h => exact String.toList_ofList
  | string h => rw [toList_lexeme_string, String.toList_ofList]

end Piece.Takes

/-! ### Tokens of a text are spelled -/

theorem isSpelled_of_scanFrom {line : Nat} {cs : List Char} {t : Token}
    (h : t ∈ Item.tokens (scanFrom line cs)) : t.kind.IsSpelled := by
  induction line, cs using scanFrom.induct with
  | case1 line =>
    simp only [scanFrom, Item.tokens, List.filterMap_cons, List.filterMap_nil,
      List.mem_singleton] at h
    rw [h]
    trivial
  | case2 line c cs piece extent hpiece last ih =>
    rw [scanFrom_cons, hpiece] at h
    cases piece with
    | gap => exact ih h
    | fault f => exact ih h
    | token k =>
      simp only [Piece.emit, Item.tokens, List.filterMap_cons, List.mem_cons] at h
      rcases h with rfl | h
      · exact (takes_of_piece hpiece).isSpelled
      · exact ih h

/-- The tokens of a source are spelled. -/
theorem isSpelled_of_scan {source : String} {t : Token} (h : t ∈ Item.tokens (scan source)) :
    t.kind.IsSpelled :=
  isSpelled_of_scanFrom (scan_eq source ▸ h)

end LexScript
