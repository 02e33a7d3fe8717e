import LexScript.Proofs.Sessions.Scanning

/-!
# Longest match

What the lexical grammar says of texts: which of them are lexemes, of which kind, and which of them
stand between lexemes. A piece of a text begins with one of its characters and goes as far as the
grammar allows. If a lexeme begins there, then the piece is at least as long as it; so a number
takes a point only together with a digit behind it, a word is a keyword only as a whole, and an `=`
behind a symbol belongs to it if both together are a symbol.

Where nothing begins that the grammar knows, there is a fault: a character that begins nothing, or a
quote that no other one follows.

## Main definitions

* `IsLexeme`, `IsGap` : the lexical grammar.
* `Piece.Covers` : what a piece says of the characters that it takes and of those behind.

## Main statements

* `IsLexeme.length_le` : a piece is not shorter than a lexeme that begins with it.
* `IsLexeme.piece_eq` : a lexeme on its own is one piece.
* `covers_of_piece` : the pieces of a text are those of the grammar.
-/

namespace LexScript

/-! ### The lexical grammar -/

/-- A text is a lexeme of a kind. Symbols and keywords have fixed spellings, an identifier is a word
that is no keyword, a string has quotes around it and none inside, and a number has digits and at
most one point, which stands between digits. -/
def IsLexeme (text : List Char) (kind : TokenKind) : Prop :=
  kind ≠ .endOfFile ∧ kind.IsSpelled ∧ kind.lexeme.toList = text

/-- A text is one that may stand between lexemes: a blank, a newline or a comment. -/
inductive IsGap : List Char → Prop where
  | blank {c : Char} (h : c = ' ' ∨ c = '\r' ∨ c = '\t' ∨ c = '\n') : IsGap [c]
  | comment {body : List Char} (h : '\n' ∉ body) : IsGap ('/' :: '/' :: body)

/-- What a piece says of the text that it takes, in front of the rest. -/
inductive Piece.Covers : Piece → List Char → List Char → Prop where
  | blank {c : Char} (h : c = ' ' ∨ c = '\r' ∨ c = '\t' ∨ c = '\n') (rest : List Char) :
      Covers gap [c] rest
  /-- A comment goes up to a newline or to the end. -/
  | comment {body rest : List Char} (h : '\n' ∉ body) (hrest : ∀ c ∈ rest.head?, c = '\n') :
      Covers gap ('/' :: '/' :: body) rest
  /-- A lexeme, of no other kind, where no longer one begins and no comment does. -/
  | token {kind : TokenKind} {text rest : List Char} (h : IsLexeme text kind)
      (hkind : ∀ kind', IsLexeme text kind' → kind' = kind)
      (hlongest : ∀ start kind', start <+: text ++ rest → IsLexeme start kind' →
        start.length ≤ text.length)
      (hgap : ∀ start, start <+: text ++ rest → ¬IsGap start) : Covers (token kind) text rest
  /-- A character with which nothing begins. -/
  | unexpected {c : Char} {rest : List Char} (hquote : c ≠ '"')
      (hlexeme : ∀ start kind, start <+: c :: rest → ¬IsLexeme start kind)
      (hgap : ∀ start, start <+: c :: rest → ¬IsGap start) :
      Covers (fault (.unexpectedCharacter c)) [c] rest
  /-- A quote, if there is none behind it. -/
  | unterminated {text : List Char} (h : '"' ∉ text) :
      Covers (fault .unterminatedString) ('"' :: text) []

/-! ### Pieces that begin with a gap or a lexeme -/

variable {c : Char} {ds : List Char} {kind : TokenKind} {n : Nat}

/-- Where a gap begins, the piece is one. -/
theorem IsGap.piece_eq_gap (h : IsGap (c :: ds)) (more : List Char) :
    (Piece.at c (ds ++ more)).1 = .gap := by
  cases h with
  | blank h => rcases h with rfl | rfl | rfl | rfl <;> rfl
  | comment h => rfl

theorem IsGap.exists_cons {text : List Char} (h : IsGap text) : ∃ c ds, text = c :: ds := by
  cases h <;> exact ⟨_, _, rfl⟩

/-- A word goes on as long as it can. -/
theorem piece_at_word (hc : startsWord c = true) (hd : ∀ d ∈ ds, continuesWord d = true)
    (more : List Char) : Piece.at c (ds ++ more) =
      (.token (.ofWord (String.ofList (c :: (ds ++ more.takeWhile continuesWord)))),
        ds.length + (more.takeWhile continuesWord).length) := by
  rw [piece_at_of_startsWord hc, Piece.word, List.takeWhile_append_of_pos hd, List.length_append]

theorem whole_le_numberExtent (cs : List Char) :
    (cs.takeWhile Char.isDigit).length ≤ numberExtent cs := by
  simp only [numberExtent]
  split
  · split <;> omega
  · exact Nat.le_refl _

/-- A number goes on at least as long as a numeral does. -/
theorem IsNumeral.length_le (h : IsNumeral (c :: ds)) (more : List Char) :
    c.isDigit = true ∧ ds.length ≤ numberExtent (ds ++ more) := by
  generalize htext : c :: ds = text at h
  cases h with
  | whole hne hdigits =>
    subst htext
    rw [List.forall_mem_cons] at hdigits
    refine ⟨hdigits.1, Nat.le_trans ?_ (whole_le_numberExtent _)⟩
    rw [List.takeWhile_append_of_pos hdigits.2, List.length_append]
    exact Nat.le_add_right _ _
  | @point cs es hne hne' hdigits hplaces =>
    obtain ⟨c', cs, rfl⟩ := List.exists_cons_of_ne_nil hne
    rw [List.cons_append] at htext
    obtain ⟨rfl, rfl⟩ := List.cons.inj htext
    rw [List.forall_mem_cons] at hdigits
    have hpoint : ∀ d ∈ ('.' :: (es ++ more)).head?, d.isDigit = false := by simp
    have hpos := List.length_pos_iff.2 hne'
    refine ⟨hdigits.1, ?_⟩
    rw [List.append_assoc, List.cons_append]
    simp only [numberExtent, takeWhile_append_of_breaks hdigits.2 hpoint, List.drop_left,
      List.takeWhile_append_of_pos hplaces, List.length_append, List.length_cons]
    rw [if_neg (by omega)]
    omega

theorem Symbol.exists_spelling (s : Symbol) : ∃ c ds, s.spelling.toList = c :: ds ∧
    Piece.at c ds = (.token (.symbol s), ds.length) ∧
    ∀ more, ds.length ≤ (Piece.at c (ds ++ more)).2 ∧
      ∀ f, (Piece.at c (ds ++ more)).1 ≠ .fault f := by
  have hsingle (single double : Symbol) (more : List Char) :
      0 ≤ (Piece.oneOrTwo single double more).2 ∧
        ∀ f, (Piece.oneOrTwo single double more).1 ≠ .fault f := by
    refine ⟨Nat.zero_le _, ?_⟩
    unfold Piece.oneOrTwo
    split <;> nofun
  have hslash (more : List Char) : 0 ≤ (Piece.slashOrComment more).2 ∧
      ∀ f, (Piece.slashOrComment more).1 ≠ .fault f := by
    refine ⟨Nat.zero_le _, ?_⟩
    unfold Piece.slashOrComment
    split <;> nofun
  cases s
  case bang | equal | less | greater => exact ⟨_, [], rfl, rfl, hsingle _ _⟩
  case slash => exact ⟨_, [], rfl, rfl, hslash⟩
  case bangEqual | equalEqual | lessEqual | greaterEqual =>
    exact ⟨_, ['='], rfl, rfl, fun _ ↦ ⟨Nat.le_refl 1, nofun⟩⟩
  all_goals exact ⟨_, [], rfl, rfl, fun _ ↦ ⟨Nat.zero_le _, nofun⟩⟩

namespace IsLexeme

/-- Where a lexeme begins, there is no fault and the piece is not shorter. -/
theorem length_le (h : IsLexeme (c :: ds) kind) (more : List Char) :
    ds.length ≤ (Piece.at c (ds ++ more)).2 ∧ ∀ f, (Piece.at c (ds ++ more)).1 ≠ .fault f := by
  obtain ⟨hend, hspelled, htext⟩ := h
  cases kind with
  | symbol s =>
    obtain ⟨c', ds', hspelling, -, hpiece⟩ := s.exists_spelling
    obtain ⟨rfl, rfl⟩ := List.cons.inj (hspelling.symm.trans htext)
    exact hpiece more
  | keyword k =>
    obtain ⟨c', ds', hspelling, hc, hd, -⟩ := k.exists_spelling
    obtain ⟨rfl, rfl⟩ := List.cons.inj (hspelling.symm.trans htext)
    rw [piece_at_word hc hd]
    exact ⟨Nat.le_add_right _ _, nofun⟩
  | identifier name =>
    obtain ⟨c', ds', hname, hc, hd, -⟩ := hspelled
    obtain ⟨rfl, rfl⟩ := List.cons.inj (hname.symm.trans htext)
    rw [piece_at_word hc hd]
    exact ⟨Nat.le_add_right _ _, nofun⟩
  | string contents =>
    rw [toList_lexeme_string] at htext
    obtain ⟨rfl, rfl⟩ := List.cons.inj htext
    rw [List.append_assoc, List.singleton_append, piece_at_string hspelled, List.length_append]
    exact ⟨Nat.le_refl _, nofun⟩
  | number text =>
    have hnumeral : IsNumeral (c :: ds) := htext ▸ hspelled
    obtain ⟨hc, hle⟩ := hnumeral.length_le more
    rw [piece_at_of_isDigit hc]
    exact ⟨hle, nofun⟩
  | endOfFile => exact absurd rfl hend

/-- A lexeme on its own is one piece of its kind. -/
theorem piece_eq (h : IsLexeme (c :: ds) kind) : Piece.at c ds = (.token kind, ds.length) := by
  obtain ⟨hend, hspelled, htext⟩ := h
  have hword (hc : startsWord c = true) (hd : ∀ d ∈ ds, continuesWord d = true) :
      Piece.at c ds = (.token (.ofWord (String.ofList (c :: ds))), ds.length) := by
    simpa using piece_at_word hc hd []
  cases kind with
  | symbol s =>
    obtain ⟨c', ds', hspelling, hpiece, -⟩ := s.exists_spelling
    obtain ⟨rfl, rfl⟩ := List.cons.inj (hspelling.symm.trans htext)
    exact hpiece
  | keyword k =>
    obtain ⟨c', ds', hspelling, hc, hd, hkind⟩ := k.exists_spelling
    obtain ⟨rfl, rfl⟩ := List.cons.inj (hspelling.symm.trans htext)
    rw [hword hc hd, ← hspelling, String.ofList_toList, hkind]
  | identifier name =>
    obtain ⟨c', ds', hname, hc, hd, hkeyword⟩ := hspelled
    obtain ⟨rfl, rfl⟩ := List.cons.inj (hname.symm.trans htext)
    rw [String.ofList_toList] at hkeyword
    rw [hword hc hd, ← hname, String.ofList_toList, TokenKind.ofWord, hkeyword]
  | string contents =>
    rw [toList_lexeme_string] at htext
    obtain ⟨rfl, rfl⟩ := List.cons.inj htext
    rw [piece_at_string hspelled, List.length_append]
    rfl
  | number text =>
    have hnumeral : IsNumeral (c :: ds) := htext ▸ hspelled
    obtain ⟨hc, hle⟩ := hnumeral.length_le []
    rw [List.append_nil] at hle
    have hextent := Nat.le_antisymm (numberExtent_le ds) hle
    have hofList : String.ofList (c :: ds) = text := by
      rw [← htext]
      exact String.ofList_toList
    rw [piece_at_of_isDigit hc, Piece.number, hextent, List.take_length, hofList]
  | endOfFile => exact absurd rfl hend

/-- A lexeme has characters. -/
theorem exists_cons {text : List Char} (h : IsLexeme text kind) : ∃ c ds, text = c :: ds := by
  obtain ⟨hend, hspelled, rfl⟩ := h
  cases kind with
  | symbol s =>
    obtain ⟨c, ds, hspelling, -⟩ := s.exists_spelling
    exact ⟨c, ds, hspelling⟩
  | keyword k =>
    obtain ⟨c, ds, hspelling, -⟩ := k.exists_spelling
    exact ⟨c, ds, hspelling⟩
  | identifier name =>
    obtain ⟨c, ds, hname, -⟩ := hspelled
    exact ⟨c, ds, hname⟩
  | string contents => exact ⟨_, _, toList_lexeme_string contents⟩
  | number text =>
    change ∃ c ds, text.toList = c :: ds
    rw [TokenKind.IsSpelled] at hspelled
    generalize text.toList = cs at hspelled
    cases hspelled with
    | whole hne => exact List.exists_cons_of_ne_nil hne
    | point hne => exact List.exists_cons_of_ne_nil (List.append_ne_nil_of_left_ne_nil hne _)
  | endOfFile => exact absurd rfl hend

/-- A text is a lexeme of one kind at most. -/
theorem kind_eq {text : List Char} {kind' : TokenKind} (h : IsLexeme text kind)
    (h' : IsLexeme text kind') : kind' = kind := by
  obtain ⟨c, ds, rfl⟩ := h.exists_cons
  exact Piece.token.inj (congrArg Prod.fst (h'.piece_eq.symm.trans h.piece_eq))

end IsLexeme

/-! ### What the grammar says of a piece -/

/-- What begins with a text begins with its first character. -/
theorem exists_append_of_prefix {cs : List Char} {d : Char} (h : d :: ds <+: c :: cs) :
    d = c ∧ ∃ more, cs = ds ++ more := by
  obtain ⟨rfl, more, rfl⟩ := List.cons_prefix_cons.1 h
  exact ⟨rfl, more, rfl⟩

/-- No gap begins where the piece is none. -/
theorem not_isGap_of_piece {cs : List Char} (h : (Piece.at c cs).1 ≠ .gap) {start : List Char}
    (hstart : start <+: c :: cs) : ¬IsGap start := by
  intro hgap
  obtain ⟨d, ds, rfl⟩ := hgap.exists_cons
  obtain ⟨rfl, more, rfl⟩ := exists_append_of_prefix hstart
  exact h (hgap.piece_eq_gap more)

/-- Where a lexeme begins, the piece is no fault and takes at least as much. -/
theorem IsLexeme.le_of_prefix {cs start : List Char} (h : IsLexeme start kind)
    (hstart : start <+: c :: cs) :
    start.length ≤ (Piece.at c cs).2 + 1 ∧ ∀ f, (Piece.at c cs).1 ≠ .fault f := by
  obtain ⟨d, ds, rfl⟩ := h.exists_cons
  obtain ⟨rfl, more, rfl⟩ := exists_append_of_prefix hstart
  obtain ⟨hle, hfault⟩ := h.length_le more
  exact ⟨Nat.succ_le_succ hle, hfault⟩

/-- Each piece of a text is what the grammar says of it. -/
theorem covers_of_piece {cs : List Char} {piece : Piece} (h : Piece.at c cs = (piece, n)) :
    piece.Covers (c :: cs.take n) (cs.drop n) := by
  have htakes := takes_of_piece h
  have htext : c :: cs.take n ++ cs.drop n = c :: cs := by
    rw [List.cons_append, List.take_append_drop]
  have hlength : (c :: cs.take n).length = n + 1 := by
    have hle := piece_at_le c cs
    rw [h] at hle
    rw [List.length_cons, List.length_take_of_le hle]
  have hgap (hpiece : piece ≠ .gap) (start : List Char)
      (hstart : start <+: c :: cs.take n ++ cs.drop n) : ¬IsGap start := by
    rw [htext] at hstart
    exact not_isGap_of_piece (h ▸ hpiece) hstart
  have hlexeme (start : List Char) (kind : TokenKind)
      (hstart : start <+: c :: cs.take n ++ cs.drop n) (hstart' : IsLexeme start kind) :
      start.length ≤ (c :: cs.take n).length ∧ ∀ f, piece ≠ .fault f := by
    rw [htext] at hstart
    rw [hlength]
    simpa only [h] using hstart'.le_of_prefix hstart
  generalize c :: cs.take n = text at *
  generalize cs.drop n = rest at *
  cases piece with
  | token kind =>
    have hkind : IsLexeme text kind :=
      ⟨htakes.ne_endOfFile, htakes.isSpelled, htakes.toList_lexeme⟩
    exact .token hkind (fun _ ↦ hkind.kind_eq)
      (fun start kind' hstart hstart' ↦ (hlexeme start kind' hstart hstart').1) (hgap nofun)
  | gap =>
    cases htakes with
    | blank hblank => exact .blank hblank _
    | comment hbody hrest => exact .comment hbody hrest
  | fault f =>
    cases htakes with
    | unexpected hquote =>
      exact .unexpected hquote
        (fun start kind hstart hstart' ↦ (hlexeme start kind hstart hstart').2 _ rfl) (hgap nofun)
    | unterminated hquote => exact .unterminated hquote

end LexScript
