import LexScript.Proofs.Scanning.Bytes
import LexScript.Proofs.Scanning.Characters

/-!
# The byte cursor

The scanner is a cursor over the bytes of a text. In front of a piece it stands between two
characters. The tests by which it goes on tell only ASCII characters apart, so it stops between two
characters again, and what it took is what the piece takes of the characters. The only cursor inside
a character is the one behind the first byte of a character with which nothing begins; it goes on to
the end of this character.

## Main definitions

* `Scanner.rest` : the bytes from the cursor on.
* `Scanner.Stands` : a cursor between characters.

## Main statements

* `Scanner.scanToken_eq` : the piece at a cursor is the one of the characters from there on.
* `scan_eq` : scanning by bytes is scanning by characters.
-/

namespace LexScript

/-! ### Outside the ASCII range -/

/-- Nothing begins with a character outside the ASCII range. -/
theorem piece_at_of_le {c : Char} (h : '\x80' ≤ c) (cs : List Char) :
    Piece.at c cs = (.fault (.unexpectedCharacter c), 0) := by
  unfold Piece.at
  split
  case h_21 => rw [isDigit_of_le h, startsWord_of_le h, if_neg nofun, if_neg nofun]
  all_goals exact absurd h (by decide)

namespace Scanner

/-- No piece but a fault begins with a byte outside the ASCII range. -/
theorem pieceOf_of_le {b : Char} (h : '\x80' ≤ b) (s : Scanner) : s.pieceOf b = s.unexpected := by
  unfold pieceOf
  split
  case h_21 => rw [isDigit_of_le h, startsWord_of_le h, if_neg nofun, if_neg nofun]
  all_goals exact absurd h (by decide)

/-! ### The bytes that are left -/

/-- The bytes from the cursor on. -/
def rest (s : Scanner) : List Char :=
  (s.source.toByteArray.data.toList.drop s.current).map Char.ofUInt8

theorem rest_of_lt {s : Scanner} (h : s.current < s.source.utf8ByteSize) :
    s.rest = s.peek :: s.advance.rest := by
  have hsize : s.current < s.source.toByteArray.data.toList.length := h
  have hsize' : s.current < s.source.toUTF8.size := h
  rw [rest, List.drop_eq_getElem_cons hsize, List.map_cons, peek, byteAt, dif_pos hsize']
  rfl

theorem rest_of_le {s : Scanner} (h : s.source.utf8ByteSize ≤ s.current) : s.rest = [] := by
  have hsize : s.source.toByteArray.data.toList.length ≤ s.current := h
  rw [rest, List.drop_eq_nil_of_le hsize, List.map_nil]

theorem peek_of_le {s : Scanner} (h : s.source.utf8ByteSize ≤ s.current) : s.peek = '\x00' :=
  dif_neg (Nat.not_lt_of_le h)

theorem advanceWhile_eq_rest (p : Char → Bool) (s : Scanner) :
    s.advanceWhile p = { s with current := s.current + (s.rest.takeWhile p).length } := by
  fun_induction advanceWhile p s with
  | case1 s h hp ih =>
    rw [ih, rest_of_lt h, List.takeWhile_cons_of_pos hp, List.length_cons]
    simp only [advance, Nat.add_assoc, Nat.add_comm 1]
  | case2 s h hp =>
    rw [rest_of_lt h, List.takeWhile_cons_of_neg hp]
    rfl
  | case3 s h =>
    rw [rest_of_le (Nat.le_of_not_lt h)]
    rfl

theorem advanceToQuote_eq_rest (s : Scanner) :
    s.advanceToQuote =
      { s with
        current := s.current + (s.rest.takeWhile (· != '"')).length
        line := s.line + (s.rest.takeWhile (· != '"')).count '\n' } := by
  fun_induction advanceToQuote s with
  | case1 s h hquote =>
    rw [rest_of_lt h, List.takeWhile_cons_of_neg (by simpa using hquote)]
    rfl
  | case2 s h hquote hnewline ih =>
    rw [ih, rest_of_lt h, List.takeWhile_cons_of_pos (by simpa using hquote), List.length_cons,
      List.count_cons, if_pos hnewline]
    simp only [advance, countLine, rest, Nat.add_assoc, Nat.add_comm 1]
  | case3 s h hquote hnewline ih =>
    rw [ih, rest_of_lt h, List.takeWhile_cons_of_pos (by simpa using hquote), List.length_cons,
      List.count_cons, if_neg hnewline]
    simp only [advance, rest, Nat.add_assoc, Nat.add_comm 1, Nat.add_zero]
  | case4 s h =>
    rw [rest_of_le (Nat.le_of_not_lt h)]
    rfl

/-! ### A cursor between characters -/

/-- Goes on behind characters and counts their newlines. -/
def skip (s : Scanner) (ds : List Char) : Scanner :=
  { s with current := s.current + String.utf8Len ds, line := s.line + newlines ds }

/-- Goes on behind the characters of a piece. -/
def after (s : Scanner) (cs : List Char) (piece : Piece × Nat) : Piece × Scanner :=
  (piece.1, s.skip (cs.take piece.2))

/-- The cursor is between characters: `text` was taken for the current piece, `before` for earlier
ones, and `cs` is left. -/
structure Stands (s : Scanner) (before text cs : List Char) : Prop where
  source : s.source = String.ofList (before ++ text ++ cs)
  start : s.start = String.utf8Len before
  current : s.current = String.utf8Len (before ++ text)

theorem skip_nil (s : Scanner) : s.skip [] = s := rfl

theorem skip_skip (s : Scanner) (ds es : List Char) : (s.skip ds).skip es = s.skip (ds ++ es) := by
  simp only [skip, String.utf8Len_append, newlines, List.count_append, Nat.add_assoc]

namespace Stands

variable {s : Scanner} {before text cs ds : List Char} {p : Char → Bool}

theorem skip (h : s.Stands before text (ds ++ cs)) :
    (s.skip ds).Stands before (text ++ ds) cs where
  source := by simp only [Scanner.skip, h.source, List.append_assoc]
  start := h.start
  current := by simp only [Scanner.skip, h.current, String.utf8Len_append, Nat.add_assoc]

/-- The bytes that are left are those of the characters that are left. -/
theorem rest_eq (h : s.Stands before text cs) : s.rest = encode cs := by
  rw [Scanner.rest, List.map_drop, h.source, map_toByteArray_ofList, h.current, encode_append,
    ← length_encode, List.drop_left]

theorem isAtEnd_eq (h : s.Stands before text cs) : s.isAtEnd = cs.isEmpty := by
  have hsize : s.source.utf8ByteSize = s.current + String.utf8Len cs := by
    rw [h.source, String.utf8ByteSize_ofList, String.utf8Len_append, h.current]
  rw [isAtEnd, hsize]
  cases cs with
  | nil => exact decide_eq_true (Nat.le_refl _)
  | cons c cs =>
    have hc := c.utf8Size_pos
    rw [String.utf8Len_cons]
    exact decide_eq_false (by omega)

/-- The next byte is the first one of the next character, and behind it are the others. -/
theorem peek_and_rest {c b : Char} {bs : List Char} (h : s.Stands before text (c :: cs))
    (hbytes : bytesOf c = b :: bs) : s.peek = b ∧ s.advance.rest = bs ++ encode cs := by
  have hlt : s.current < s.source.utf8ByteSize := by
    have hend := h.isAtEnd_eq
    simpa [isAtEnd] using hend
  have hrest := h.rest_eq
  rw [rest_of_lt hlt, encode_cons, hbytes, List.cons_append] at hrest
  exact List.cons.inj hrest

/-- Looking at the next byte is looking at the next character; behind the end, it is 0. -/
theorem peek_eq (h : s.Stands before text cs) (hp : IsAsciiTest p) :
    p s.peek = p (cs.headD '\x00') := by
  cases cs with
  | nil =>
    have hend : s.source.utf8ByteSize ≤ s.current := by simpa [isAtEnd] using h.isAtEnd_eq
    rw [peek_of_le hend, List.headD_nil]
  | cons c cs =>
    obtain ⟨b, bs, hbytes, -⟩ := exists_lead c
    have hb : b ∈ bytesOf c := hbytes ▸ List.mem_cons_self
    rw [(h.peek_and_rest hbytes).1, hp.eq_of_mem hb, List.headD_cons]

/-- Taking a byte is taking a character of the ASCII range. -/
theorem advance_eq {c : Char} (hc : c < '\x80') (hnewline : c ≠ '\n') :
    s.advance = s.skip [c] := by
  have hsize : String.utf8Len [c] = 1 := by
    rw [← length_encode, encode_cons, bytesOf_of_lt hc]
    rfl
  have hzero : newlines [c] = 0 := List.count_eq_zero.2 (by simpa using hnewline.symm)
  simp only [advance, Scanner.skip, hsize, hzero, Nat.add_zero]

theorem matchByte_eq (h : s.Stands before text cs) {d : Char} (hd : d < '\x80')
    (hnewline : d ≠ '\n') :
    s.matchByte d = if cs.head? = some d then (true, s.skip [d]) else (false, s) := by
  have hpeek := h.peek_eq (isAsciiTest_beq hd)
  rw [matchByte, hpeek, h.isAtEnd_eq, advance_eq hd hnewline]
  cases cs <;> simp

/-- Taking bytes as long as a test holds is taking characters as long as it holds. -/
theorem advanceWhile_eq (h : s.Stands before text cs) (hp : IsAsciiTest p)
    (hnewline : p '\n' = false) : s.advanceWhile p = s.skip (cs.takeWhile p) := by
  have hzero : newlines (cs.takeWhile p) = 0 :=
    List.count_eq_zero.2 fun hmem ↦ absurd (List.mem_takeWhile_imp hmem) (by simp [hnewline])
  rw [advanceWhile_eq_rest, h.rest_eq, hp.takeWhile_encode, length_encode, Scanner.skip, hzero,
    Nat.add_zero]

theorem advanceToQuote_eq (h : s.Stands before text cs) :
    s.advanceToQuote = s.skip (cs.takeWhile (· != '"')) := by
  rw [advanceToQuote_eq_rest, h.rest_eq, (isAsciiTest_bne (by decide)).takeWhile_encode,
    length_encode, count_encode]
  rfl

/-- The text of the current piece. -/
theorem slice_eq (h : s.Stands before text cs) :
    s.slice s.start s.current = String.ofList text := by
  rw [slice, h.source, h.start, h.current, String.utf8Len_append]
  exact String.extract_of_valid before text cs

/-- The text of the current piece behind its quote. -/
theorem slice_eq_contents (h : s.Stands before ('"' :: text) cs) :
    s.slice (s.start + 1) s.current = String.ofList text := by
  have hstart : s.start + 1 = String.utf8Len (before ++ ['"']) := by
    rw [h.start, String.utf8Len_append]
    rfl
  have htext : before ++ '"' :: text = before ++ ['"'] ++ text := by
    rw [List.append_assoc, List.singleton_append]
  rw [slice, h.source, hstart, h.current, htext, String.utf8Len_append (before ++ ['"'])]
  exact String.extract_of_valid (before ++ ['"']) text cs

/-! ### Pieces -/

theorem oneOrTwo_eq (h : s.Stands before text cs) (single double : Symbol) :
    s.oneOrTwo single double = s.after cs (Piece.oneOrTwo single double cs) := by
  rw [oneOrTwo, h.matchByte_eq (by decide) (by decide)]
  cases cs with
  | nil => rfl
  | cons c cs =>
    by_cases hc : c = '='
    · subst hc
      rfl
    · simp [Piece.oneOrTwo, after, skip_nil, hc]

theorem slashOrComment_eq (h : s.Stands before text cs) :
    s.slashOrComment = s.after cs (Piece.slashOrComment cs) := by
  rw [slashOrComment, h.matchByte_eq (by decide) (by decide)]
  cases cs with
  | nil => rfl
  | cons c cs =>
    by_cases hc : c = '/'
    · subst hc
      have hbehind : (s.skip ['/']).Stands before (text ++ ['/']) cs := h.skip
      have hbody := hbehind.advanceWhile_eq (isAsciiTest_bne (d := '\n') (by decide)) rfl
      rw [List.head?_cons, if_pos rfl]
      simp only [hbody, skip_skip, after, Piece.slashOrComment, Nat.add_comm 1,
        List.take_succ_cons, take_length_takeWhile]
      rfl
    · simp [Piece.slashOrComment, after, skip_nil, hc]

theorem string_eq (h : s.Stands before ['"'] cs) : s.string = s.after cs (Piece.quoted cs) := by
  obtain ⟨contents, more, rfl, hcontents, hmore⟩ := exists_run (· != '"') cs
  have hbehind : (s.skip contents).Stands before ('"' :: contents) more := h.skip
  have hslice := hbehind.slice_eq_contents
  have htake := takeWhile_append_of_breaks hcontents hmore
  rw [string, h.advanceToQuote_eq, htake]
  simp only [hbehind.isAtEnd_eq]
  cases more with
  | nil =>
    rw [List.append_nil, Piece.quoted_open hcontents, after, List.take_length]
    rfl
  | cons c more =>
    obtain rfl : c = '"' := by simpa using hmore c rfl
    have hquote : (s.skip contents).advance = s.skip (contents ++ ['"']) := by
      rw [advance_eq (c := '"') (by decide) (by decide), skip_skip]
    have hclosed : (contents ++ '"' :: more).take (contents.length + 1) = contents ++ ['"'] := by
      rw [List.take_length_add_append]
      rfl
    rw [Piece.quoted_closed hcontents, after, hclosed, ← hquote, ← hslice]
    rfl

/-- Looking two bytes ahead is looking two characters ahead if the next one is a point. -/
theorem peek_places (h : s.Stands before text cs) :
    (s.peek == '.' && s.peekNext.isDigit) = startsPlaces cs := by
  rw [h.peek_eq (isAsciiTest_beq (d := '.') (by decide))]
  cases cs with
  | nil => rfl
  | cons c cs =>
    by_cases hc : c = '.'
    · subst hc
      have hbehind : (s.skip ['.']).Stands before (text ++ ['.']) cs := h.skip
      have hnext : s.peekNext = (s.skip ['.']).peek :=
        congrArg peek (advance_eq (s := s) (c := '.') (by decide) (by decide))
      rw [hnext, hbehind.peek_eq isAsciiTest_isDigit]
      rfl
    · simp only [startsPlaces, List.headD_cons, List.head?_cons, beq_false_of_ne hc,
        Bool.false_and, Option.some_beq_some]

theorem advanceNumber_eq (h : s.Stands before text cs) :
    s.advanceNumber = s.skip (cs.take (numberExtent cs)) := by
  obtain ⟨ds, more, rfl, hds, hmore⟩ := exists_run Char.isDigit cs
  have hbehind : (s.skip ds).Stands before (text ++ ds) more := h.skip
  rw [advanceNumber, h.advanceWhile_eq isAsciiTest_isDigit rfl,
    takeWhile_append_of_breaks hds hmore, numberExtent_eq hds hmore]
  simp only [hbehind.peek_places]
  by_cases hplaces : startsPlaces more = true
  · obtain ⟨more, rfl⟩ := exists_of_startsPlaces hplaces
    have hbehind' : ((s.skip ds).skip ['.']).Stands before (text ++ ds ++ ['.']) more :=
      hbehind.skip
    rw [if_pos hplaces, if_pos hplaces, advance_eq (c := '.') (by decide) (by decide),
      hbehind'.advanceWhile_eq isAsciiTest_isDigit rfl, skip_skip, skip_skip,
      List.take_length_add_append, List.tail_cons, Nat.add_comm 1, List.take_succ_cons,
      take_length_takeWhile, List.singleton_append]
  · rw [if_neg hplaces, if_neg hplaces, List.take_left]

theorem number_eq {c : Char} (h : s.Stands before [c] cs) :
    s.number = s.after cs (Piece.number c cs) := by
  have hcs := List.take_append_drop (numberExtent cs) cs
  have hbehind : (s.skip (cs.take (numberExtent cs))).Stands before
      (c :: cs.take (numberExtent cs)) (cs.drop (numberExtent cs)) :=
    Stands.skip (by rwa [hcs])
  rw [number, h.advanceNumber_eq, hbehind.slice_eq]
  rfl

theorem word_eq {c : Char} (h : s.Stands before [c] cs) :
    s.word = s.after cs (Piece.word c cs) := by
  have hword : IsAsciiTest continuesWord := isAsciiTest_of_eq_false fun _ ↦ continuesWord_of_le
  have hcs := List.takeWhile_append_dropWhile (p := continuesWord) (l := cs)
  have hbehind : (s.skip (cs.takeWhile continuesWord)).Stands before
      (c :: cs.takeWhile continuesWord) (cs.dropWhile continuesWord) :=
    Stands.skip (by rwa [hcs])
  rw [word, h.advanceWhile_eq hword (by decide), hbehind.slice_eq, after, Piece.word]
  simp only [take_length_takeWhile]

theorem unexpected_eq {c : Char} (h : s.Stands before [] (c :: cs)) (hnewline : c ≠ '\n') :
    s.advance.unexpected = (.fault (.unexpectedCharacter c), s.skip [c]) := by
  obtain ⟨b, bs, hbytes, -⟩ := exists_lead c
  have hsize : String.utf8Len [c] = 1 + bs.length := by
    rw [← length_encode, encode_cons, hbytes, encode_nil, List.append_nil, List.length_cons,
      Nat.add_comm]
  have hzero : newlines [c] = 0 := List.count_eq_zero.2 (by simpa using hnewline.symm)
  have hcharacter : String.Pos.Raw.get s.source ⟨s.start⟩ = c := by
    rw [h.source, h.start, List.append_nil, String.get_of_valid]
    rfl
  rw [unexpected, advanceWhile_eq_rest, (h.peek_and_rest hbytes).2,
    takeWhile_continuesCharacter hbytes]
  simp only [advance, Scanner.skip, hsize, hzero, hcharacter, Nat.add_assoc, Nat.add_zero]

theorem pieceOf_eq {c : Char} (h : s.Stands before [] (c :: cs)) (hc : c < '\x80') :
    s.advance.pieceOf c = (s.skip [c]).after cs (Piece.at c cs) := by
  have hbehind : (s.skip [c]).Stands before [c] cs := @Stands.skip s before [] cs [c] h
  by_cases hnewline : c = '\n'
  · subst hnewline
    rfl
  have hunexpected := h.unexpected_eq hnewline
  rw [advance_eq hc hnewline] at hunexpected ⊢
  unfold pieceOf
  split
  case h_11 | h_12 | h_13 | h_14 => exact hbehind.oneOrTwo_eq _ _
  case h_15 => exact hbehind.slashOrComment_eq
  case h_19 => exact absurd rfl hnewline
  case h_20 => exact hbehind.string_eq
  case h_21 =>
    by_cases hdigit : c.isDigit = true
    · rw [if_pos hdigit, piece_at_of_isDigit hdigit]
      exact hbehind.number_eq
    by_cases hword : startsWord c = true
    · rw [if_neg hdigit, if_pos hword, piece_at_of_startsWord hword]
      exact hbehind.word_eq
    have hpiece : Piece.at c cs = (.fault (.unexpectedCharacter c), 0) := by
      unfold Piece.at
      split
      case h_21 => rw [if_neg hdigit, if_neg hword]
      all_goals contradiction
    rw [if_neg hdigit, if_neg hword, hpiece]
    exact hunexpected
  all_goals rfl

end Stands

/-- The piece at a cursor is the one of the characters from there on. -/
theorem scanToken_eq {s : Scanner} {before cs : List Char} {c : Char}
    (hsource : s.source = String.ofList (before ++ c :: cs))
    (hcurrent : s.current = String.utf8Len before) : s.scanToken =
      ({ s with start := s.current }.skip [c]).after cs (Piece.at c cs) := by
  have h : { s with start := s.current }.Stands before [] (c :: cs) :=
    ⟨by rw [hsource, List.append_nil], hcurrent, by rw [hcurrent, List.append_nil]⟩
  rw [scanToken]
  obtain ⟨b, bs, hbytes, -⟩ := exists_lead c
  have hpeek : s.peek = b := (h.peek_and_rest hbytes).1
  by_cases hc : c < '\x80'
  · obtain ⟨rfl, -⟩ := List.cons.inj (hbytes.symm.trans (bytesOf_of_lt hc))
    rw [hpeek, h.pieceOf_eq hc]
  · have hc := Char.not_lt.1 hc
    have hb : '\x80' ≤ b := le_of_mem_bytesOf hc (hbytes ▸ List.mem_cons_self)
    have hnewline : c ≠ '\n' := by
      rintro rfl
      exact absurd hc (by decide)
    rw [hpeek, pieceOf_of_le hb, h.unexpected_eq hnewline, piece_at_of_le hc]
    rfl

/-- The items of what is left of a text are those of the characters that are left. -/
theorem items_eq (line : Nat) (cs : List Char) : ∀ (s : Scanner) (before : List Char),
    s.source = String.ofList (before ++ cs) → s.current = String.utf8Len before → s.line = line →
      s.items = scanFrom line cs := by
  induction line, cs using scanFrom.induct with
  | case1 line =>
    intro s before hsource hcurrent hline
    have hend : ¬s.current < s.source.utf8ByteSize := by
      rw [hsource, List.append_nil, String.utf8ByteSize_ofList, hcurrent]
      exact Nat.lt_irrefl _
    rw [items, dif_neg hend, scanFrom, hline]
  | case2 line c cs piece extent hpiece last ih =>
    intro s before hsource hcurrent hline
    have hlt : s.current < s.source.utf8ByteSize := by
      have hc := c.utf8Size_pos
      rw [hsource, String.utf8ByteSize_ofList, String.utf8Len_append, String.utf8Len_cons, hcurrent]
      omega
    have htoken : s.scanToken =
        (piece, { s with start := s.current }.skip (c :: cs.take extent)) := by
      rw [scanToken_eq hsource hcurrent, hpiece, after, skip_skip, List.singleton_append]
    have hnext : s.scanToken.2.items = scanFrom last (cs.drop extent) := by
      rw [htoken]
      refine ih _ (before ++ c :: cs.take extent) ?_ ?_ ?_
      · change s.source = _
        rw [hsource, List.append_assoc, List.cons_append, List.take_append_drop]
      · change s.current + _ = _
        rw [hcurrent, String.utf8Len_append]
      · change s.line + _ = _
        rw [hline]
    have hlast : s.scanToken.2.line = last := by
      rw [htoken]
      change s.line + _ = _
      rw [hline]
    rw [items, dif_pos hlt, scanFrom, hpiece, hnext, hlast, htoken]

end Scanner

/-- Scanning by bytes is scanning by characters. -/
theorem scan_eq (source : String) : scan source = scanFrom 1 source.toList :=
  Scanner.items_eq 1 source.toList _ [] String.ofList_toList.symm rfl rfl

end LexScript
