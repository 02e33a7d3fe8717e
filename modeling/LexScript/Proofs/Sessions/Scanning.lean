import LexScript.Proofs.Printing.Lexemes
import LexScript.Proofs.Relabelling.Programs

/-!
# Scanning two texts on lines of their own

No token goes on over a newline but a string, which either ends in front of it or has no end.
So a text all of whose strings have an end is scanned in front of a newline as it is on its own, and
what is behind the newline is scanned as it is further down.

## Main statements

* `scanFrom_append_newline`, `exists_tokens_of_scanFrom` : scanning two texts with a newline between
  them, and a text without lexical errors in front of a newline.
* `scanFrom_add` : scanning a text that is further down.
-/

namespace LexScript

/-! ### Pieces in front of a newline -/

theorem takeWhile_append_stop {p : Char → Bool} {c : Char} (h : p c = false)
    (cs rest : List Char) : (cs ++ c :: rest).takeWhile p = cs.takeWhile p := by
  induction cs with
  | nil => rw [List.nil_append, List.takeWhile_cons_of_neg (by simp [h]), List.takeWhile_nil]
  | cons d cs ih =>
    rw [List.cons_append, List.takeWhile_cons, List.takeWhile_cons, ih]

theorem numberExtent_append_newline (cs rest : List Char) :
    numberExtent (cs ++ '\n' :: rest) = numberExtent cs := by
  have hlen : (cs.takeWhile Char.isDigit).length ≤ cs.length := (List.takeWhile_prefix _).length_le
  simp only [numberExtent, takeWhile_append_stop (p := Char.isDigit) (c := '\n') rfl,
    List.drop_append_of_le_length hlen]
  cases cs.drop (cs.takeWhile Char.isDigit).length with
  | nil => rfl
  | cons d ds =>
    by_cases hd : d = '.'
    · subst hd
      simp only [List.cons_append, takeWhile_append_stop (p := Char.isDigit) (c := '\n') rfl]
    · simp [hd]

theorem piece_oneOrTwo_append_newline (single double : Symbol) (cs rest : List Char) :
    Piece.oneOrTwo single double (cs ++ '\n' :: rest) = Piece.oneOrTwo single double cs := by
  cases cs with
  | nil => rfl
  | cons c cs =>
    by_cases hc : c = '='
    · subst hc
      rfl
    · simp [Piece.oneOrTwo, hc]

theorem piece_slashOrComment_append_newline (cs rest : List Char) :
    Piece.slashOrComment (cs ++ '\n' :: rest) = Piece.slashOrComment cs := by
  cases cs with
  | nil => rfl
  | cons c cs =>
    by_cases hc : c = '/'
    · subst hc
      simp [Piece.slashOrComment, takeWhile_append_stop (p := (· != '\n')) (c := '\n') rfl]
    · simp [Piece.slashOrComment, hc]

theorem piece_quoted_append {cs : List Char}
    (h : (Piece.quoted cs).1 ≠ .fault .unterminatedString) (rest : List Char) :
    Piece.quoted (cs ++ rest) = Piece.quoted cs := by
  obtain ⟨contents, more, rfl, hcontents, hmore⟩ := exists_run (· != '"') cs
  cases more with
  | nil =>
    refine absurd ?_ h
    rw [List.append_nil] at h ⊢
    simp [Piece.quoted, List.dropWhile_eq_nil_iff.2 hcontents]
  | cons c more =>
    have hc : (c != '"') = false := hmore c rfl
    have hdrop (ds : List Char) :
        (contents ++ c :: ds).dropWhile (· != '"') = c :: ds := by
      rw [List.dropWhile_append_of_pos hcontents, List.dropWhile_cons_of_neg (by simp [hc])]
    have htake (ds : List Char) : (contents ++ c :: ds).takeWhile (· != '"') =
        contents.takeWhile (· != '"') := takeWhile_append_stop (p := (· != '"')) hc contents ds
    simp only [Piece.quoted, List.append_assoc, List.cons_append, htake, hdrop]

theorem numberExtent_le (cs : List Char) : numberExtent cs ≤ cs.length := by
  obtain ⟨ds, more, rfl, hds, hmore⟩ := exists_run Char.isDigit cs
  rw [numberExtent_eq hds hmore, List.length_append]
  split
  · next hplaces =>
    obtain ⟨more, rfl⟩ := exists_of_startsPlaces hplaces
    have hle := (List.takeWhile_prefix Char.isDigit (l := more)).length_le
    rw [List.tail_cons, List.length_cons]
    omega
  · exact Nat.le_add_right ..

theorem piece_oneOrTwo_le (single double : Symbol) (cs : List Char) :
    (Piece.oneOrTwo single double cs).2 ≤ cs.length := by
  unfold Piece.oneOrTwo
  split <;> simp

theorem piece_slashOrComment_le (cs : List Char) :
    (Piece.slashOrComment cs).2 ≤ cs.length := by
  unfold Piece.slashOrComment
  split
  · have := (List.takeWhile_prefix (· != '\n') (l := ‹List Char›)).length_le
    rw [List.length_cons]
    omega
  · exact Nat.zero_le _

theorem piece_quoted_le (cs : List Char) : (Piece.quoted cs).2 ≤ cs.length := by
  have hlen := congrArg List.length (List.takeWhile_append_dropWhile (p := (· != '"')) (l := cs))
  rw [List.length_append] at hlen
  unfold Piece.quoted
  split
  · exact (List.takeWhile_prefix _).length_le
  · rename_i hdrop
    rw [hdrop, List.length_cons] at hlen
    dsimp only
    omega

/-- A piece does not go on behind the text. -/
theorem piece_at_le (c : Char) (cs : List Char) : (Piece.at c cs).2 ≤ cs.length := by
  unfold Piece.at
  split
  case h_20 => exact piece_quoted_le cs
  case h_21 =>
    have hword : (cs.takeWhile continuesWord).length ≤ cs.length :=
      (List.takeWhile_prefix _).length_le
    split
    · exact numberExtent_le cs
    · split
      · exact hword
      · exact Nat.zero_le _
  all_goals
    first
    | exact Nat.zero_le _
    | exact piece_oneOrTwo_le ..
    | exact piece_slashOrComment_le cs

/-- A piece that is no string without an end is the same in front of a newline. -/
theorem piece_at_append_newline {c : Char} {cs : List Char}
    (h : (Piece.at c cs).1 ≠ .fault .unterminatedString) (rest : List Char) :
    Piece.at c (cs ++ '\n' :: rest) = Piece.at c cs := by
  unfold Piece.at at h ⊢
  split
  case h_20 => exact piece_quoted_append h _
  case h_21 =>
    have hword : continuesWord '\n' = false := by decide
    simp only [Piece.number, Piece.word, numberExtent_append_newline, takeWhile_append_stop hword,
      List.take_append_of_le_length (numberExtent_le cs)]
  all_goals
    first
    | rfl
    | exact piece_oneOrTwo_append_newline ..
    | exact piece_slashOrComment_append_newline ..

/-! ### Texts -/

theorem newlines_append (cs ds : List Char) : newlines (cs ++ ds) = newlines cs + newlines ds :=
  List.count_append

theorem newlines_take_add_drop (c : Char) (cs : List Char) (n : Nat) :
    newlines (c :: cs.take n) + newlines (cs.drop n) = newlines (c :: cs) := by
  rw [← newlines_append, List.cons_append, List.take_append_drop]

/-- The items of a text all of whose strings have an end, up to its own end. In front of a newline
the text has the same items, and what is behind the newline is scanned on the next line. -/
theorem scanFrom_append_newline {line : Nat} {cs : List Char}
    (h : ∀ e ∈ Item.errors (scanFrom line cs), e.fault ≠ .unterminatedString) :
    ∃ items : List Item, (∀ t, .token t ∈ items → Cursor.isEnd t = false) ∧
      scanFrom line cs = items ++ [.token ⟨.endOfFile, line + newlines cs⟩] ∧
      ∀ rest, scanFrom line (cs ++ '\n' :: rest) =
        items ++ scanFrom (line + newlines cs + 1) rest := by
  induction line, cs using scanFrom.induct with
  | case1 line =>
    refine ⟨[], by simp, by rw [scanFrom]; rfl, fun rest ↦ ?_⟩
    rw [List.nil_append, scanFrom_cons]
    rfl
  | case2 line c cs piece extent hpiece last ih =>
    have hlast : last + newlines (cs.drop extent) = line + newlines (c :: cs) := by
      rw [← newlines_take_add_drop c cs extent, ← Nat.add_assoc]
    have hextent : extent ≤ cs.length := by simpa [hpiece] using piece_at_le c cs
    have hscan : scanFrom line (c :: cs) = piece.emit last (scanFrom last (cs.drop extent)) := by
      rw [scanFrom_cons, hpiece]
    have hscan' (hpiece' : piece ≠ .fault .unterminatedString) (rest : List Char) :
        scanFrom line (c :: cs ++ '\n' :: rest) =
          piece.emit last (scanFrom last (cs.drop extent ++ '\n' :: rest)) := by
      rw [List.cons_append, scanFrom_cons, piece_at_append_newline (by rwa [hpiece]), hpiece,
        List.take_append_of_le_length hextent, List.drop_append_of_le_length hextent]
    rw [hscan] at h ⊢
    cases piece with
    | gap =>
      obtain ⟨items, hend, hitems, hrest⟩ := ih h
      refine ⟨items, hend, ?_, fun rest ↦ ?_⟩
      · rw [Piece.emit, hitems, hlast]
      · rw [hscan' (by simp), Piece.emit, hrest, hlast]
    | fault f =>
      obtain ⟨hf, h⟩ := List.forall_mem_cons.1 (show ∀ e ∈ _ :: _, _ from h)
      obtain ⟨items, hend, hitems, hrest⟩ := ih h
      refine ⟨.error ⟨f, last⟩ :: items, by simpa using hend, ?_, fun rest ↦ ?_⟩
      · rw [Piece.emit, hitems, hlast, List.cons_append]
      · rw [hscan' (by simpa using hf), Piece.emit, hrest, hlast, List.cons_append]
    | token k =>
      have hk : Cursor.isEnd ⟨k, last⟩ = false := by
        simpa [Cursor.isEnd] using (takes_of_piece hpiece).ne_endOfFile
      obtain ⟨items, hend, hitems, hrest⟩ := ih h
      refine ⟨.token ⟨k, last⟩ :: items, by simpa [hk] using hend, ?_, fun rest ↦ ?_⟩
      · rw [Piece.emit, hitems, hlast, List.cons_append]
      · rw [hscan' (by simp), Piece.emit, hrest, hlast, List.cons_append]

/-- Items without an error are tokens. -/
theorem Item.map_tokens_of_errors {items : List Item} (h : Item.errors items = []) :
    (Item.tokens items).map token = items := by
  induction items with
  | nil => rfl
  | cons item items ih =>
    cases item with
    | token t => exact congrArg (token t :: ·) (ih h)
    | error e => cases h

/-- The items of a text without lexical errors are tokens, on its own and in front of a newline. -/
theorem exists_tokens_of_scanFrom {line : Nat} {cs : List Char}
    (h : Item.errors (scanFrom line cs) = []) : ∃ ts : List Token,
      (∀ t ∈ ts, Cursor.isEnd t = false) ∧
      scanFrom line cs = (ts ++ [(⟨.endOfFile, line + newlines cs⟩ : Token)]).map .token ∧
      ∀ rest, scanFrom line (cs ++ '\n' :: rest) =
        ts.map .token ++ scanFrom (line + newlines cs + 1) rest := by
  have hstrings : ∀ e ∈ Item.errors (scanFrom line cs), e.fault ≠ .unterminatedString := by
    simp [h]
  obtain ⟨items, hend, hitems, hrest⟩ := scanFrom_append_newline hstrings
  have herrors : Item.errors items = [] := by
    rw [hitems, Item.errors, List.filterMap_append, List.append_eq_nil_iff] at h
    exact h.1
  have htokens := Item.map_tokens_of_errors herrors
  refine ⟨Item.tokens items, fun t ht ↦ hend t ?_, ?_, ?_⟩
  · rw [← htokens]
    exact List.mem_map_of_mem ht
  · rw [hitems, List.map_append, htokens]
    rfl
  · rwa [htokens]

/-- An item on another line. -/
def Item.relabel (ρ : Relabelling) : Item → Item
  | token t => token (t.relabel ρ)
  | error e => error ⟨e.fault, ρ.lines e.line⟩

/-- Ids that start at another first one, and lines that are further down. -/
def Relabelling.shift (firstId down : Nat) : Relabelling := ⟨(· + firstId), (· + down)⟩

/-- A text that is further down has the same items further down. -/
theorem scanFrom_add (line firstId down : Nat) (cs : List Char) :
    scanFrom (line + down) cs = (scanFrom line cs).map (Item.relabel (.shift firstId down)) := by
  induction line, cs using scanFrom.induct with
  | case1 line =>
    rw [scanFrom, scanFrom]
    rfl
  | case2 line c cs piece extent hpiece last ih =>
    have hlast : line + down + newlines (c :: cs.take extent) = last + down :=
      Nat.add_right_comm ..
    rw [scanFrom_cons, scanFrom_cons, hpiece, hlast, ih]
    cases piece <;> rfl

theorem scanFrom_replicate_newline (line n : Nat) (cs : List Char) :
    scanFrom line (List.replicate n '\n' ++ cs) = scanFrom (line + n) cs := by
  induction n generalizing line with
  | zero => rfl
  | succ n ih =>
    rw [List.replicate_succ, List.cons_append, scanFrom_cons]
    exact (ih (line + 1)).trans (by rw [Nat.add_assoc, Nat.add_comm 1])

end LexScript
