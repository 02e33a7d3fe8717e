import LexScript.Proofs.Sessions.Scanning

/-!
# Reading two sources on lines of their own

A source is read behind another one as the same program, with ids that go on from those of the
other source and on lines that are further down.

## Main definitions

* `behindLines` : a source behind blank lines.

## Main statements

* `readSource_behindLines` : reading a source further down.
* `readSource_append` : reading two sources with a newline between them.
-/

namespace LexScript

open Grammar

/-- A source behind a number of blank lines. -/
def behindLines (n : Nat) (source : String) : String :=
  String.ofList (List.replicate n '\n') ++ source

/-- The number of lines that a source takes when another one follows on a line of its own. -/
def linesOf (source : String) : Nat := newlines source.toList + 1

/-- What is scanned and derived of a source that is read without an error, alone and in front of
a newline. -/
theorem exists_tokens_of_readSource {n m : Nat} {source : String} {program : List Stmt}
    (h : readSource n source = ⟨[], program, m⟩) : ∃ ts : List Token,
      Derives .nearest .declarations ts n (.stmts program) m ∧
      (∃ line, scan source = (ts ++ [(⟨.endOfFile, line⟩ : Token)]).map .token) ∧
      ∀ later, scan (source ++ "\n" ++ later) =
        ts.map .token ++ scanFrom (1 + linesOf source) later.toList := by
  have hread : (readSource n source).errors = [] := by rw [h]
  have hscan : Item.errors (scan source) = [] := by
    simp only [readSource, List.append_eq_nil_iff, List.map_eq_nil_iff] at hread
    exact hread.1
  obtain ⟨ts, hend, htokens, hlater⟩ := exists_tokens_of_scanFrom (scan_eq source ▸ hscan)
  have hderives := derives_of_readSource hread
  have htakeWhile : (Item.tokens (scan source)).takeWhile (!Cursor.isEnd ·) = ts := by
    rw [scan_eq, htokens, Item.tokens_map_token,
      List.takeWhile_append_of_pos (by simpa using hend),
      List.takeWhile_cons_of_neg (by simp [Cursor.isEnd]), List.append_nil]
  rw [htakeWhile, h] at hderives
  refine ⟨ts, hderives, ⟨_, (scan_eq source).trans htokens⟩, fun later ↦ ?_⟩
  have := hlater later.toList
  simpa [scan_eq, linesOf, Nat.add_assoc] using this

theorem scan_behindLines (n : Nat) (source : String) :
    scan (behindLines n source) = scanFrom (1 + n) source.toList := by
  rw [scan_eq, behindLines, String.toList_append, String.toList_ofList, scanFrom_replicate_newline]

/-- A source is read behind blank lines as the same program, with other ids and further down. -/
theorem readSource_behindLines {m : Nat} {source : String} {program : List Stmt}
    (h : readSource 0 source = ⟨[], program, m⟩) (firstId down : Nat) :
    readSource firstId (behindLines down source) =
      ⟨[], relabelProgram (.shift firstId down) program, m + firstId⟩ := by
  obtain ⟨ts, hderives, ⟨line, hscan⟩, -⟩ := exists_tokens_of_readSource h
  have hscan' : scan (behindLines down source) =
      (ts.map (Token.relabel (.shift firstId down)) ++
        [(⟨.endOfFile, line + down⟩ : Token)]).map .token := by
    rw [scan_behindLines, scanFrom_add 1 firstId down]
    rw [scan_eq] at hscan
    simp only [hscan, List.map_append, List.map_map]
    rfl
  have hderives' := hderives.relabel (ρ := .shift firstId down) (d := firstId) fun _ _ _ ↦ rfl
  rw [Nat.zero_add] at hderives'
  exact readSource_of_derives hscan' hderives'

/-- Two sources with a newline between them are read one behind the other. -/
theorem readSource_append {n m k : Nat} {source later : String} {program program' : List Stmt}
    (h : readSource n source = ⟨[], program, m⟩)
    (h' : readSource m (behindLines (linesOf source) later) = ⟨[], program', k⟩) :
    readSource n (source ++ "\n" ++ later) = ⟨[], program ++ program', k⟩ := by
  obtain ⟨ts, hderives, -, hlater⟩ := exists_tokens_of_readSource h
  obtain ⟨us, hderives', ⟨line, hscan⟩, -⟩ := exists_tokens_of_readSource h'
  have hscan' : scan (source ++ "\n" ++ later) =
      (ts ++ us ++ [(⟨.endOfFile, line⟩ : Token)]).map .token := by
    rw [hlater, ← scan_behindLines, hscan, List.append_assoc, ← List.map_append]
  exact readSource_of_derives hscan' (hderives.append hderives')

end LexScript
