import LexScript.Proofs.Grammar.Soundness
import LexScript.Session

/-!
# The parser accepts the grammar

The parser reports no error exactly on the programs of the grammar, and what it returns then is
the program of the derivation in which every `else` belongs to the nearest conditional. Parsing
being a function, there is only one such derivation as far as its program and its ids go.

## Main statements

* `parse_accepts_grammar` : parsing without an error and deriving a program are the same.
* `Grammar.Derives.unique` : tokens have at most one program, given the first id.
* `readSource_of_derives`, `derives_of_readSource` : the same for sources.
-/

namespace LexScript

open Grammar

/-- What is parsed of a program is derived, and no error is reported. -/
theorem Grammar.Derivable.derives {tokens : List Token}
    (h : Derivable (tokens.takeWhile (!Cursor.isEnd ·))) (firstId : Nat) :
    Derives .nearest .declarations (tokens.takeWhile (!Cursor.isEnd ·)) firstId
      (.stmts (parse firstId tokens).statements) (parse firstId tokens).nextId ∧
    (parse firstId tokens).errors = [] := by
  obtain ⟨_, _, _, h⟩ := h
  obtain ⟨program, m, h⟩ := h.nearest firstId
  rw [parse_eq_of_derives h]
  exact ⟨h, rfl⟩

/-- Tokens are parsed without an error if and only if they form a program up to their end,
whichever conditional an `else` belongs to; and they are parsed to a program, without an error,
if and only if that program has a derivation in which every `else` belongs to the nearest
conditional that lacks one. -/
theorem parse_accepts_grammar (firstId : Nat) (tokens : List Token) :
    ((parse firstId tokens).errors = [] ↔ Derivable (tokens.takeWhile (!Cursor.isEnd ·))) ∧
    ∀ program nextId, parse firstId tokens = ⟨program, [], nextId⟩ ↔
      Derives .nearest .declarations (tokens.takeWhile (!Cursor.isEnd ·)) firstId
        (.stmts program) nextId := by
  refine ⟨⟨derivable_of_parse, fun h ↦ (h.derives firstId).2⟩, fun program nextId ↦
    ⟨fun h ↦ ?_, parse_eq_of_derives⟩⟩
  have := ((derivable_of_parse (by rw [h])).derives firstId).1
  rwa [h] at this

/-! ### Reading sources -/

/-- What is derived is read from its tokens and the end behind them. -/
theorem parse_append_endOfFile {n m : Nat} {ts : List Token} {program : List Stmt}
    (h : Derives .nearest .declarations ts n (.stmts program) m) (line : Nat) :
    parse n (ts ++ [⟨.endOfFile, line⟩]) = ⟨program, [], m⟩ := by
  refine parse_eq_of_derives ?_
  have hts : ∀ t ∈ ts, (!Cursor.isEnd t) = true := by simpa using h.not_isEnd
  rwa [List.takeWhile_append_of_pos hts, List.takeWhile_cons_of_neg (by simp [Cursor.isEnd]),
    List.append_nil]

/-- A source is read as the program that its tokens are derived to. -/
theorem readSource_of_derives {n m line : Nat} {source : String} {ts : List Token}
    {program : List Stmt}
    (hscan : scan source = (ts ++ [(⟨.endOfFile, line⟩ : Token)]).map .token)
    (h : Derives .nearest .declarations ts n (.stmts program) m) :
    readSource n source = ⟨[], program, m⟩ := by
  simp only [readSource, hscan, Item.tokens_map_token, Item.errors_map_token,
    parse_append_endOfFile h line, List.map_nil, List.append_nil]

/-- What is read without an error has a derivation. -/
theorem derives_of_readSource {firstId : Nat} {source : String}
    (h : (readSource firstId source).errors = []) :
    Derives .nearest .declarations ((Item.tokens (scan source)).takeWhile (!Cursor.isEnd ·)) firstId
      (.stmts (readSource firstId source).program) (readSource firstId source).nextId := by
  simp only [readSource, List.append_eq_nil_iff, List.map_eq_nil_iff] at h
  exact ((derivable_of_parse h.2).derives firstId).1

/-- Whether a source is read without an error does not depend on the first id. -/
theorem errors_readSource {n : Nat} {source : String} (h : (readSource n source).errors = [])
    (firstId : Nat) : (readSource firstId source).errors = [] := by
  simp only [readSource, List.append_eq_nil_iff, List.map_eq_nil_iff] at h ⊢
  exact ⟨h.1, ((derivable_of_parse h.2).derives firstId).2⟩

/-- Tokens have at most one program, given the first id. -/
theorem Grammar.Derives.unique {n m k : Nat} {ts : List Token} {program program' : List Stmt}
    (h : Derives .nearest .declarations ts n (.stmts program) m)
    (h' : Derives .nearest .declarations ts n (.stmts program') k) :
    program = program' ∧ m = k := by
  have hparse := parse_append_endOfFile h 0
  rw [parse_append_endOfFile h' 0] at hparse
  injection hparse with hprogram _ hnext
  exact ⟨hprogram.symm, hnext.symm⟩

end LexScript
