import LexScript.Proofs.Scanning.LongestMatch

/-!
# A source and its stretches

Scanning loses nothing of a source. The source is cut into stretches, one behind the other from its
first byte to its last one, each of whole characters. A stretch is a gap, a lexeme or a fault, which
the lexical grammar tells from the text that begins there. All stretches but gaps are items of the
stream, in order, each on the line on which its text ends; behind them there is one more token, the
end, which has no text.

## Main definitions

* `Stretch`, `Stretch.StandsIn` : a part of a source between two positions.
* `Cuts` : stretches one behind the other up to the end.

## Main statements

* `exists_cuts` : the items of a text are the stretches that are no gaps.
* `scan_cuts_source` : scanning cuts a source by longest match.
-/

namespace LexScript

/-- A part of a source between two positions in bytes, and the line on which it ends. -/
structure Stretch where
  piece : Piece
  start : String.Pos.Raw
  stop : String.Pos.Raw
  line : Nat

namespace Stretch

/-- The item of the stream that a stretch is, unless it is a gap. -/
def item? (s : Stretch) : Option Item :=
  match s.piece with
  | .gap => none
  | .token kind => some (.token ⟨kind, s.line⟩)
  | .fault f => some (.error ⟨f, s.line⟩)

/-- A stretch has a text, which stands in a source between two other ones, and which is what its
piece says. -/
structure StandsIn (s : Stretch) (source before text after : String) : Prop where
  source : source = before ++ text ++ after
  start : s.start = before.rawEndPos
  stop : s.stop = (before ++ text).rawEndPos
  line : s.line = 1 + newlines (before ++ text).toList
  covers : s.piece.Covers text.toList after.toList

end Stretch

theorem Piece.Covers.ne_nil {piece : Piece} {text rest : List Char} (h : piece.Covers text rest) :
    text ≠ [] := by
  cases h with
  | token h =>
    obtain ⟨c, ds, rfl⟩ := h.exists_cons
    exact List.cons_ne_nil c ds
  | _ => exact List.cons_ne_nil _ _

namespace Stretch.StandsIn

variable {s : Stretch} {source before text after : String}
  (h : s.StandsIn source before text after)
include h

theorem start_lt_stop : s.start < s.stop := by
  have htext : text.utf8ByteSize ≠ 0 := fun hsize ↦ by
    rw [String.utf8ByteSize_eq_zero_iff.1 hsize] at h
    exact h.covers.ne_nil rfl
  rw [h.start, h.stop, String.Pos.Raw.lt_iff, String.byteIdx_rawEndPos, String.byteIdx_rawEndPos,
    String.utf8ByteSize_append]
  omega

theorem isValid_start : s.start.IsValid source :=
  String.Pos.Raw.isValid_iff_exists_append.2
    ⟨before, text ++ after, h.source.trans String.append_assoc, h.start⟩

theorem isValid_stop : s.stop.IsValid source :=
  String.Pos.Raw.isValid_iff_exists_append.2 ⟨before ++ text, after, h.source, h.stop⟩

theorem ne_endOfFile : s.piece ≠ .token .endOfFile := by
  intro hpiece
  have hcovers := h.covers
  rw [hpiece] at hcovers
  cases hcovers with
  | token hlexeme => exact hlexeme.1 rfl

end Stretch.StandsIn

/-! ### Stretches one behind the other -/

/-- Stretches follow one another in a source from the end of `before` to its own end. -/
inductive Cuts (source : String) : String → List Stretch → Prop where
  | done : Cuts source source []
  | stretch {s : Stretch} {stretches : List Stretch} {before text after : String}
      (h : s.StandsIn source before text after) (hlater : Cuts source (before ++ text) stretches) :
      Cuts source before (s :: stretches)

namespace Cuts

variable {source before : String} {stretches : List Stretch}

theorem exists_standsIn (h : Cuts source before stretches) :
    ∀ s ∈ stretches, ∃ before text after, s.StandsIn source before text after := by
  induction h with
  | done => exact List.forall_mem_nil _
  | stretch h _ ih => exact List.forall_mem_cons.2 ⟨⟨_, _, _, h⟩, ih⟩

/-- Each stretch begins where the one in front of it ends. -/
theorem contiguous (h : Cuts source before stretches) :
    stretches.map Stretch.start ++ [source.rawEndPos] =
      before.rawEndPos :: stretches.map Stretch.stop := by
  induction h with
  | done => rfl
  | stretch h _ ih => rw [List.map_cons, List.cons_append, ih, h.start, List.map_cons, h.stop]

theorem le_start (h : Cuts source before stretches) :
    ∀ s ∈ stretches, before.rawEndPos ≤ s.start := by
  induction h with
  | done => exact List.forall_mem_nil _
  | stretch h _ ih =>
    refine List.forall_mem_cons.2 ⟨h.start ▸ String.Pos.Raw.le_refl, fun s hs ↦ ?_⟩
    have hlt := h.start_lt_stop
    have hle := ih s hs
    rw [h.start, h.stop] at hlt
    exact String.Pos.Raw.le_trans (String.Pos.Raw.le_of_lt hlt) hle

/-- No two stretches share a byte. -/
theorem pairwise (h : Cuts source before stretches) :
    stretches.Pairwise fun s s' ↦ s.stop ≤ s'.start := by
  induction h with
  | done => exact .nil
  | stretch h hlater ih =>
    exact List.pairwise_cons.2 ⟨fun s hs ↦ h.stop ▸ hlater.le_start s hs, ih⟩

end Cuts

/-! ### Scanning -/

theorem emit_eq (s : Stretch) (later : List Item) :
    s.piece.emit s.line later = s.item?.toList ++ later := by
  rw [Stretch.item?]
  cases s.piece <;> rfl

/-- The items of a text, behind another text, are the stretches that are no gaps. -/
theorem exists_cuts (line : Nat) (cs : List Char) (before : String)
    (hline : line = 1 + newlines before.toList) : ∃ stretches,
      Cuts (before ++ String.ofList cs) before stretches ∧
      scanFrom line cs =
        stretches.filterMap Stretch.item? ++ [.token ⟨.endOfFile, line + newlines cs⟩] := by
  induction line, cs using scanFrom.induct generalizing before with
  | case1 line =>
    refine ⟨[], ?_, by rw [scanFrom]; rfl⟩
    rw [String.ofList_nil, String.append_empty]
    exact .done
  | case2 line c cs piece extent hpiece last ih =>
    let text := String.ofList (c :: cs.take extent)
    have htext : text.toList = c :: cs.take extent := String.toList_ofList
    have hlast : last = 1 + newlines (before ++ text).toList := by
      rw [String.toList_append, newlines_append, htext, ← Nat.add_assoc, ← hline]
    have hsource : before ++ String.ofList (c :: cs) =
        before ++ text ++ String.ofList (cs.drop extent) := by
      rw [String.append_assoc, ← String.ofList_append, List.cons_append, List.take_append_drop]
    obtain ⟨stretches, hcuts, hscan⟩ := ih (before ++ text) hlast
    let s : Stretch := ⟨piece, before.rawEndPos, (before ++ text).rawEndPos, last⟩
    have hstands : s.StandsIn (before ++ String.ofList (c :: cs)) before text
        (String.ofList (cs.drop extent)) := by
      refine ⟨hsource, rfl, rfl, hlast, ?_⟩
      rw [htext, String.toList_ofList]
      exact covers_of_piece hpiece
    refine ⟨s :: stretches, .stretch hstands (hsource ▸ hcuts), ?_⟩
    have hend : last + newlines (cs.drop extent) = line + newlines (c :: cs) := by
      rw [← newlines_take_add_drop c cs extent, ← Nat.add_assoc]
    rw [scanFrom_cons, hpiece]
    dsimp only
    rw [hscan, hend]
    refine (emit_eq s _).trans ?_
    rw [← List.append_assoc, List.filterMap_cons]
    cases s.item? <;> rfl

/-- Scanning cuts a source into stretches by longest match. They follow one another from the start
of the source to its end, begin and end between characters and are not empty. The items of the
stream are the stretches that are no gaps, in order, and one token of the end behind them, which has
no text. Each stretch is what the lexical grammar says of the text that begins there: blanks,
newlines and comments are gaps; a lexeme has the longest text that begins there, and the kind of
this text; a fault is a character with which nothing begins, or a quote up to the end if no other
one follows. -/
theorem scan_cuts_source (source : String) : ∃ stretches : List Stretch,
    scan source = stretches.filterMap Stretch.item? ++
      [.token ⟨.endOfFile, 1 + newlines source.toList⟩] ∧
    TokenKind.endOfFile.lexeme = "" ∧ (∀ s ∈ stretches, s.piece ≠ .token .endOfFile) ∧
    stretches.map Stretch.start ++ [source.rawEndPos] = 0 :: stretches.map Stretch.stop ∧
    (stretches.Pairwise fun s s' ↦ s.stop ≤ s'.start) ∧
    ∀ s ∈ stretches, s.start < s.stop ∧ s.start.IsValid source ∧ s.stop.IsValid source ∧
      ∃ before text after, s.StandsIn source before text after := by
  obtain ⟨stretches, hcuts, hscan⟩ := exists_cuts 1 source.toList "" rfl
  rw [String.empty_append, String.ofList_toList] at hcuts
  rw [← scan_eq] at hscan
  refine ⟨stretches, hscan, rfl, fun s hs ↦ ?_, hcuts.contiguous, hcuts.pairwise, fun s hs ↦ ?_⟩
  · obtain ⟨before, text, after, hstands⟩ := hcuts.exists_standsIn s hs
    exact hstands.ne_endOfFile
  · obtain ⟨before, text, after, hstands⟩ := hcuts.exists_standsIn s hs
    exact ⟨hstands.start_lt_stop, hstands.isValid_start, hstands.isValid_stop, before, text, after,
      hstands⟩

end LexScript
