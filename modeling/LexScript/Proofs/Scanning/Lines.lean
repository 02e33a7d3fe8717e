import Mathlib.Data.List.Count
import LexScript.Proofs.Scanning.Stretches

/-!
# The lines of a source

The line of an item can be read off the bytes of the source: it is one more than the number of
newlines in front of some position. For a token this is the end of its lexeme, so a string over
several lines is on the line of its closing quote; for a character with which nothing begins it is
the place of the character; for a string without an end, as for the end itself, it is the end of the
source. A piece of a text only adds newlines, so the lines of the stream never go back.

A newline is a byte of its own in the encoding of a text, and no other character has this byte. This
is why newlines may be counted in bytes or in characters.

## Main definitions

* `newlinesBefore` : the newline bytes of a source in front of a position.
* `Item.line` : the line of an item.

## Main statements

* `newlinesBefore_eq` : newlines in bytes are newlines in characters.
* `pairwise_line_scanFrom` : lines do not go back.
* `scan_counts_newlines` : the lines of the items of a source.
-/

namespace LexScript

/-! ### Newlines in bytes -/

/-- The number of newline bytes of a source in front of a position. -/
def newlinesBefore (source : String) (p : String.Pos.Raw) : Nat :=
  (source.toByteArray.data.toList.take p.byteIdx).count 10

/-- A source has as many newline bytes as newlines. -/
theorem count_toByteArray (source : String) :
    source.toByteArray.data.toList.count 10 = newlines source.toList := by
  have hinjective : Function.Injective Char.ofUInt8 :=
    fun b c h ↦ UInt8.toUInt32_inj.1 (congrArg Char.val h)
  have hbytes := map_toByteArray_ofList source.toList
  rw [String.ofList_toList] at hbytes
  rw [← List.count_map_of_injective _ _ hinjective, hbytes]
  exact count_encode source.toList

/-- The newlines in front of a part of a source, counted in characters. -/
theorem newlinesBefore_eq (before after : String) :
    newlinesBefore (before ++ after) before.rawEndPos = newlines before.toList := by
  have hsize : before.toByteArray.data.toList.length = before.utf8ByteSize := rfl
  rw [newlinesBefore, String.toByteArray_append, ByteArray.data_append, Array.toList_append,
    String.byteIdx_rawEndPos, List.take_left' hsize, count_toByteArray]

theorem newlinesBefore_rawEndPos (source : String) :
    newlinesBefore source source.rawEndPos = newlines source.toList := by
  have hwhole := newlinesBefore_eq source ""
  rwa [String.append_empty] at hwhole

/-! ### Lines do not go back -/

/-- The line of an item. -/
def Item.line : Item → Nat
  | token t => t.line
  | error e => e.line

/-- No item of a text is in front of its first line. -/
theorem le_line_of_mem_scanFrom {line : Nat} {cs : List Char} :
    ∀ item ∈ scanFrom line cs, line ≤ item.line := by
  induction line, cs using scanFrom.induct with
  | case1 line =>
    rw [scanFrom]
    exact List.forall_mem_singleton.2 (Nat.le_refl line)
  | case2 line c cs piece extent hpiece last ih =>
    have hlast : line ≤ last := Nat.le_add_right line _
    have hlater : ∀ item ∈ scanFrom last (cs.drop extent), line ≤ item.line :=
      fun item hitem ↦ Nat.le_trans hlast (ih item hitem)
    rw [scanFrom_cons, hpiece]
    cases piece with
    | gap => exact hlater
    | token kind => exact List.forall_mem_cons.2 ⟨hlast, hlater⟩
    | fault f => exact List.forall_mem_cons.2 ⟨hlast, hlater⟩

/-- The items of a text are on lines that do not go back. -/
theorem pairwise_line_scanFrom (line : Nat) (cs : List Char) :
    (scanFrom line cs).Pairwise fun item later ↦ item.line ≤ later.line := by
  induction line, cs using scanFrom.induct with
  | case1 line =>
    rw [scanFrom]
    exact List.pairwise_singleton _ _
  | case2 line c cs piece extent hpiece last ih =>
    rw [scanFrom_cons, hpiece]
    cases piece with
    | gap => exact ih
    | token kind => exact List.pairwise_cons.2 ⟨le_line_of_mem_scanFrom, ih⟩
    | fault f => exact List.pairwise_cons.2 ⟨le_line_of_mem_scanFrom, ih⟩

/-! ### Lines and positions -/

namespace Stretch.StandsIn

variable {s : Stretch} {source before text after : String}
  (h : s.StandsIn source before text after)
include h

/-- The newlines of a stretch may be counted up to any position behind the last one. -/
theorem line_eq_of_append {head tail : String} (htext : text = head ++ tail)
    (htail : newlines tail.toList = 0) :
    s.line = 1 + newlinesBefore source (before ++ head).rawEndPos := by
  have hsource : source = before ++ head ++ (tail ++ after) := by
    rw [h.source, htext]
    simp only [String.append_assoc]
  rw [h.line, hsource, newlinesBefore_eq, htext, ← String.append_assoc, String.toList_append,
    newlines_append, htail, Nat.add_zero]

/-- A stretch is on the line on which it ends. -/
theorem line_eq_stop : s.line = 1 + newlinesBefore source s.stop := by
  rw [h.stop]
  exact h.line_eq_of_append (String.append_empty (s := text)).symm rfl

/-- A string is on the line of its closing quote, however many lines are in it. -/
theorem line_eq_closingQuote {contents : String} (hpiece : s.piece = .token (.string contents)) :
    s.line = 1 + newlinesBefore source ⟨s.stop.byteIdx - 1⟩ := by
  have hcovers := h.covers
  rw [hpiece] at hcovers
  cases hcovers with
  | token hlexeme =>
    have htext : text = "\"" ++ contents ++ "\"" := (String.toList_inj.1 hlexeme.2.2).symm
    have hquote : (⟨s.stop.byteIdx - 1⟩ : String.Pos.Raw) =
        (before ++ ("\"" ++ contents)).rawEndPos := by
      have hsize : "\"".utf8ByteSize = 1 := rfl
      rw [h.stop, htext, String.Pos.Raw.ext_iff]
      simp only [String.byteIdx_rawEndPos, String.utf8ByteSize_append]
      omega
    rw [hquote]
    exact h.line_eq_of_append htext rfl

/-- A character with which nothing begins is on the line on which it stands. -/
theorem line_eq_start {c : Char} (hpiece : s.piece = .fault (.unexpectedCharacter c)) :
    s.line = 1 + newlinesBefore source s.start := by
  have hcovers := h.covers
  rw [hpiece] at hcovers
  generalize htext : text.toList = cs at hcovers
  cases hcovers with
  | unexpected _ _ hgap =>
    have hnewline : newlines text.toList = 0 := by
      rw [htext]
      refine List.count_eq_zero.2 fun hmem ↦ ?_
      obtain rfl := List.mem_singleton.1 hmem
      exact hgap ['\n'] (by simp) (.blank (by simp))
    rw [h.start, ← String.append_empty (s := before)]
    exact h.line_eq_of_append String.empty_append.symm hnewline

/-- A string without an end goes up to the end of the source. -/
theorem line_eq_end (hpiece : s.piece = .fault .unterminatedString) :
    s.line = 1 + newlinesBefore source source.rawEndPos := by
  have hcovers := h.covers
  rw [hpiece] at hcovers
  have hafter : after = "" := by
    generalize text.toList = cs at hcovers
    generalize hrest : after.toList = rest at hcovers
    cases hcovers with
    | unterminated => exact String.toList_inj.1 hrest
  have hstop : s.stop = source.rawEndPos := by
    rw [h.stop, h.source, hafter, String.append_empty]
  rw [← hstop]
  exact h.line_eq_stop

end Stretch.StandsIn

/-- The lines of a source are exact. The source is cut into stretches, one behind the other; the
items of the stream are those that are no gaps, and the end. One more than the number of newline
bytes of the source in front of some position is the line of an item: for a token, in front of the
end of its lexeme, and for a string in front of its closing quote; for a character with which
nothing begins, in front of it; for a string without an end and for the end of the stream, in front
of the end of the source. No item is on a line in front of that of an earlier one. -/
theorem scan_counts_newlines (source : String) : ∃ stretches : List Stretch,
    scan source = stretches.filterMap Stretch.item? ++
      [.token ⟨.endOfFile, 1 + newlinesBefore source source.rawEndPos⟩] ∧
    stretches.map Stretch.start ++ [source.rawEndPos] = 0 :: stretches.map Stretch.stop ∧
    (∀ s ∈ stretches,
      (∃ before text after, s.StandsIn source before text after) ∧
      (∀ kind, s.piece = .token kind → s.line = 1 + newlinesBefore source s.stop) ∧
      (∀ contents, s.piece = .token (.string contents) →
        s.line = 1 + newlinesBefore source ⟨s.stop.byteIdx - 1⟩) ∧
      (∀ c, s.piece = .fault (.unexpectedCharacter c) →
        s.line = 1 + newlinesBefore source s.start) ∧
      (s.piece = .fault .unterminatedString →
        s.line = 1 + newlinesBefore source source.rawEndPos)) ∧
    (scan source).Pairwise fun item later ↦ item.line ≤ later.line := by
  obtain ⟨stretches, hcuts, hscan⟩ := exists_cuts 1 source.toList "" rfl
  rw [String.empty_append, String.ofList_toList] at hcuts
  rw [← newlinesBefore_rawEndPos, ← scan_eq] at hscan
  refine ⟨stretches, hscan, hcuts.contiguous, fun s hs ↦ ?_,
    scan_eq source ▸ pairwise_line_scanFrom 1 source.toList⟩
  obtain ⟨before, text, after, h⟩ := hcuts.exists_standsIn s hs
  exact ⟨⟨before, text, after, h⟩, fun _ _ ↦ h.line_eq_stop, fun _ ↦ h.line_eq_closingQuote,
    fun _ ↦ h.line_eq_start, h.line_eq_end⟩

end LexScript
