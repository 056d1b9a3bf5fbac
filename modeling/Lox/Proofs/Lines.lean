import Mathlib
import Lox.Proofs.Bytewise

/-! The lines of items. Every item is on the line on which its stretch of the text ends, so lines
never go back, whatever newlines there are in strings, in comments and between tokens. Nothing but
a string reaches across a newline, so a text falls apart into what stands before one and after it. -/

namespace Lox.Source

variable {source : String}

/-- The line a position is on: the first one, or as many further down as newlines come before it. -/
def lineAt (place : source.Pos) : Nat := 1 + newlines (source.sliceTo place).copy.toList

theorem lineAt_endPos (source : String) : lineAt source.endPos = 1 + newlines source.toList := by
  rw [lineAt, source.splits_endPos.copy_sliceTo_eq]

theorem lineAt_le {first last : source.Pos} (ordered : first ≤ last) :
    lineAt first ≤ lineAt last := by
  obtain ⟨before, after, split, later⟩ := String.copy_slice_eq_iff_splits.mp ⟨ordered, rfl⟩
  rw [lineAt, lineAt, split.copy_sliceTo_eq, later.copy_sliceTo_eq, String.toList_append,
    newlines_append]
  omega

/-- What owns the rest of the text ends where the text does. -/
theorem last_eq_endPos {span : Span source} {item : Item} (owns : item.Owns span)
    (ends : (∃ line, item = .complaint line .unterminated) ∨ ∃ line, item = .token (.eof line)) :
    span.last = source.endPos := by
  rcases ends with ⟨line, rfl⟩ | ⟨line, rfl⟩
  · exact owns.2
  · have first : span.first = source.endPos := owns.2.2 rfl
    exact Std.le_antisymm span.last.le_endPos (first ▸ span.ordered)

theorem pairwise_lines {spans : List (Span source)} {items : List Item}
    (lined : List.Forall₂ (fun span item => item.line = lineAt span.last) spans items)
    (apart : spans.Pairwise fun former later => former.last ≤ later.first) :
    items.Pairwise fun former later => former.line ≤ later.line := by
  have same : spans.map (fun span => lineAt span.last) = items.map Item.line := by
    rw [← List.forall₂_eq_eq_eq, List.forall₂_map_left_iff, List.forall₂_map_right_iff]
    exact lined.imp fun _ _ same => same.symm
  have below : (spans.map fun span => lineAt span.last).Pairwise (· ≤ ·) := by
    refine apart.map _ fun former later before => ?_
    exact lineAt_le (Std.le_trans before later.ordered)
  rw [same] at below
  exact List.pairwise_map.mp below

theorem scan_lined (source : String) :
    ∃ items last spans, scan source = items ++ [.token (.eof last)] ∧
      Accounted source.startPos items last spans ∧
      List.Forall₂ (fun span item => item.line = lineAt span.last) spans
        (items ++ [.token (.eof last)]) := by
  obtain ⟨items, last, spans, given, accounted, _, lined⟩ := traced source
  exact ⟨items, last, spans, given, accounted, lined⟩

theorem scan_sorted (source : String) :
    (scan source).Pairwise fun former later => former.line ≤ later.line := by
  obtain ⟨items, last, spans, given, accounted, lined⟩ := scan_lined source
  rw [given]
  exact pairwise_lines lined accounted.apart.pairwise

/-- The line of an item is one more than there are newlines up to where it ends: for a token the end
of its lexeme, for a stray character that character, and for an unclosed string and the end the
whole text. So it is also for the scanner of bytes, which only counts newlines as blanks and within
strings. -/
theorem scan_lines (source : String) :
    ∃ items last spans, scan source = items ++ [.token (.eof last)] ∧
      (∀ count, (Scanner.fresh source).calls count =
        some ((items ++ [.token (.eof last)])[count]?)) ∧
      Accounted source.startPos items last spans ∧
      List.Forall₂ (fun span item => item.line = lineAt span.last) spans
        (items ++ [.token (.eof last)]) ∧
      last = 1 + newlines source.toList ∧
      (∀ line, .complaint line .unterminated ∈ items → line = 1 + newlines source.toList) ∧
      (scan source).Pairwise fun former later => former.line ≤ later.line := by
  obtain ⟨items, last, spans, given, accounted, lined⟩ := scan_lined source
  -- What ends where the text ends is on its last line.
  have closing : ∀ item ∈ items ++ [.token (.eof last)],
      ((∃ line, item = .complaint line .unterminated) ∨ ∃ line, item = .token (.eof line)) →
        item.line = 1 + newlines source.toList := by
    intro item member ends
    obtain ⟨index, inside, rfl⟩ := List.mem_iff_getElem.mp member
    have among : index < spans.length := lined.length_eq.symm ▸ inside
    have owns := accounted.owns.get among inside
    rw [← lineAt_endPos, ← last_eq_endPos owns ends]
    exact lined.get among inside
  refine ⟨items, last, spans, given, ?_, accounted, lined, ?_, ?_, scan_sorted source⟩
  · intro count
    rw [Scanner.calls_eq, Cursor.calls_eq, ← given]
    rfl
  · exact closing (.token (.eof last)) (by simp) (.inr ⟨last, rfl⟩)
  · intro line member
    exact closing _ (List.mem_append_left _ member) (.inl ⟨line, rfl⟩)

/-- A string is on the line of its closing quote. -/
example : (scan "\"a\nb\" // c\n;").map Item.line = [2, 3, 3] := by cbv

/-! ### Texts on lines of their own -/

/-- No item reaches across a newline. Whatever the first text complains of, unless it ends within a
string, and whatever the second one does, the items of both are those of the one and then those of the
other, so many lines further down as the second text is. -/
theorem scan_newline {a : String} (never : ∀ line, .complaint line .unterminated ∉ scan a)
    (b : String) :
    ∃ before : List Item, (∀ item ∈ before, item.Within) ∧
      scan a = before ++ [.token (.eof (1 + newlines a.toList))] ∧
      scan (a ++ "\n" ++ b) = before ++ (scan b).map (Item.lower (1 + newlines a.toList)) := by
  obtain ⟨before, within, given, both⟩ := scan_before never b
  refine ⟨before, within, given, ?_⟩
  rw [both, scan_lowered]

/-- A comment, half an operator and a stray character end with their line, and a string that is not
closed on the third one is complained of there. -/
theorem scan_newline_of_stray :
    (∀ line, .complaint line .unterminated ∉ scan "x\né!//") ∧
      scan ("x\né!//" ++ "\n" ++ "=\"") =
        [.token ⟨.identifier, "x", 1⟩, .complaint 2 (.unexpected 'é'),
          .token ⟨.symbol .bang, "!", 2⟩, .token ⟨.symbol .equal, "=", 3⟩,
          .complaint 3 .unterminated, .token (.eof 3)] := by
  have first : scan "x\né!//" = [.token ⟨.identifier, "x", 1⟩, .complaint 2 (.unexpected 'é'),
      .token ⟨.symbol .bang, "!", 2⟩] ++ [.token (.eof 2)] := by cbv
  have second : scan "=\"" = [.token ⟨.symbol .equal, "=", 1⟩, .complaint 1 .unterminated,
      .token (.eof 1)] := by cbv
  have never (line : Nat) : .complaint line .unterminated ∉ scan "x\né!//" := by
    rw [first]
    simp
  refine ⟨never, ?_⟩
  obtain ⟨before, _, given, both⟩ := scan_newline never "=\""
  have same := (List.append_inj' (first.symm.trans given) rfl).1
  rw [both, second, ← same]
  rfl

end Lox.Source
