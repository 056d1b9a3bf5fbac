import Mathlib.Data.List.Forall2
import Lox.Proofs.Scanned

/-! Where items stand in their text. Every item has a stretch of the text to itself, the stretches
follow one another, and what they leave out is blanks and comments. -/

namespace Lox.Source

variable {source : String}

/-- A stretch of a text, between two positions at which characters meet. -/
structure Span (source : String) where
  first : source.Pos
  last : source.Pos
  ordered : first ≤ last

def Span.text (span : Span source) : String :=
  (source.slice span.first span.last span.ordered).copy

/-- A blank, or a comment that ends where its line or the text does. -/
def Span.Idle (span : Span source) : Prop :=
  span.text ∈ [" ", "\t", "\r", "\n"] ∨
    (∃ inside : String, span.text = "//" ++ inside ∧ '\n' ∉ inside.toList) ∧
      ∀ more : span.last ≠ source.endPos, span.last.get more = '\n'

/-- From one position to another there is nothing but blanks and comments. -/
inductive Skips : source.Pos → source.Pos → Prop
  | none {place : source.Pos} : Skips place place
  | more {span : Span source} {place : source.Pos} :
    span.Idle → Skips span.last place → Skips span.first place

/-- The spans follow one another from a position to the end of the text, and nothing but blanks
and comments is outside them. -/
def Apart : source.Pos → List (Span source) → Prop
  | start, [] => Skips start source.endPos
  | start, span :: spans => Skips start span.first ∧ Apart span.last spans

/-- What an item says about the stretch it stands for. -/
def Item.Owns (span : Span source) : Item → Prop
  | .token word =>
    span.text = word.lexeme ∧ (word.kind ≠ .eof → span.first < span.last) ∧
      (word.kind = .eof → span.first = source.endPos)
  | .complaint _ (.unexpected c) => span.text = String.singleton c
  | .complaint _ .unterminated =>
    (∃ inside : String, span.text = "\"" ++ inside) ∧ span.last = source.endPos
  | .complaint _ (.other _) => False

theorem Skips.le {first last : source.Pos} (skips : Skips first last) : first ≤ last := by
  induction skips with
  | none => exact Std.le_refl _
  | @more span place idle skips ih => exact Std.le_trans span.ordered ih

theorem Apart.le {start : source.Pos} {spans : List (Span source)} (apart : Apart start spans) :
    ∀ span ∈ spans, start ≤ span.first := by
  induction spans generalizing start with
  | nil => nofun
  | cons span spans ih =>
    intro found member
    rcases List.mem_cons.mp member with rfl | later
    · exact apart.1.le
    · exact Std.le_trans apart.1.le (Std.le_trans span.ordered (ih apart.2 found later))

theorem Apart.pairwise {start : source.Pos} {spans : List (Span source)}
    (apart : Apart start spans) : spans.Pairwise fun former later => former.last ≤ later.first := by
  induction spans generalizing start with
  | nil => exact .nil
  | cons span spans ih => exact .cons apart.2.le (ih apart.2)

theorem Apart.skip {span : Span source} (idle : span.Idle) {spans : List (Span source)}
    (apart : Apart span.last spans) : Apart span.first spans := by
  cases spans with
  | nil => exact .more idle apart
  | cons next spans => exact ⟨.more idle apart.1, apart.2⟩

/-! ### One piece -/

/-- How a piece ends, seen from what is left after it. -/
def Piece.Ends (left : List Char) : Piece → Prop
  | .blank text =>
    (∃ c, isBlank c ∧ text = [c]) ∨
      (∃ inside, text = '/' :: '/' :: inside ∧ '\n' ∉ inside) ∧
        ∀ c rest, left = c :: rest → c = '\n'
  | .unclosed text => (∃ inside, text = '"' :: inside) ∧ left = []
  | .token .. | .stray _ => True

theorem first_dropWhile {p : Char → Bool} {text : List Char} {c : Char} {rest : List Char}
    (left : text.dropWhile p = c :: rest) : p c = false := by
  have kept := List.head?_dropWhile_not p text
  rw [left] at kept
  simpa using kept

theorem cutComment_ends (rest : List Char) :
    (cutComment ('/' :: '/' :: rest)).1.Ends (cutComment ('/' :: '/' :: rest)).2 := by
  refine .inr ⟨⟨rest.takeWhile (· != '\n'), rfl, ?_⟩, ?_⟩
  · intro found
    have others := List.all_eq_true.mp (List.all_takeWhile (p := (· != '\n')) (l := rest))
    simpa using others _ found
  · intro c left same
    have newline := first_dropWhile same
    simpa using newline

theorem cutString_ends (text : List Char) : (cutString text).1.Ends (cutString text).2 := by
  unfold cutString
  split
  · exact ⟨⟨_, rfl⟩, rfl⟩
  · trivial

theorem cutSymbol_ends (c : Char) (rest : List Char) :
    (cutSymbol c rest).1.Ends (cutSymbol c rest).2 := by
  unfold cutSymbol
  split
  · trivial
  · split <;> trivial

theorem cut_ends (c : Char) (rest : List Char) : (cut c rest).1.Ends (cut c rest).2 := by
  unfold cut
  split
  · rename_i blank
    exact .inl ⟨c, blank, rfl⟩
  split
  · trivial
  split
  · obtain ⟨value, spelled, same⟩ := cutNumber_kind (c :: rest)
    rw [same]
    trivial
  split
  · exact cutString_ends rest
  split
  · rename_i slash
    obtain ⟨rfl, second⟩ := slash
    cases rest with
    | nil => cases second
    | cons other rest =>
      cases second
      exact cutComment_ends rest
  · exact cutSymbol_ends c rest

/-- A stretch for some characters that follow a position. -/
theorem span_at {place : source.Pos} {before : String} {here rest : List Char}
    (split : place.Splits before (String.ofList (here ++ rest))) :
    ∃ span : Span source, span.first = place ∧ span.text = String.ofList here ∧
      span.last.Splits (before ++ String.ofList here) (String.ofList rest) := by
  rw [String.ofList_append] at split
  have whole : source = (before ++ String.ofList here) ++ String.ofList rest := by
    rw [String.append_assoc]
    exact split.eq_append
  have later := String.Pos.splits_ofEqAppend whole
  obtain ⟨ordered, text⟩ := String.copy_slice_eq_iff_splits.mpr ⟨_, _, split, later⟩
  exact ⟨⟨place, String.Pos.ofEqAppend whole, ordered⟩, rfl, text, later⟩

theorem idle_of_blank {span : Span source} {before : String} {text left : List Char}
    (same : span.text = String.ofList text)
    (split : span.last.Splits before (String.ofList left))
    (ends : (Piece.blank text).Ends left) : span.Idle := by
  rcases ends with ⟨c, blank, rfl⟩ | ⟨⟨inside, rfl, single⟩, next⟩
  · refine .inl ?_
    rw [same]
    simp only [isBlank, Bool.or_eq_true, beq_iff_eq] at blank
    rcases blank with ((rfl | rfl) | rfl) | rfl <;> decide
  · refine .inr ⟨⟨String.ofList inside, ?_, by simpa using single⟩, ?_⟩
    · rw [same]
      exact @String.ofList_append ['/', '/'] inside
    · intro more
      cases left with
      | nil => exact absurd (split.eq_endPos_iff.mpr rfl) more
      | cons c rest =>
        obtain rfl := next c rest rfl
        have following : span.last.Splits before (String.singleton '\n' ++ String.ofList rest) := by
          rw [String.singleton_eq_ofList, ← String.ofList_append]
          exact split
        exact following.next.get_eq_of_singleton

theorem Span.lt_of_text {span : Span source} (some_text : span.text ≠ "") :
    span.first < span.last := by
  refine Std.lt_of_le_of_ne span.ordered ?_
  intro same
  apply some_text
  obtain ⟨first, last, ordered⟩ := span
  obtain rfl : first = last := same
  exact String.copy_slice_self

theorem owns_of_item {span : Span source} {before : String} {piece : Piece} {left : List Char}
    {line : Nat} {item : Item} (given : piece.item? line = some item) (within : item.Within)
    (same : span.text = String.ofList piece.text) (some_text : piece.text ≠ [])
    (split : span.last.Splits before (String.ofList left)) (ends : piece.Ends left) :
    item.Owns span := by
  cases piece with
  | blank text => cases given
  | token kind text =>
    cases given
    refine ⟨same, fun _ => ?_, fun ended => absurd ended within⟩
    have open_span : span.text ≠ "" := by
      rw [same]
      simpa [Piece.text] using some_text
    exact Span.lt_of_text open_span
  | stray c =>
    cases given
    exact same
  | unclosed text =>
    cases given
    obtain ⟨⟨inside, rfl⟩, rfl⟩ := ends
    exact ⟨⟨String.ofList inside, same.trans (@String.ofList_append ['"'] inside)⟩,
      split.eq_endPos_iff.mpr rfl⟩

/-! ### A whole text -/

/-- The items of a text from a position on, but for the end, and the spans of them all. -/
structure Accounted (start : source.Pos) (items : List Item) (last : Nat)
    (spans : List (Span source)) : Prop where
  /-- None of them is the end. -/
  within : ∀ item ∈ items, item.Within
  /-- Nothing comes after a string that is not closed. -/
  closes : ∀ before line after, items = before ++ .complaint line .unterminated :: after → after = []
  owns : List.Forall₂ Item.Owns spans (items ++ [.token (.eof last)])
  apart : Apart start spans

theorem Accounted.nil {place : source.Pos} (last : Nat) (at_end : place = source.endPos) :
    Accounted place [] last [⟨place, place, Std.le_refl _⟩] where
  within := nofun
  closes before line after same := by cases before <;> cases same
  owns := .cons ⟨String.copy_slice_self, fun other => absurd rfl other, fun _ => at_end⟩ .nil
  apart := ⟨.none, at_end ▸ .none⟩

theorem Accounted.cons {span : Span source} {item : Item} {items : List Item} {last : Nat}
    {spans : List (Span source)} (within : item.Within) (owns : item.Owns span)
    (closes : ∀ line, item = .complaint line .unterminated → items = [])
    (later : Accounted span.last items last spans) :
    Accounted span.first (item :: items) last (span :: spans) where
  within := List.forall_mem_cons.mpr ⟨within, later.within⟩
  closes before line after same := by
    cases before with
    | nil =>
      obtain ⟨first, rest⟩ := List.cons.inj same
      exact rest ▸ closes line first
    | cons _ before => exact later.closes before line after (List.cons.inj same).2
  owns := .cons owns later.owns
  apart := ⟨.none, later.apart⟩

/-- An item is what the first piece of a text gives, or the end. -/
def Item.Heads (item : Item) : List Char → Prop
  | [] => ∃ line, item = .token (.eof line)
  | c :: rest => ∃ line, (cut c rest).1.item? line = some item

/-- Each item is given by the text that follows where its span starts. -/
def Headed (spans : List (Span source)) (items : List Item) : Prop :=
  List.Forall₂ (fun span item => ∃ before text, span.first.Splits before (String.ofList text) ∧
    item.Heads text) spans items

def Item.line : Item → Nat
  | .token word => word.line
  | .complaint line _ => line

/-- From a position on, that is on some line, each item is as many lines further down as newlines come
between there and the end of its span. -/
def Lined (line : Nat) (before : String) (spans : List (Span source)) (items : List Item) : Prop :=
  List.Forall₂ (fun span item => item.line + newlines before.toList =
    line + newlines (source.sliceTo span.last).copy.toList) spans items

theorem Lined.later {line : Nat} {before : String} {here : List Char} {spans : List (Span source)}
    {items : List Item}
    (lined : Lined (line + newlines here) (before ++ String.ofList here) spans items) :
    Lined line before spans items := by
  refine lined.imp fun span item same => ?_
  rw [String.toList_append, String.toList_ofList, newlines_append] at same
  omega

theorem item_line {piece : Piece} {line : Nat} {item : Item} (given : piece.item? line = some item) :
    item.line = line := by
  cases piece <;> cases given <;> rfl

theorem items_nil {line last : Nat} {items : List Item}
    (given : itemsFrom line [] = items ++ [.token (.eof last)]) : items = [] := by
  rw [itemsFrom_nil] at given
  cases items with
  | nil => rfl
  | cons _ items => cases items <;> cases given

/-- The items of a text, with the span of each, what it was cut from and the line it is on. -/
theorem traced_from : (text : List Char) → (line : Nat) → {place : source.Pos} →
    {before : String} → place.Splits before (String.ofList text) →
    ∃ items last spans, itemsFrom line text = items ++ [.token (.eof last)] ∧
      Accounted place items last spans ∧ Headed spans (items ++ [.token (.eof last)]) ∧
      Lined line before spans (items ++ [.token (.eof last)])
  | [], line, place, before, split => by
    have at_end : place = source.endPos := split.eq_endPos_iff.mpr rfl
    refine ⟨[], line, _, itemsFrom_nil line, .nil line at_end, .cons ⟨_, _, split, line, rfl⟩ .nil,
      .cons ?_ .nil⟩
    rw [split.copy_sliceTo_eq]
    rfl
  | c :: rest, line, place, before, whole => by
    have split := whole
    rw [← text_cut c rest] at split
    obtain ⟨span, rfl, same, split⟩ := span_at split
    obtain ⟨items, last, spans, given, later, headed, lined⟩ :=
      traced_from (cut c rest).2 (line + newlines (cut c rest).1.text) split
    have ends := cut_ends c rest
    rw [itemsFrom_cons, given]
    cases shape : (cut c rest).1.item? (line + newlines (cut c rest).1.text) with
    | none =>
      cases piece : (cut c rest).1 with
      | blank text =>
        rw [piece] at same ends
        have idle := idle_of_blank same split ends
        exact ⟨items, last, spans, rfl, ⟨later.within, later.closes, later.owns,
          later.apart.skip idle⟩, headed, lined.later⟩
      | token | stray | unclosed =>
        rw [piece] at shape
        cases shape
    | some item =>
      have within : item.Within := cut_within item (by rw [shape]; exact List.mem_singleton_self _)
      have owns := owns_of_item shape within same (cut_text_ne_nil c rest) split ends
      refine ⟨item :: items, last, span :: spans, rfl, .cons within owns ?_ later,
        .cons ⟨before, _, whole, _, shape⟩ headed, .cons ?_ lined.later⟩
      · rintro line rfl
        have left : (cut c rest).2 = [] := by
          have closed := split.eq_endPos_iff.mp owns.2
          simpa using closed
        rw [left] at given
        exact items_nil given
      · rw [item_line shape, split.copy_sliceTo_eq, String.toList_append, String.toList_ofList,
          newlines_append]
        omega
termination_by text => text.length
decreasing_by
  have := length_cut c rest
  simp only [List.length_cons]
  omega

theorem traced (source : String) :
    ∃ items last spans, scan source = items ++ [.token (.eof last)] ∧
      Accounted source.startPos items last spans ∧ Headed spans (items ++ [.token (.eof last)]) ∧
      Lined 1 "" spans (items ++ [.token (.eof last)]) := by
  have whole : source.startPos.Splits "" (String.ofList source.toList) := by
    rw [String.ofList_toList]
    exact source.splits_startPos
  exact traced_from source.toList 1 whole

theorem headed_from (text : List Char) (line : Nat) {place : source.Pos} {before : String}
    (split : place.Splits before (String.ofList text)) :
    ∃ items last spans, itemsFrom line text = items ++ [.token (.eof last)] ∧
      Accounted place items last spans ∧ Headed spans (items ++ [.token (.eof last)]) := by
  obtain ⟨items, last, spans, given, accounted, headed, _⟩ := traced_from text line split
  exact ⟨items, last, spans, given, accounted, headed⟩

theorem accounted_from (text : List Char) (line : Nat) {place : source.Pos} {before : String}
    (split : place.Splits before (String.ofList text)) :
    ∃ items last spans, itemsFrom line text = items ++ [.token (.eof last)] ∧
      Accounted place items last spans := by
  obtain ⟨items, last, spans, given, accounted, _⟩ := headed_from text line split
  exact ⟨items, last, spans, given, accounted⟩

/-! ### One call after another -/

/-- What a call gives and the cursor that is left. -/
def Cursor.call (cursor : Cursor) : Option Item × Cursor :=
  match cursor.next? with
  | none => (none, cursor)
  | some (item, after) => (some item, after)

/-- What the calls give, one after another and for ever. -/
def Cursor.calls (cursor : Cursor) : Nat → Option Item
  | 0 => cursor.call.1
  | count + 1 => cursor.call.2.calls count

theorem Cursor.calls_eq (cursor : Cursor) (count : Nat) :
    cursor.calls count = cursor.toList[count]? := by
  induction count generalizing cursor with
  | zero =>
    rw [calls, call, toList]
    cases cursor.next? <;> rfl
  | succ count ih =>
    rw [calls, ih, call]
    conv => rhs; rw [toList]
    cases given : cursor.next? with
    | none =>
      dsimp only
      rw [toList, given]
      rfl
    | some next => rfl

/-- Calls give finitely many items, of which only the last is the end, and nothing from then on.
Each item has a span of its own, and all outside the spans is blanks and comments. -/
theorem scan_spans (source : String) :
    ∃ items last spans,
      (∀ count, (Cursor.start source).calls count = (items ++ [.token (.eof last)])[count]?) ∧
      Accounted source.startPos items last spans ∧
      spans.Pairwise fun former later => former.last ≤ later.first := by
  have whole : source.startPos.Splits "" (String.ofList source.toList) := by
    rw [String.ofList_toList]
    exact source.splits_startPos
  obtain ⟨items, last, spans, given, accounted⟩ := accounted_from source.toList 1 whole
  refine ⟨items, last, spans, ?_, accounted, accounted.apart.pairwise⟩
  intro count
  rw [← given]
  exact Cursor.calls_eq _ count

end Lox.Source
