import Lox.Source.Cursor

/-! The kind of a scanned token agrees with its text: keywords are written as keywords, and no
identifier is. The rules of scoping rest on this, since they know `this` and `super` by their text. -/

namespace Lox

/-- What a scan promises of the words it reads. -/
def Token.Genuine (token : Token) : Prop :=
  match token.kind with
  | .keyword word => token.lexeme = word.text
  | .identifier => Keyword.ofText? token.lexeme = none
  | _ => True

namespace Source

theorem wordKind_genuine (word : List Char) (line : Nat) :
    Token.Genuine ⟨wordKind word, String.ofList word, line⟩ := by
  unfold wordKind
  cases found : Keyword.ofText? (String.ofList word) with
  | none => exact found
  | some keyword =>
    have same := List.find?_some found
    exact (beq_iff_eq.mp same).symm

theorem cutNumber_kind (text : List Char) :
    ∃ value spelled, (cutNumber text).1 = .token (.number value) spelled := by
  unfold cutNumber
  split
  · dsimp only
    split
    · exact ⟨_, _, rfl⟩
    · exact ⟨_, _, rfl⟩
  · exact ⟨_, _, rfl⟩

theorem cut_genuine {c : Char} {rest : List Char} {kind : Kind} {text : List Char}
    (read : (cut c rest).1 = .token kind text) (line : Nat) :
    Token.Genuine ⟨kind, String.ofList text, line⟩ := by
  unfold cut at read
  split at read
  · cases read
  split at read
  · cases read
    exact wordKind_genuine _ line
  split at read
  · obtain ⟨value, spelled, same⟩ := cutNumber_kind (c :: rest)
    rw [same] at read
    cases read
    trivial
  split at read
  · unfold cutString at read
    split at read
    · cases read
    · cases read
      trivial
  split at read
  · cases read
  · unfold cutSymbol at read
    split at read
    · cases read
      trivial
    · split at read
      · cases read
        trivial
      · cases read

def Item.Genuine : Item → Prop
  | .token word => word.Genuine
  | .complaint .. => True

namespace Cursor

theorem nextFrom_genuine (line : Nat) (text : List Char) : (nextFrom line text).1.Genuine := by
  fun_induction nextFrom line text with
  | case1 line => exact trivial
  | case2 line c rest piece next item found =>
    cases shape : piece.1 with
    | blank => simp [shape, Piece.item?] at found
    | stray | unclosed =>
      simp only [shape, Piece.item?, Option.some.injEq] at found
      subst found
      trivial
    | token kind text =>
      simp only [shape, Piece.item?, Option.some.injEq] at found
      subst found
      exact cut_genuine (show (cut c rest).1 = _ from shape) _
  | case3 line c rest piece next found ih => exact ih

theorem toList_genuine (cursor : Cursor) : ∀ item ∈ cursor.toList, item.Genuine := by
  fun_induction Cursor.toList cursor with
  | case1 => simp
  | case2 cursor item after given ih =>
    intro other member
    rcases List.mem_cons.mp member with rfl | later
    · unfold next? at given
      split at given
      · cases given
      · have first := nextFrom_genuine cursor.line cursor.rest
        rw [Option.some.inj given] at first
        exact first
    · exact ih other later

end Cursor

/-- Every token of a text is spelled as its kind says. -/
theorem tokens_genuine (source : String) : ∀ token ∈ tokens (scan source), token.Genuine := by
  intro token member
  obtain ⟨item, listed, same⟩ := List.mem_filterMap.mp member
  cases item with
  | token other =>
    cases same
    exact Cursor.toList_genuine _ _ listed
  | complaint => cases same

end Source
end Lox
