import Lox.Fault
import Lox.Source.Piece

/-!
The tokens and complaints of a source text, one at a time and in order. The end comes once, as a
token of its own; after that a cursor has nothing more to give.
-/

namespace Lox.Source

inductive Item
  | token (token : Token)
  | complaint (line : Nat) (complaint : LexComplaint)
deriving DecidableEq

def newlines (text : List Char) : Nat := text.count '\n'

/-- The line on which the inside of a string ends that starts on a given line. -/
def lineThrough (line : Nat) (inside : List Char) : Nat :=
  inside.foldl (fun line c => if c = '\n' then line + 1 else line) line

/-- The line on which a piece ends. Newlines are counted in two places only: as blanks, and on the
way to the closing quote of a string. -/
def Piece.lineAfter (line : Nat) : Piece → Nat
  | blank ['\n'] => line + 1
  | token (.string inside) _ => lineThrough line inside.toList
  | unclosed text => lineThrough line text.tail
  | blank _ | token .. | stray _ => line

/-- A piece stands on the line on which it ends. -/
def Piece.item? (line : Nat) : Piece → Option Item
  | blank _ => none
  | token kind text => some (.token ⟨kind, String.ofList text, line⟩)
  | stray c => some (.complaint line (.unexpected c))
  | unclosed _ => some (.complaint line .unterminated)

structure Cursor where
  rest : List Char
  line : Nat
  ended : Bool

namespace Cursor

def start (source : String) : Cursor := ⟨source.toList, 1, false⟩

/-- What is left to give: the characters and the end. -/
def size (cursor : Cursor) : Nat := if cursor.ended then 0 else cursor.rest.length + 1

def nextFrom (line : Nat) : List Char → Item × Cursor
  | [] => (.token (.eof line), ⟨[], line, true⟩)
  | c :: rest =>
    let piece := cut c rest
    let line := piece.1.lineAfter line
    match piece.1.item? line with
    | some item => (item, ⟨piece.2, line, false⟩)
    | none => nextFrom line piece.2
termination_by text => text.length
decreasing_by
  have := length_cut c rest
  simp only [List.length_cons]
  omega

def next? (cursor : Cursor) : Option (Item × Cursor) :=
  if cursor.ended then none else some (nextFrom cursor.line cursor.rest)

theorem size_nextFrom (line : Nat) (text : List Char) :
    (nextFrom line text).2.size < text.length + 1 := by
  fun_induction nextFrom line text with
  | case1 => simp [size]
  | case2 line c rest piece next item found =>
    have shorter : piece.2.length ≤ rest.length := length_cut c rest
    simp only [size, List.length_cons, Bool.false_eq_true, if_false]
    omega
  | case3 line c rest piece next found ih =>
    have shorter : piece.2.length ≤ rest.length := length_cut c rest
    simp only [List.length_cons]
    omega

theorem size_next? {cursor after : Cursor} {item : Item}
    (given : cursor.next? = some (item, after)) : after.size < cursor.size := by
  have smaller := size_nextFrom cursor.line cursor.rest
  unfold next? at given
  split at given
  · cases given
  · rename_i unfinished
    simp only [Option.some.injEq] at given
    rw [given] at smaller
    simpa [size, unfinished] using smaller

/-- All that is still to come. -/
def toList (cursor : Cursor) : List Item :=
  match _given : cursor.next? with
  | none => []
  | some (item, after) => item :: after.toList
termination_by cursor.size
decreasing_by exact size_next? _given

end Cursor

def scan (source : String) : List Item := (Cursor.start source).toList

def tokens (items : List Item) : List Token :=
  items.filterMap fun
    | .token token => some token
    | .complaint .. => none

def faults (items : List Item) : List Fault :=
  items.filterMap fun
    | .token _ => none
    | .complaint line complaint => some (.lex line complaint)

end Lox.Source
