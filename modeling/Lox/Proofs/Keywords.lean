import Mathlib.Data.List.Nodup
import Lox.Proofs.Seats

/-! The uses of `this` and `super` in a method, those in the methods of further classes apart. The
distance on record for one of them is how far out of it the method's own receiver or superclass
stands. -/

namespace Lox

open Resolution

/-! ### The uses of a keyword -/

section Uses

variable (word : String)

def keywordUses (keyword : String) (depth : Nat) (reference : Reference) : List Use :=
  if keyword = word then [⟨depth, false, reference⟩] else []

mutual

def Expr.keywords (depth : Nat) : Expr → List Use
  | .literal _ | .variable _ => []
  | .unary _ inner | .grouping inner | .get inner _ => inner.keywords depth
  | .binary first _ second | .logical first _ second | .set first _ second =>
    first.keywords depth ++ second.keywords depth
  | .assign _ value => value.keywords depth
  | .call callee _ arguments => callee.keywords depth ++ exprKeywords depth arguments
  | .this reference => keywordUses word thisName depth reference
  | .super reference _ => keywordUses word superName depth reference

def exprKeywords (depth : Nat) : List Expr → List Use
  | [] => []
  | first :: rest => first.keywords depth ++ exprKeywords depth rest

end

def optionalKeywords (depth : Nat) : Option Expr → List Use
  | none => []
  | some e => e.keywords word depth

mutual

/-- The methods of a class that is declared in a statement have a receiver of their own, and a
superclass of their own or none. -/
def Stmt.keywords (depth : Nat) : Stmt → List Use
  | .expression e | .print e => e.keywords word depth
  | .var _ initializer => optionalKeywords word depth initializer
  | .block body => stmtKeywords (depth + 1) body
  | .conditional condition thenBranch elseBranch =>
    condition.keywords word depth ++ thenBranch.keywords depth ++ branchKeywords depth elseBranch
  | .loop condition body => condition.keywords word depth ++ body.keywords depth
  | .function declaration => declaration.keywords depth
  | .ret _ value => optionalKeywords word depth value
  | .classDecl _ _ _ => []

def stmtKeywords (depth : Nat) : List Stmt → List Use
  | [] => []
  | first :: rest => first.keywords depth ++ stmtKeywords depth rest

def branchKeywords (depth : Nat) : Option Stmt → List Use
  | none => []
  | some s => s.keywords depth

def FunctionDecl.keywords (depth : Nat) : FunctionDecl → List Use
  | ⟨_, _, body⟩ => stmtKeywords (depth + 1) body

end

end Uses

variable {word : String}

theorem keywordUses_sublist (keyword : String) (depth : Nat) (reference : Reference) :
    (keywordUses word keyword depth reference).Sublist [⟨depth, false, reference⟩] := by
  unfold keywordUses
  split
  · exact .refl _
  · exact List.nil_sublist _

mutual

theorem Expr.keywords_sublist (depth : Nat) :
    (e : Expr) → (e.keywords word depth).Sublist (e.uses depth)
  | .literal _ => .refl _
  | .variable _ => List.nil_sublist _
  | .unary _ inner | .grouping inner | .get inner _ => inner.keywords_sublist depth
  | .binary first _ second | .logical first _ second | .set first _ second =>
    (first.keywords_sublist depth).append (second.keywords_sublist depth)
  | .assign _ value => (value.keywords_sublist depth).trans (List.sublist_append_left _ _)
  | .call callee _ arguments =>
    (callee.keywords_sublist depth).append (exprKeywords_sublist depth arguments)
  | .this reference => keywordUses_sublist thisName depth reference
  | .super reference _ => keywordUses_sublist superName depth reference

theorem exprKeywords_sublist (depth : Nat) :
    (es : List Expr) → (exprKeywords word depth es).Sublist (exprUses depth es)
  | [] => .refl _
  | first :: rest => (first.keywords_sublist depth).append (exprKeywords_sublist depth rest)

end

theorem optionalKeywords_sublist (depth : Nat) (e : Option Expr) :
    (optionalKeywords word depth e).Sublist (optionalUses depth e) := by
  cases e with
  | none => exact .refl _
  | some e => exact e.keywords_sublist depth

mutual

theorem Stmt.keywords_sublist (depth : Nat) :
    (s : Stmt) → (s.keywords word depth).Sublist (s.uses depth)
  | .expression e | .print e => e.keywords_sublist depth
  | .var _ initializer => optionalKeywords_sublist depth initializer
  | .block body => stmtKeywords_sublist (depth + 1) body
  | .conditional condition thenBranch elseBranch =>
    ((condition.keywords_sublist depth).append (thenBranch.keywords_sublist depth)).append
      (branchKeywords_sublist depth elseBranch)
  | .loop condition body => (condition.keywords_sublist depth).append (body.keywords_sublist depth)
  | .function declaration => declaration.keywords_sublist depth
  | .ret _ value => optionalKeywords_sublist depth value
  | .classDecl _ _ _ => List.nil_sublist _

theorem stmtKeywords_sublist (depth : Nat) :
    (body : List Stmt) → (stmtKeywords word depth body).Sublist (stmtUses depth body)
  | [] => .refl _
  | first :: rest => (first.keywords_sublist depth).append (stmtKeywords_sublist depth rest)

theorem branchKeywords_sublist (depth : Nat) :
    (s : Option Stmt) → (branchKeywords word depth s).Sublist (branchUses depth s)
  | none => .refl _
  | some s => s.keywords_sublist depth

theorem FunctionDecl.keywords_sublist (depth : Nat) :
    (f : FunctionDecl) → (f.keywords word depth).Sublist (f.uses depth)
  | ⟨_, _, body⟩ => stmtKeywords_sublist (depth + 1) body

end

/-! ### The distances on record for them -/

/-- The depths of uses are the distances on record. -/
def Told (records : Records) (uses : List Use) : Prop :=
  ∀ use ∈ uses, use.id < records.next ∧ records.distance? use.id = some use.depth

variable {records newer : Records} {scopes : List (Bindings Bool)} {depth : Nat}

theorem Told.append {first second : List Use} (left : Told records first)
    (right : Told records second) : Told records (first ++ second) := by
  intro use member
  rcases List.mem_append.mp member with member | member
  · exact left use member
  · exact right use member

theorem told_nil : Told records [] := by simp [Told]

theorem Told.later {uses : List Use} (told : Told records uses) (grown : records.Extends newer) :
    Told newer uses := by
  intro use member
  obtain ⟨below, recorded⟩ := told use member
  exact ⟨Nat.lt_of_lt_of_le below grown.next, (grown.distance use.id below).trans recorded⟩

theorem told_keywordUses {keyword : String} {reference : Reference}
    (found : distanceIn scopes word = some depth) (numbered : reference.id < records.next)
    (nearest : records.distance? reference.id = distanceIn scopes keyword) :
    Told records (keywordUses word keyword depth reference) := by
  unfold keywordUses
  split
  · rename_i same
    intro use member
    rw [List.mem_singleton.mp member]
    exact ⟨numbered, nearest.trans (same ▸ found)⟩
  · exact told_nil

mutual

theorem Expr.keywords_told (found : distanceIn scopes word = some depth) :
    (e : Expr) → e.Resolved records scopes → Told records (e.keywords word depth)
  | .literal _, _ | .variable _, _ => told_nil
  | .unary _ inner, resolved | .grouping inner, resolved | .get inner _, resolved =>
    inner.keywords_told found resolved
  | .binary first _ second, resolved | .logical first _ second, resolved
  | .set first _ second, resolved =>
    (first.keywords_told found resolved.1).append (second.keywords_told found resolved.2)
  | .assign _ value, resolved => value.keywords_told found resolved.2
  | .call callee _ arguments, resolved =>
    (callee.keywords_told found resolved.1).append (exprKeywords_told found arguments resolved.2)
  | .this reference, resolved =>
    have reads : ReadsThis records scopes reference := resolved
    told_keywordUses found reads.numbered reads.nearest
  | .super reference _, resolved =>
    have reads : ReadsSuper records scopes reference := resolved
    told_keywordUses found reads.numbered reads.nearest

theorem exprKeywords_told (found : distanceIn scopes word = some depth) :
    (es : List Expr) → exprsResolved records scopes es → Told records (exprKeywords word depth es)
  | [], _ => told_nil
  | first :: rest, resolved =>
    (first.keywords_told found resolved.1).append (exprKeywords_told found rest resolved.2)

end

theorem optionalKeywords_told (found : distanceIn scopes word = some depth) (e : Option Expr)
    (resolved : optionalResolved records scopes e) :
    Told records (optionalKeywords word depth e) := by
  cases e with
  | none => exact told_nil
  | some e => exact e.keywords_told found resolved

theorem found_marked (keyword : ¬Ordinary word) {name : Token}
    (named : Named Token.Genuine name) (ready : Bool)
    (found : distanceIn scopes word = some depth) :
    distanceIn (marked scopes name.lexeme ready) word = some depth := by
  have ordinary := ordinary_of_named named fun _ genuine => genuine
  have other : word ≠ name.lexeme := fun same => keyword (same ▸ ordinary)
  rw [distanceIn_marked scopes ready other, found]

theorem found_inside {scope : Bindings Bool} (without : scope.contains word = false)
    (found : distanceIn scopes word = some depth) :
    distanceIn (scope :: scopes) word = some (depth + 1) := by
  rw [distanceIn_cons, without, found]
  rfl

theorem found_after (keyword : ¬Ordinary word) {s : Stmt} (proper : s.Proper Token.Genuine)
    (found : distanceIn scopes word = some depth) :
    distanceIn (Resolution.after s scopes) word = some depth := by
  cases s with
  | var name _ => exact found_marked keyword proper.1 true found
  | function declaration => exact found_marked keyword (Code.Part.named.proper proper) true found
  | classDecl name _ _ => exact found_marked keyword proper.1 true found
  | expression _ | print _ | block _ | conditional _ _ _ | loop _ _ | ret _ _ => exact found

mutual

theorem Stmt.keywords_told (keyword : ¬Ordinary word) {scopes : List (Bindings Bool)}
    {depth : Nat} (found : distanceIn scopes word = some depth) :
    (s : Stmt) → s.Proper Token.Genuine → s.Resolved records scopes →
      Told records (s.keywords word depth)
  | .expression e, _, resolved | .print e, _, resolved => e.keywords_told found resolved
  | .var _ initializer, proper, resolved =>
    optionalKeywords_told (found_marked keyword proper.1 false found) initializer resolved.2
  | .block body, proper, resolved =>
    stmtKeywords_told keyword (found_inside rfl found) body proper resolved
  | .conditional condition thenBranch elseBranch, proper, resolved =>
    ((condition.keywords_told found resolved.1).append
      (thenBranch.keywords_told keyword found proper.2.1.1 resolved.2.1.1)).append
      (branchKeywords_told keyword found elseBranch proper.2.2 resolved.2.2)
  | .loop condition body, proper, resolved =>
    (condition.keywords_told found resolved.1).append
      (body.keywords_told keyword found proper.2.1 resolved.2.1)
  | .function declaration, proper, resolved =>
    declaration.keywords_told keyword
      (found_marked keyword (Code.Part.named.proper proper) true found) proper resolved.2
  | .ret _ value, _, resolved => optionalKeywords_told found value resolved
  | .classDecl _ _ _, _, _ => told_nil

theorem stmtKeywords_told (keyword : ¬Ordinary word) {scopes : List (Bindings Bool)}
    {depth : Nat} (found : distanceIn scopes word = some depth) :
    (body : List Stmt) → stmtsProper Token.Genuine body → stmtsResolved records scopes body →
      Told records (stmtKeywords word depth body)
  | [], _, _ => told_nil
  | first :: rest, proper, resolved =>
    (first.keywords_told keyword found proper.1 resolved.1).append
      (stmtKeywords_told keyword (found_after keyword proper.1 found) rest proper.2 resolved.2)

theorem branchKeywords_told (keyword : ¬Ordinary word) {scopes : List (Bindings Bool)}
    {depth : Nat} (found : distanceIn scopes word = some depth) :
    (s : Option Stmt) → branchProper Token.Genuine s → branchResolved records scopes s →
      Told records (branchKeywords word depth s)
  | none, _, _ => told_nil
  | some s, proper, resolved => s.keywords_told keyword found proper.1 resolved.1

theorem FunctionDecl.keywords_told (keyword : ¬Ordinary word) {scopes : List (Bindings Bool)}
    {depth : Nat} (found : distanceIn scopes word = some depth) :
    (f : FunctionDecl) → f.Proper Token.Genuine → f.Resolved records scopes →
      Told records (f.keywords word depth)
  | ⟨_, params, body⟩, proper, resolved => by
    have without : (paramScope params).contains word = false :=
      Seated.unnamed_params fun param listed same =>
        keyword (same ▸ ordinary_of_named (proper.2.1 param listed) fun _ genuine => genuine)
    exact stmtKeywords_told keyword (found_inside without found) body proper.2.2 resolved.2

end

/-- If the uses in some code have numbers of their own, the use of a keyword in it that is found in a
method there is used as far in as it is found. -/
theorem Told.distance {uses : List Use} {reference : Reference} {use : Use}
    (distinct : (identifiers uses).Nodup) {keywords : List Use} (told : Told records keywords)
    (within : keywords ⊆ uses) (member : use ∈ keywords) (same : use.reference = reference)
    (there : ⟨depth, false, reference⟩ ∈ uses) :
    reference.id < records.next ∧ records.distance? reference.id = some depth := by
  have one : use = ⟨depth, false, reference⟩ :=
    List.inj_on_of_nodup_map distinct (within member) there (congrArg Reference.id same)
  have found := told use member
  rw [one] at found
  exact found

end Lox
