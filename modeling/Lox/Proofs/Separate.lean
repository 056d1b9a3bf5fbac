import Mathlib
import Lox.Proofs.Sessions

/-! What a walk leaves as it was. On every way through a tree, complaints or not, it puts back the
scopes and the roles it changed, and it never looks at what it found before. So programs that follow
one another are resolved as each of them is on its own. -/

namespace Lox.Resolution

/-! ### Going on from earlier findings -/

namespace Walk

/-- The same walk after another one, whose findings and complaints are still there. -/
def onto (walk earlier : Walk) : Walk :=
  { walk with
    found := walk.found ++ earlier.found
    faults := walk.faults ++ earlier.faults }

variable (walk earlier : Walk)

@[simp] theorem onto_enter (scope : Bindings Bool) :
    (walk.onto earlier).enter scope = (walk.enter scope).onto earlier := rfl

@[simp] theorem onto_leave : (walk.onto earlier).leave = walk.leave.onto earlier := rfl

@[simp] theorem onto_complain (fault : StaticFault) :
    (walk.onto earlier).complain fault = (walk.complain fault).onto earlier := rfl

@[simp] theorem onto_complainIf (condition : Bool) (fault : StaticFault) :
    (walk.onto earlier).complainIf condition fault =
      (walk.complainIf condition fault).onto earlier := by
  cases condition <;> rfl

@[simp] theorem onto_refer (reference : Reference) :
    (walk.onto earlier).refer reference = (walk.refer reference).onto earlier := by
  have same : (walk.onto earlier).distance? = walk.distance? := rfl
  unfold refer
  rw [same]
  split <;> rfl

@[simp] theorem onto_declare (name : Token) :
    (walk.onto earlier).declare name = (walk.declare name).onto earlier := by
  have same : (walk.onto earlier).scopes = walk.scopes := rfl
  unfold declare
  rw [same]
  split
  · rfl
  · split <;> rfl

@[simp] theorem onto_ready (name : Token) :
    (walk.onto earlier).ready name = (walk.ready name).onto earlier := by
  have same : (walk.onto earlier).scopes = walk.scopes := rfl
  unfold ready
  rw [same]
  split <;> rfl

@[simp] theorem onto_bind (name : Token) :
    (walk.onto earlier).bind name = (walk.bind name).onto earlier := by
  rw [bind, onto_declare, onto_ready, bind]

@[simp] theorem onto_useVariable (reference : Reference) :
    (walk.onto earlier).useVariable reference = (walk.useVariable reference).onto earlier := by
  have same : (walk.onto earlier).isPending = walk.isPending := rfl
  rw [useVariable, useVariable, same, onto_complainIf, onto_refer]

@[simp] theorem onto_useThis (reference : Reference) :
    (walk.onto earlier).useThis reference = (walk.useThis reference).onto earlier := by
  have same : (walk.onto earlier).classRole = walk.classRole := rfl
  unfold useThis
  rw [same]
  split
  · rfl
  · exact onto_refer walk earlier reference

@[simp] theorem onto_useSuper (reference : Reference) :
    (walk.onto earlier).useSuper reference = (walk.useSuper reference).onto earlier := by
  have same : (walk.onto earlier).classRole = walk.classRole := rfl
  unfold useSuper
  rw [same]
  cases walk.classRole <;> simp only [onto_complain, onto_refer]

@[simp] theorem onto_useReturn (keyword : Token) (hasValue : Bool) :
    (walk.onto earlier).useReturn keyword hasValue =
      (walk.useReturn keyword hasValue).onto earlier := by
  have same : (walk.onto earlier).functionRole = walk.functionRole := rfl
  simp only [useReturn, same, onto_complainIf]

end Walk

section Visits

open Walk

variable (earlier : Walk)

theorem onto_enterClass (name : Token) (superclass : Option Reference) (walk : Walk) :
    enterClass name superclass (walk.onto earlier) =
      (enterClass name superclass walk).onto earlier := by
  have plain : { walk.onto earlier with classRole := .plain } =
      { walk with classRole := .plain }.onto earlier := rfl
  cases superclass with
  | none => simp only [enterClass, plain, onto_bind, onto_enter]
  | some reference =>
    have derived (walk : Walk) : { walk.onto earlier with classRole := .derived } =
      { walk with classRole := .derived }.onto earlier := rfl
    simp only [enterClass, plain, derived, onto_bind, onto_complainIf, onto_useVariable, onto_enter]

theorem onto_leaveClass (superclass : Option Reference) (before walk : Walk) :
    leaveClass superclass (before.onto earlier) (walk.onto earlier) =
      (leaveClass superclass before walk).onto earlier := by
  cases superclass <;> rfl

theorem onto_enterFunction (role : FunctionRole) (params : List Token) (walk : Walk) :
    enterFunction role params (walk.onto earlier) =
      (enterFunction role params walk).onto earlier := by
  have binds (walk : Walk) : params.foldl Walk.bind (walk.onto earlier) =
      (params.foldl Walk.bind walk).onto earlier := by
    induction params generalizing walk with
    | nil => rfl
    | cons param rest ih => rw [List.foldl_cons, onto_bind, ih, List.foldl_cons]
  exact binds ({ walk with functionRole := role }.enter .empty)

mutual

theorem visitExpr_onto : (e : Expr) → (walk : Walk) →
    visitExpr e (walk.onto earlier) = (visitExpr e walk).onto earlier
  | .literal _, _ => rfl
  | .unary _ operand, walk => visitExpr_onto operand walk
  | .binary left _ right, walk | .logical left _ right, walk => by
    rw [visitExpr, visitExpr_onto left, visitExpr_onto right, visitExpr]
  | .grouping inner, walk => visitExpr_onto inner walk
  | .variable reference, walk => onto_useVariable walk earlier reference
  | .assign target value, walk => by
    rw [visitExpr, visitExpr_onto value, onto_refer, visitExpr]
  | .call callee _ arguments, walk => by
    rw [visitExpr, visitExpr_onto callee, visitExprs_onto arguments, visitExpr]
  | .get object _, walk => visitExpr_onto object walk
  | .set object _ value, walk => by
    rw [visitExpr, visitExpr_onto value, visitExpr_onto object, visitExpr]
  | .this reference, walk => onto_useThis walk earlier reference
  | .super reference _, walk => onto_useSuper walk earlier reference

theorem visitExprs_onto : (es : List Expr) → (walk : Walk) →
    visitExprs es (walk.onto earlier) = (visitExprs es walk).onto earlier
  | [], _ => rfl
  | first :: rest, walk => by
    rw [visitExprs, visitExpr_onto first, visitExprs_onto rest, visitExprs]

end

theorem visitExprIfAny_onto (e : Option Expr) (walk : Walk) :
    visitExprIfAny e (walk.onto earlier) = (visitExprIfAny e walk).onto earlier := by
  cases e with
  | none => rfl
  | some e => exact visitExpr_onto earlier e walk

mutual

theorem visitStmt_onto : (s : Stmt) → (walk : Walk) →
    visitStmt s (walk.onto earlier) = (visitStmt s walk).onto earlier
  | .expression e, walk => visitExpr_onto earlier e walk
  | .print e, walk => visitExpr_onto earlier e walk
  | .var name initializer, walk => by
    rw [visitStmt, onto_declare, visitExprIfAny_onto, onto_ready, visitStmt]
  | .block body, walk => by
    rw [visitStmt, onto_enter, visitStmts_onto body, onto_leave, visitStmt]
  | .conditional condition thenBranch elseBranch, walk => by
    rw [visitStmt, visitExpr_onto, visitStmt_onto thenBranch, visitStmtIfAny_onto elseBranch,
      visitStmt]
  | .loop condition body, walk => by
    rw [visitStmt, visitExpr_onto, visitStmt_onto body, visitStmt]
  | .function declaration, walk => by
    rw [visitStmt, onto_bind, visitFunction_onto _ declaration, visitStmt]
  | .ret keyword value, walk => by
    rw [visitStmt, onto_useReturn, visitExprIfAny_onto, visitStmt]
  | .classDecl name superclass methods, walk => by
    rw [visitStmt, onto_enterClass, visitFunctions_onto methods, onto_leaveClass, visitStmt]

theorem visitStmts_onto : (body : List Stmt) → (walk : Walk) →
    visitStmts body (walk.onto earlier) = (visitStmts body walk).onto earlier
  | [], _ => rfl
  | first :: rest, walk => by
    rw [visitStmts, visitStmt_onto first, visitStmts_onto rest, visitStmts]

theorem visitStmtIfAny_onto : (s : Option Stmt) → (walk : Walk) →
    visitStmtIfAny s (walk.onto earlier) = (visitStmtIfAny s walk).onto earlier
  | none, _ => rfl
  | some s, walk => visitStmt_onto s walk

theorem visitFunction_onto (role : FunctionRole) : (f : FunctionDecl) → (walk : Walk) →
    visitFunction role f (walk.onto earlier) = (visitFunction role f walk).onto earlier
  | ⟨_, params, body⟩, walk => by
    rw [visitFunction, onto_enterFunction, visitStmts_onto body, visitFunction]
    rfl

theorem visitFunctions_onto : (fs : List FunctionDecl) → (walk : Walk) →
    visitFunctions fs (walk.onto earlier) = (visitFunctions fs walk).onto earlier
  | [], _ => rfl
  | first :: rest, walk => by
    rw [visitFunctions, visitFunction_onto _ first, visitFunctions_onto rest, visitFunctions]

end

end Visits

/-! ### Putting back -/

/-- Between two points the scopes and roles are the same, but that names were declared in the
innermost scope and are ready there. -/
structure Walk.Restores (names : List String) (before after : Walk) : Prop where
  depth : after.scopes.length = before.scopes.length
  outer : after.scopes.tail = before.scopes.tail
  innermost : ∀ name, after.scopes.head?.map (·.find? name) =
    before.scopes.head?.map fun scope => if name ∈ names then some true else scope.find? name
  functionRole : after.functionRole = before.functionRole
  classRole : after.classRole = before.classRole

theorem length_markedAll (names : List Token) (scopes : List (Bindings Bool)) :
    (markedAll names scopes).length = scopes.length := by
  induction names generalizing scopes with
  | nil => rfl
  | cons name rest ih =>
    refine (ih _).trans ?_
    cases scopes <;> rfl

theorem head_markedAll (names : List Token) (scopes : List (Bindings Bool)) (name : String) :
    (markedAll names scopes).head?.map (·.find? name) =
      scopes.head?.map fun scope =>
        if name ∈ names.map Token.lexeme then some true else scope.find? name := by
  induction names generalizing scopes with
  | nil => simp [markedAll]
  | cons first rest ih =>
    refine (ih _).trans ?_
    cases scopes with
    | nil => rfl
    | cons scope outer =>
      by_cases later : name ∈ rest.map Token.lexeme
      · simp [marked, later]
      · by_cases here : name = first.lexeme <;> simp [marked, later, here]

theorem restores_visitExpr (e : Expr) (walk : Walk) : walk.Restores [] (visitExpr e walk) := by
  obtain ⟨⟨functionRole, classRole⟩, scopes⟩ := visitExpr_stays e walk
  refine ⟨by rw [scopes], by rw [scopes], fun name => ?_, functionRole, classRole⟩
  rw [scopes]
  simp

theorem restores_visitStmt (s : Stmt) (walk : Walk) :
    walk.Restores (s.declares.map Token.lexeme) (visitStmt s walk) := by
  have scopes := scopes_visited s walk
  obtain ⟨functionRole, classRole⟩ := visitStmt_returns s walk
  refine ⟨?_, ?_, fun name => ?_, functionRole, classRole⟩
  · rw [scopes, length_markedAll]
  · rw [scopes, tail_markedAll]
  · rw [scopes, head_markedAll]

/-! ### One program after another -/

/-- All that is complained of in a program. -/
def complaints (program : List Stmt) : List StaticFault :=
  match resolve program with
  | .ok _ => []
  | .error faults => faults

/-- The distances of an accepted program by the numbers of the references. -/
def table (found : List (Nat × Nat)) : Machine.Distances :=
  (∅ : Machine.Distances).insertMany found

theorem complaints_eq (program : List Stmt) :
    complaints program = (visitStmts program .start).faults.reverse := by
  unfold complaints resolve
  dsimp only
  by_cases clean : (visitStmts program .start).faults.isEmpty
  · rw [if_pos clean, List.isEmpty_iff.mp clean]
    rfl
  · rw [if_neg clean]

theorem resolve_eq_ok {program : List Stmt} {found : List (Nat × Nat)} :
    resolve program = .ok found ↔
      complaints program = [] ∧ found = (visitStmts program .start).found.reverse := by
  rw [complaints_eq, List.reverse_eq_nil_iff]
  unfold resolve
  dsimp only
  by_cases clean : (visitStmts program .start).faults.isEmpty
  · rw [if_pos clean]
    simp [List.isEmpty_iff.mp clean, eq_comm]
  · rw [if_neg clean]
    simp [List.isEmpty_iff.not.mp clean]

theorem markedAll_nil (names : List Token) : markedAll names [] = [] :=
  List.eq_nil_of_length_eq_zero (length_markedAll names [])

/-- At the end of a program the walk is where it started, but for what it has found. -/
theorem visitStmts_start (program : List Stmt) :
    visitStmts program .start = Walk.start.onto (visitStmts program .start) := by
  have scopes := (scopes_visitedAll program .start).trans (markedAll_nil _)
  obtain ⟨functionRole, classRole⟩ := visitStmts_returns program .start
  generalize visitStmts program .start = walk at scopes functionRole classRole ⊢
  obtain ⟨_, found, faults, _, _⟩ := walk
  cases scopes
  cases functionRole
  cases classRole
  rfl

theorem visitStmts_both (first second : List Stmt) :
    visitStmts (first ++ second) .start =
      (visitStmts second .start).onto (visitStmts first .start) := by
  rw [visitStmts_append, visitStmts_start first, visitStmts_onto, ← visitStmts_start first]

theorem complaints_append (first second : List Stmt) :
    complaints (first ++ second) = complaints first ++ complaints second := by
  simp only [complaints_eq, visitStmts_both, Walk.onto, List.reverse_append]

theorem table_get (found : List (Nat × Nat)) (id : Nat) :
    (table found)[id]? = found.reverse.lookup id := by
  rw [← lookup_reverse]
  refine Std.HashMap.getElem?_insertMany_list.trans ?_
  simp

/-- Only the references of a program have entries. -/
theorem table_listed {program : List Stmt} {found : List (Nat × Nat)} {id distance : Nat}
    (resolved : resolve program = .ok found) (entry : (table found)[id]? = some distance) :
    id ∈ identifiers (stmtUses 0 program) := by
  by_contra foreign
  have still := (visitStmts_grows 0 program .start).lookup foreign
  rw [table_get, (resolve_eq_ok.mp resolved).2, List.reverse_reverse, still] at entry
  cases entry

theorem table_append (found more : List (Nat × Nat)) (id : Nat) :
    (table (found ++ more))[id]? = ((table more)[id]?).or (table found)[id]? := by
  simp only [table_get, List.reverse_append, List.lookup_append]

theorem resolve_append {first second : List Stmt} {found more : List (Nat × Nat)}
    (one : resolve first = .ok found) (two : resolve second = .ok more) :
    resolve (first ++ second) = .ok (found ++ more) := by
  obtain ⟨clean, rfl⟩ := resolve_eq_ok.mp one
  obtain ⟨clean', rfl⟩ := resolve_eq_ok.mp two
  refine resolve_eq_ok.mpr ⟨?_, ?_⟩
  · rw [complaints_append, clean, clean', List.append_nil]
  · rw [visitStmts_both, Walk.onto, List.reverse_append]

/-- A table with the entries of two others that have no key in common. -/
structure Unites (all first second : Machine.Distances) : Prop where
  entry : ∀ id distance : Nat, all[id]? = some distance ↔
    first[id]? = some distance ∨ second[id]? = some distance
  apart : ∀ id : Nat, first[id]? = none ∨ second[id]? = none

/-- Whatever the state of a walk, visiting a tree puts back what it changed, but that the names
which a statement declares where it stands are ready there; in a program as it is parsed that is one
name at most. So programs in a row are complained of one after the other, and if both are accepted
so are they in a row, with the distances of both. -/
theorem walk_restored :
    (∀ (walk : Walk) (e : Expr), walk.Restores [] (visitExpr e walk)) ∧
    (∀ (walk : Walk) (s : Stmt),
      walk.Restores (s.declares.map Token.lexeme) (visitStmt s walk)) ∧
    (∀ (good : Token → Prop) (s : Stmt), s.Proper good → s.declares = s.declared?.toList) ∧
    ∀ first second : List Stmt,
      complaints (first ++ second) = complaints first ++ complaints second ∧
      ((identifiers (stmtUses 0 first)).Disjoint (identifiers (stmtUses 0 second)) →
        ∀ found more, resolve first = .ok found → resolve second = .ok more →
          ∃ all, resolve (first ++ second) = .ok all ∧
            Unites (table all) (table found) (table more)) := by
  refine ⟨fun walk e => restores_visitExpr e walk, fun walk s => restores_visitStmt s walk,
    fun _ s proper => s.declares_eq proper, fun first second => ?_⟩
  refine ⟨complaints_append first second, fun disjoint found more one two => ?_⟩
  have apart (id : Nat) : (table found)[id]? = none ∨ (table more)[id]? = none := by
    rcases here : (table found)[id]? with _ | distance
    · exact .inl rfl
    · rcases there : (table more)[id]? with _ | other
      · exact .inr rfl
      · exact absurd (table_listed two there) (disjoint (table_listed one here))
  refine ⟨found ++ more, resolve_append one two, fun id distance => ?_, apart⟩
  rw [table_append]
  rcases apart id with none | none
  · simp [none]
  · simp [none]

/-- A block that prints its variable, and after it a function that returns its parameter. -/
theorem walk_restored_of_block : ∃ first second : Stmt, ∃ found more all,
    first.Proper (fun _ => True) ∧ first.declares = [] ∧
    second.Proper (fun _ => True) ∧ second.declares.map Token.lexeme = ["f"] ∧
    resolve [first] = .ok found ∧ found = [(0, 0)] ∧
    resolve [second] = .ok more ∧ more = [(1, 0)] ∧
    resolve [first, second] = .ok all ∧ Unites (table all) (table found) (table more) := by
  let name (lexeme : String) : Token := ⟨.identifier, lexeme, 1⟩
  let first : Stmt :=
    .block [.var (name "a") (some (.literal .nil)), .print (.variable ⟨0, name "a"⟩)]
  let second : Stmt := .function
    ⟨name "f", [name "b"], [.ret ⟨.keyword .return, "return", 2⟩ (some (.variable ⟨1, name "b"⟩))]⟩
  obtain ⟨_, _, declares, both⟩ := walk_restored
  have proper : first.Proper fun _ => True := ⟨⟨⟨rfl, trivial⟩, trivial⟩, ⟨rfl, trivial⟩, trivial⟩
  have proper' : second.Proper fun _ => True :=
    ⟨⟨rfl, trivial⟩, by simp [Named, name], ⟨rfl, trivial⟩, trivial⟩
  have one : resolve [first] = .ok [(0, 0)] := by cbv
  have two : resolve [second] = .ok [(1, 0)] := by cbv
  obtain ⟨all, resolved, unites⟩ := (both [first] [second]).2
    (show ([0] : List Nat).Disjoint [1] by simp) _ _ one two
  refine ⟨first, second, _, _, all, proper, declares _ first proper, proper', ?_, one, rfl, two,
    rfl, resolved, unites⟩
  rw [declares _ second proper']
  rfl

end Lox.Resolution
