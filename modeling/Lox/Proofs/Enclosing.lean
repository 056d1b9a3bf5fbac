import Mathlib
import Lox.Proofs.Accepted

/-! The distance of a reference, told by its place in the program alone: the scopes around it are
listed with the names they have there, and the nearest of them that has the name is looked for. -/

namespace Lox

open Resolution

/-! ### Places -/

/-- The names of the scopes around a place, innermost first. The global scope is none of them. -/
abbrev Enclosing : Type := List (List String)

/-- The first scope from inside that has a name, counted in scopes outwards. -/
structure Nearest (scopes : Enclosing) (name : String) (distance : Nat) : Prop where
  has : ∃ names, scopes[distance]? = some names ∧ name ∈ names
  first : ∀ inner < distance, ∀ names, scopes[inner]? = some names → name ∉ names

/-- The scopes as a statement has them from its start on: the name it declares already counts. -/
def declaring (s : Stmt) : Enclosing → Enclosing
  | [] => []
  | names :: outer => ((s.declared?.map Token.lexeme).toList ++ names) :: outer

/-- Around its methods a class has a scope that holds the receiver alone, and if it has a superclass,
one outside of that which holds the superclass alone. -/
def aroundMethods (superclass : Option Reference) : Enclosing :=
  [thisName] :: (superclass.map fun _ => [superName]).toList

/-- A reference where it stands. -/
structure Occurrence where
  scopes : Enclosing
  reference : Reference

def placed (scopes : Enclosing) (uses : List Use) : List Occurrence :=
  uses.map fun use => ⟨scopes, use.reference⟩

mutual

/-- The references in a statement, each with the scopes around it. -/
def Stmt.occurrences (scopes : Enclosing) : Stmt → List Occurrence
  | .expression e => placed scopes (e.uses scopes.length)
  | .print e => placed scopes (e.uses scopes.length)
  | .var _ initializer => placed scopes (optionalUses scopes.length initializer)
  | .block body => stmtOccurrences ([] :: scopes) body
  | .conditional condition thenBranch elseBranch =>
    placed scopes (condition.uses scopes.length) ++ thenBranch.occurrences scopes ++
      branchOccurrences scopes elseBranch
  | .loop condition body =>
    placed scopes (condition.uses scopes.length) ++ body.occurrences scopes
  | .function declaration => declaration.occurrences scopes
  | .ret _ value => placed scopes (optionalUses scopes.length value)
  | .classDecl _ superclass methods =>
    placed scopes (superclassUses scopes.length superclass) ++
      methodOccurrences (aroundMethods superclass ++ scopes) methods

/-- Statements of one scope, which gets their names one after the other. -/
def stmtOccurrences (scopes : Enclosing) : List Stmt → List Occurrence
  | [] => []
  | first :: rest =>
    first.occurrences (declaring first scopes) ++ stmtOccurrences (declaring first scopes) rest

def branchOccurrences (scopes : Enclosing) : Option Stmt → List Occurrence
  | none => []
  | some s => s.occurrences scopes

/-- The parameters and the statements of a body share a scope. -/
def FunctionDecl.occurrences (scopes : Enclosing) : FunctionDecl → List Occurrence
  | ⟨_, params, body⟩ => stmtOccurrences (params.map Token.lexeme :: scopes) body

def methodOccurrences (scopes : Enclosing) : List FunctionDecl → List Occurrence
  | [] => []
  | first :: rest => first.occurrences scopes ++ methodOccurrences scopes rest

end

@[simp] theorem length_declaring (s : Stmt) (scopes : Enclosing) :
    (declaring s scopes).length = scopes.length := by
  cases scopes <;> rfl

theorem declaring_undeclared {s : Stmt} (undeclared : s.declared? = none) (scopes : Enclosing) :
    declaring s scopes = scopes := by
  cases scopes with
  | nil => rfl
  | cons names outer => simp [declaring, undeclared]

theorem length_aroundMethods (superclass : Option Reference) :
    (aroundMethods superclass).length = classDepth superclass := by
  cases superclass <;> rfl

theorem placed_append (scopes : Enclosing) (first second : List Use) :
    placed scopes (first ++ second) = placed scopes first ++ placed scopes second :=
  List.map_append

@[simp] theorem references_placed (scopes : Enclosing) (uses : List Use) :
    (placed scopes uses).map Occurrence.reference = uses.map Use.reference :=
  List.map_map

mutual

/-- Every reference of a program has its place. -/
theorem Stmt.references_occurrences (scopes : Enclosing) : (s : Stmt) →
    (s.occurrences scopes).map Occurrence.reference = (s.uses scopes.length).map Use.reference
  | .expression e | .print e => references_placed scopes _
  | .var _ initializer | .ret _ initializer => references_placed scopes _
  | .block body => stmtOccurrences_references ([] :: scopes) body
  | .conditional condition thenBranch elseBranch => by
    simp only [Stmt.occurrences, Stmt.uses, List.map_append, references_placed,
      Stmt.references_occurrences scopes thenBranch, branchOccurrences_references scopes elseBranch]
  | .loop condition body => by
    simp only [Stmt.occurrences, Stmt.uses, List.map_append, references_placed,
      Stmt.references_occurrences scopes body]
  | .function declaration => declaration.references_occurrences scopes
  | .classDecl _ superclass methods => by
    simp only [Stmt.occurrences, Stmt.uses, List.map_append, references_placed,
      methodOccurrences_references _ methods, List.length_append, length_aroundMethods,
      Nat.add_comm scopes.length]

theorem stmtOccurrences_references (scopes : Enclosing) : (body : List Stmt) →
    (stmtOccurrences scopes body).map Occurrence.reference =
      (stmtUses scopes.length body).map Use.reference
  | [] => rfl
  | first :: rest => by
    simp only [stmtOccurrences, stmtUses, List.map_append, length_declaring,
      Stmt.references_occurrences (declaring first scopes) first,
      stmtOccurrences_references (declaring first scopes) rest]

theorem branchOccurrences_references (scopes : Enclosing) : (s : Option Stmt) →
    (branchOccurrences scopes s).map Occurrence.reference =
      (branchUses scopes.length s).map Use.reference
  | none => rfl
  | some s => s.references_occurrences scopes

theorem FunctionDecl.references_occurrences (scopes : Enclosing) : (f : FunctionDecl) →
    (f.occurrences scopes).map Occurrence.reference = (f.uses scopes.length).map Use.reference
  | ⟨_, params, body⟩ => stmtOccurrences_references (params.map Token.lexeme :: scopes) body

theorem methodOccurrences_references (scopes : Enclosing) : (methods : List FunctionDecl) →
    (methodOccurrences scopes methods).map Occurrence.reference =
      (methodUses scopes.length methods).map Use.reference
  | [] => rfl
  | first :: rest => by
    simp only [methodOccurrences, methodUses, List.map_append, first.references_occurrences scopes,
      methodOccurrences_references scopes rest]

end

namespace Resolution

open Walk

/-! ### The scopes of the walk -/

/-- The scopes of a walk have these names. -/
def Mirrors (scopes : Enclosing) (walked : List (Bindings Bool)) : Prop :=
  List.Forall₂ (fun names scope => ∀ name, scope.contains name ↔ name ∈ names) scopes walked

section Mirrors

variable {scopes : Enclosing} {walked : List (Bindings Bool)}

theorem Mirrors.distance (mirrors : Mirrors scopes walked) (name : String) :
    walked.findIdx? (·.contains name) = scopes.findIdx? fun names => name ∈ names := by
  induction mirrors with
  | nil => rfl
  | cons same _ ih =>
    rw [List.findIdx?_cons, List.findIdx?_cons, ih]
    simp [← same]

theorem Mirrors.marked {s : Stmt} {name : Token} (mirrors : Mirrors scopes walked)
    (declares : s.declared? = some name) (ready : Bool) :
    Mirrors (declaring s scopes) (Resolution.marked walked name.lexeme ready) := by
  cases mirrors with
  | nil => exact .nil
  | cons same outer =>
    refine .cons (fun other => ?_) outer
    simp [declares, same]

theorem Mirrors.after (mirrors : Mirrors scopes walked) (s : Stmt) :
    Mirrors (declaring s scopes) (Resolution.after s walked) := by
  unfold Resolution.after
  cases declares : s.declared? with
  | some name => exact mirrors.marked declares true
  | none => exact (declaring_undeclared declares scopes).symm ▸ mirrors

/-- A name that stands there already is there all the same. -/
theorem Mirrors.declare {s : Stmt} {name : Token} {walk : Walk} (mirrors : Mirrors scopes walk.scopes)
    (declares : s.declared? = some name) : Mirrors (declaring s scopes) (walk.declare name).scopes := by
  have marked := mirrors.marked declares false
  unfold Walk.declare
  split
  · rename_i shape
    rw [shape] at marked ⊢
    exact marked
  · rename_i scope outer shape
    rw [shape] at marked mirrors
    split
    · rename_i already
      cases mirrors with
      | cons same outer =>
        rw [scopes_complain, shape]
        refine .cons (fun other => ?_) outer
        by_cases itself : other = name.lexeme <;> simp [declares, ← same, itself, already]
    · exact marked

theorem Mirrors.enterFunction (mirrors : Mirrors scopes walked) (params : List Token) :
    Mirrors (params.map Token.lexeme :: scopes) (paramScope params :: walked) := by
  refine .cons (fun name => ?_) mirrors
  rw [Bindings.contains, find?_paramScope]
  split <;> simp [*]

theorem mirrors_scopeOf (name : String) :
    ∀ other, (scopeOf name).contains other ↔ other ∈ [name] := by
  intro other
  rw [Bindings.contains, find?_scopeOf]
  split <;> simp [*]

theorem Mirrors.aroundMethods (mirrors : Mirrors scopes walked) (superclass : Option Reference) :
    Mirrors (Lox.aroundMethods superclass ++ scopes) (classScopes superclass ++ walked) := by
  cases superclass with
  | none => exact .cons (mirrors_scopeOf thisName) mirrors
  | some _ => exact .cons (mirrors_scopeOf thisName) (.cons (mirrors_scopeOf superName) mirrors)

end Mirrors

/-! ### What is found -/

/-- The entry that an occurrence gets, if one of the scopes around it has its name. -/
def recordOf? (occurrence : Occurrence) : Option (Nat × Nat) :=
  (occurrence.scopes.findIdx? fun names => occurrence.reference.name.lexeme ∈ names).map
    (occurrence.reference.id, ·)

/-- Without a complaint, a walk finds the entries of all occurrences and nothing else. -/
def Finds (occurrences : List Occurrence) (before after : Walk) : Prop :=
  after.faults = [] → before.faults = [] ∧
    after.found.Perm (occurrences.filterMap recordOf? ++ before.found)

namespace Finds

variable {occurrences others : List Occurrence} {before middle after : Walk}

theorem refl (walk : Walk) : Finds [] walk walk := fun clean => ⟨clean, .refl _⟩

theorem still (grows : Grows [] before after) (found : after.found = before.found) :
    Finds [] before after :=
  fun clean => ⟨grows.clean clean, found ▸ .refl _⟩

theorem trans (first : Finds occurrences before middle) (second : Finds others middle after) :
    Finds (occurrences ++ others) before after := by
  intro clean
  obtain ⟨clean, later⟩ := second clean
  obtain ⟨clean, earlier⟩ := first clean
  refine ⟨clean, later.trans ((earlier.append_left _).trans ?_)⟩
  rw [List.filterMap_append, List.append_assoc, ← List.append_assoc, ← List.append_assoc]
  exact List.perm_append_comm.append_right _

theorem perm (finds : Finds occurrences before after) (same : occurrences.Perm others) :
    Finds others before after := by
  intro clean
  obtain ⟨clean, found⟩ := finds clean
  exact ⟨clean, found.trans ((same.filterMap recordOf?).append_right _)⟩

theorem after_still (finds : Finds occurrences before middle) (grows : Grows [] middle after)
    (found : after.found = middle.found) : Finds occurrences before after := by
  have whole := finds.trans (still grows found)
  rwa [List.append_nil] at whole

end Finds

section Expressions

variable {scopes : Enclosing} {walk : Walk}

theorem refer_finds (mirrors : Mirrors scopes walk.scopes) (reference : Reference) (depth : Nat)
    (writes : Bool) :
    Finds (placed scopes [⟨depth, writes, reference⟩]) walk (walk.refer reference) := by
  have distance := mirrors.distance reference.name.lexeme
  intro clean
  refine ⟨(grows_refer walk reference).clean clean, ?_⟩
  unfold Walk.refer Walk.distance?
  rw [distance]
  cases found : scopes.findIdx? fun names => reference.name.lexeme ∈ names <;>
    simp [placed, recordOf?, found]

theorem useVariable_finds (mirrors : Mirrors scopes walk.scopes) (reference : Reference) (depth : Nat)
    (writes : Bool) :
    Finds (placed scopes [⟨depth, writes, reference⟩]) walk (walk.useVariable reference) :=
  (Finds.still (grows_complainIf _ _ _) (found_complainIf _ _ _)).trans
    (refer_finds (by rwa [scopes_complainIf]) reference depth writes)

theorem useThis_finds (mirrors : Mirrors scopes walk.scopes) (reference : Reference) (depth : Nat)
    (writes : Bool) :
    Finds (placed scopes [⟨depth, writes, reference⟩]) walk (walk.useThis reference) := by
  unfold Walk.useThis
  split
  · exact nofun
  · exact refer_finds mirrors reference depth writes

theorem useSuper_finds (mirrors : Mirrors scopes walk.scopes) (reference : Reference) (depth : Nat)
    (writes : Bool) :
    Finds (placed scopes [⟨depth, writes, reference⟩]) walk (walk.useSuper reference) := by
  have complained (fault : StaticFault) : Finds (placed scopes [⟨depth, writes, reference⟩]) walk
      ((walk.complain fault).refer reference) := by
    have inside : Mirrors scopes (walk.complain fault).scopes := mirrors
    exact (Finds.still (grows_complain _ _) rfl).trans (refer_finds inside reference depth writes)
  unfold Walk.useSuper
  dsimp only
  split
  · exact complained _
  · exact complained _
  · exact refer_finds mirrors reference depth writes

mutual

theorem visitExpr_finds {walk : Walk} (depth : Nat) : (e : Expr) → Mirrors scopes walk.scopes →
    Finds (placed scopes (e.uses depth)) walk (visitExpr e walk)
  | .literal _, _ => .refl _
  | .unary _ operand, mirrors => visitExpr_finds depth operand mirrors
  | .binary left _ right, mirrors | .logical left _ right, mirrors => by
    rw [Expr.uses, placed_append]
    exact (visitExpr_finds depth left mirrors).trans
      (visitExpr_finds depth right (by rwa [scopes_visitExpr]))
  | .grouping inner, mirrors => visitExpr_finds depth inner mirrors
  | .variable reference, mirrors => useVariable_finds mirrors reference depth false
  | .assign target value, mirrors => by
    rw [Expr.uses, placed_append]
    exact (visitExpr_finds depth value mirrors).trans
      (refer_finds (by rwa [scopes_visitExpr]) target depth true)
  | .call callee _ arguments, mirrors => by
    rw [Expr.uses, placed_append]
    exact (visitExpr_finds depth callee mirrors).trans
      (visitExprs_finds depth arguments (by rwa [scopes_visitExpr]))
  | .get object _, mirrors => visitExpr_finds depth object mirrors
  | .set object _ value, mirrors => by
    -- The value is walked first.
    rw [Expr.uses, placed_append]
    exact ((visitExpr_finds depth value mirrors).trans
      (visitExpr_finds depth object (by rwa [scopes_visitExpr]))).perm List.perm_append_comm
  | .this reference, mirrors => useThis_finds mirrors reference depth false
  | .super reference _, mirrors => useSuper_finds mirrors reference depth false

theorem visitExprs_finds {walk : Walk} (depth : Nat) : (es : List Expr) → Mirrors scopes walk.scopes →
    Finds (placed scopes (exprUses depth es)) walk (visitExprs es walk)
  | [], _ => .refl _
  | first :: rest, mirrors => by
    rw [exprUses, placed_append]
    exact (visitExpr_finds depth first mirrors).trans
      (visitExprs_finds depth rest (by rwa [scopes_visitExpr]))

end

theorem visitExprIfAny_finds (depth : Nat) (e : Option Expr) (mirrors : Mirrors scopes walk.scopes) :
    Finds (placed scopes (optionalUses depth e)) walk (visitExprIfAny e walk) := by
  cases e with
  | none => exact .refl _
  | some e => exact visitExpr_finds depth e mirrors

end Expressions

section Statements

variable {good : Token → Prop}

theorem enterClass_finds {scopes : Enclosing} {walk : Walk} {name : Token}
    {superclass : Option Reference} {s : Stmt}
    (mirrors : Mirrors scopes walk.scopes) (declares : s.declared? = some name) (depth : Nat) :
    Finds (placed (declaring s scopes) (superclassUses depth superclass)) walk
      (enterClass name superclass walk) := by
  let plain := { walk with classRole := .plain }
  have roled : Grows [] walk plain := .still rfl rfl
  have named : Finds [] walk (plain.bind name) :=
    .still (roled.append (grows_bind plain name)) (found_bind plain name)
  cases superclass with
  | none => exact named.after_still (.still rfl rfl) rfl
  | some reference =>
    let checked := (plain.bind name).complainIf (reference.name.lexeme == name.lexeme)
      (.selfInheritance reference.name.lexeme reference.name.line)
    let derived := { checked with classRole := .derived }
    have complained : Grows [] (plain.bind name) checked := grows_complainIf _ _ _
    have found : derived.found = (plain.bind name).found := found_complainIf _ _ _
    have inner : Mirrors (declaring s scopes) derived.scopes := by
      have scopes : derived.scopes = marked walk.scopes name.lexeme true :=
        (scopes_complainIf _ _ _).trans (scopes_bind plain name)
      rw [scopes]
      exact mirrors.marked declares true
    have used := useVariable_finds inner reference depth false
    exact ((named.after_still (complained.same rfl rfl) found).trans used).after_still
      (.still rfl rfl) rfl

mutual

theorem visitStmt_finds {scopes : Enclosing} {walk : Walk} : (s : Stmt) → s.Proper good →
    Mirrors scopes walk.scopes → Finds (s.occurrences (declaring s scopes)) walk (visitStmt s walk)
  | .expression e, _, mirrors | .print e, _, mirrors => by
    rw [declaring_undeclared rfl]
    exact visitExpr_finds _ e mirrors
  | .var name initializer, _, mirrors =>
    have declared : Finds [] walk (walk.declare name) :=
      .still (grows_declare walk name) (found_declare walk name)
    (declared.trans (visitExprIfAny_finds _ initializer (mirrors.declare rfl))).after_still
      (grows_ready _ name) (found_ready _ name)
  | .block body, proper, mirrors => by
    rw [declaring_undeclared rfl]
    have entered : Mirrors ([] :: scopes) (walk.enter .empty).scopes :=
      .cons (by simp [Bindings.contains]) mirrors
    have inside := visitStmts_finds body proper entered
    exact ((Finds.still (.still rfl rfl) rfl).trans inside).after_still (.still rfl rfl) rfl
  | .conditional condition thenBranch elseBranch, proper, mirrors => by
    rw [declaring_undeclared rfl]
    have first := visitExpr_finds scopes.length condition mirrors
    have between : Mirrors scopes (visitExpr condition walk).scopes := by rwa [scopes_visitExpr]
    have second := visitStmt_finds thenBranch proper.2.1.1 between
    rw [declaring_undeclared proper.2.1.2] at second
    have last : Mirrors scopes (visitStmt thenBranch (visitExpr condition walk)).scopes := by
      rwa [scopes_visitStmt thenBranch proper.2.1.1, after_eq_self proper.2.1.2]
    exact (first.trans second).trans (visitStmtIfAny_finds elseBranch proper.2.2 last)
  | .loop condition body, proper, mirrors => by
    rw [declaring_undeclared rfl]
    have between : Mirrors scopes (visitExpr condition walk).scopes := by rwa [scopes_visitExpr]
    have second := visitStmt_finds body proper.2.1 between
    rw [declaring_undeclared proper.2.2] at second
    exact (visitExpr_finds scopes.length condition mirrors).trans second
  | .function declaration, proper, mirrors => by
    have declared : Finds [] walk (walk.bind declaration.name) :=
      .still (grows_bind walk _) (found_bind walk _)
    have named : Mirrors (declaring (.function declaration) scopes)
        (walk.bind declaration.name).scopes := by
      rw [scopes_bind]
      exact mirrors.marked rfl true
    exact declared.trans (visitFunction_finds .function declaration proper named)
  | .ret keyword value, _, mirrors => by
    rw [declaring_undeclared rfl]
    have returned : Finds [] walk (walk.useReturn keyword value.isSome) :=
      .still (grows_useReturn walk keyword _)
        ((found_complainIf _ _ _).trans (found_complainIf _ _ _))
    exact returned.trans (visitExprIfAny_finds _ value (by rwa [scopes_useReturn]))
  | .classDecl name superclass methods, proper, mirrors => by
    have declares : (Stmt.classDecl name superclass methods).declared? = some name := rfl
    have around := (mirrors.marked declares true).aroundMethods superclass
    rw [← scopes_enterClass] at around
    have inside := visitFunctions_finds methods proper.2.2 around
    exact ((enterClass_finds mirrors declares _).trans inside).after_still
      (grows_leaveClass superclass walk _) (by unfold visitStmt leaveClass; cases superclass <;> rfl)

theorem visitStmts_finds {scopes : Enclosing} {walk : Walk} : (body : List Stmt) →
    stmtsProper good body → Mirrors scopes walk.scopes →
      Finds (stmtOccurrences scopes body) walk (visitStmts body walk)
  | [], _, _ => .refl walk
  | first :: rest, proper, mirrors => by
    have later := mirrors.after first
    rw [← scopes_visitStmt first proper.1] at later
    exact (visitStmt_finds first proper.1 mirrors).trans (visitStmts_finds rest proper.2 later)

theorem visitStmtIfAny_finds {scopes : Enclosing} {walk : Walk} : (s : Option Stmt) →
    branchProper good s → Mirrors scopes walk.scopes →
      Finds (branchOccurrences scopes s) walk (visitStmtIfAny s walk)
  | none, _, _ => .refl walk
  | some s, proper, mirrors => by
    have inside := visitStmt_finds s proper.1 mirrors
    rwa [declaring_undeclared proper.2] at inside

theorem visitFunction_finds {scopes : Enclosing} {walk : Walk} (role : FunctionRole) :
    (f : FunctionDecl) → f.Proper good → Mirrors scopes walk.scopes →
      Finds (f.occurrences scopes) walk (visitFunction role f walk)
  | ⟨_, params, body⟩, proper, mirrors => by
    have entered : Finds [] walk (enterFunction role params walk) :=
      .still (grows_enterFunction role params walk) (found_enterFunction role params walk)
    have inner := mirrors.enterFunction params
    rw [← scopes_enterFunction role params walk] at inner
    have inside := visitStmts_finds body proper.2.2 inner
    exact (entered.trans inside).after_still (.still rfl rfl) rfl

theorem visitFunctions_finds {scopes : Enclosing} {walk : Walk} : (methods : List FunctionDecl) →
    methodsProper good methods → Mirrors scopes walk.scopes →
      Finds (methodOccurrences scopes methods) walk (visitFunctions methods walk)
  | [], _, _ => .refl walk
  | first :: rest, proper, mirrors => by
    have later := mirrors
    rw [← scopes_visitFunction (methodRole first) first] at later
    exact (visitFunction_finds (methodRole first) first proper.1 mirrors).trans
      (visitFunctions_finds rest proper.2 later)

end

end Statements

/-! ### Programs -/

theorem nearest_iff {scopes : Enclosing} {name : String} {distance : Nat} :
    Nearest scopes name distance ↔
      (scopes.findIdx? fun names => name ∈ names) = some distance := by
  rw [List.findIdx?_eq_some_iff_getElem]
  constructor
  · rintro ⟨⟨names, found, has⟩, first⟩
    obtain ⟨inside, rfl⟩ := List.getElem?_eq_some_iff.mp found
    refine ⟨inside, decide_eq_true has, fun inner before => ?_⟩
    have missing := first inner before _ (List.getElem?_eq_getElem (before.trans inside))
    simpa using missing
  · rintro ⟨inside, has, first⟩
    refine ⟨⟨_, List.getElem?_eq_getElem inside, of_decide_eq_true has⟩, ?_⟩
    intro inner before names found
    obtain ⟨_, rfl⟩ := List.getElem?_eq_some_iff.mp found
    simpa using first inner before

section Programs

variable {program : List Stmt} {table : List (Nat × Nat)}

/-- The table has the entries of all occurrences, in some order. -/
theorem resolve_entries {good : Token → Prop} (proper : stmtsProper good program)
    (accepted : resolve program = .ok table) :
    table.Perm ((stmtOccurrences [] program).filterMap recordOf?) := by
  obtain ⟨clean, found⟩ := walk_of_resolve accepted
  have start : Mirrors [] Walk.start.scopes := .nil
  have entries := (visitStmts_finds program proper start clean).2
  rw [← found, Walk.start, List.append_nil] at entries
  exact table.reverse_perm.symm.trans entries

/-- No two occurrences have one number, so each has the entry that its own place gives it. -/
theorem recorded_iff {good : Token → Prop} {first next : Nat}
    (read : stmtsRead good first next program) (accepted : resolve program = .ok table)
    {occurrence : Occurrence} (member : occurrence ∈ stmtOccurrences [] program) (distance : Nat) :
    (occurrence.reference.id, distance) ∈ table ↔
      (occurrence.scopes.findIdx? fun names => occurrence.reference.name.lexeme ∈ names) =
        some distance := by
  have distinct : ((stmtOccurrences [] program).map fun other => other.reference.id).Nodup := by
    have ids := (read.fresh 0).distinct
    have references := stmtOccurrences_references [] program
    have same : identifiers (stmtUses 0 program) =
        (stmtOccurrences [] program).map fun other => other.reference.id := by
      calc identifiers (stmtUses 0 program)
        _ = ((stmtUses 0 program).map Use.reference).map Reference.id := (List.map_map ..).symm
        _ = ((stmtOccurrences [] program).map Occurrence.reference).map Reference.id := by
          rw [references, List.length_nil]
        _ = _ := List.map_map ..
    rwa [same] at ids
  rw [(resolve_entries read.proper accepted).mem_iff, List.mem_filterMap]
  constructor
  · rintro ⟨other, among, given⟩
    obtain ⟨found, near, same⟩ := Option.map_eq_some_iff.mp given
    obtain ⟨id, rfl⟩ := Prod.mk.inj same
    obtain rfl := List.inj_on_of_nodup_map distinct among member id
    exact near
  · exact fun near => ⟨occurrence, member, by rw [recordOf?, near]; rfl⟩

end Programs

/-- Each reference of an accepted program is on record with its distance from the nearest scope around
it that has its name, and it is on record with none where no scope around it has the name. The superclass
of a class is looked up outside of what the class puts around its methods. -/
theorem distance_nearest {tokens : List Token} {first : Nat} {program : List Stmt}
    {table : List (Nat × Nat)} (parsed : (Tree.parse tokens first).result = .ok program)
    (accepted : resolve program = .ok table) :
    (stmtOccurrences [] program).map Occurrence.reference = (stmtUses 0 program).map Use.reference ∧
    ∀ occurrence ∈ stmtOccurrences [] program,
      (∀ distance, (occurrence.reference.id, distance) ∈ table ↔
        Nearest occurrence.scopes occurrence.reference.name.lexeme distance) ∧
      ((∀ distance, (occurrence.reference.id, distance) ∉ table) ↔
        ∀ names ∈ occurrence.scopes, occurrence.reference.name.lexeme ∉ names) := by
  have read := (Tree.parse_read (fun _ _ => trivial) parsed).2
  refine ⟨stmtOccurrences_references [] program, fun occurrence member => ⟨?_, ?_⟩⟩
  · intro distance
    rw [recorded_iff read accepted member, nearest_iff]
  · simp only [recorded_iff read accepted member, ← Option.eq_none_iff_forall_ne_some,
      List.findIdx?_eq_none_iff, decide_eq_false_iff_not]

/-- In a method of a class in a block, a variable of the block is found outside of what the class puts
around the method, and a superclass that is a global is not found. -/
theorem distance_nearest_of_method : ∃ source program table assigned super above,
    source = "\x7bvar a; class B < A \x7b m(b) \x7b a = super.m; \x7d \x7d \x7d" ∧
    (Tree.parse (Source.tokens (Source.scan source)) 0).result = .ok program ∧
    resolve program = .ok table ∧
    stmtOccurrences [] program = [⟨[["B", "a"]], above⟩,
      ⟨[["b"], ["this"], ["super"], ["B", "a"]], super⟩,
      ⟨[["b"], ["this"], ["super"], ["B", "a"]], assigned⟩] ∧
    (assigned.id, 3) ∈ table ∧ (super.id, 2) ∈ table ∧ ∀ distance, (above.id, distance) ∉ table := by
  let word (kind : Kind) (text : String) : Token := ⟨kind, text, 1⟩
  let assigned : Reference := ⟨3, word .identifier "a"⟩
  let super : Reference := ⟨2, word (.keyword .super) "super"⟩
  let above : Reference := ⟨0, word .identifier "A"⟩
  let method : FunctionDecl := ⟨word .identifier "m", [word .identifier "b"],
    [.expression (.assign assigned (.super super (word .identifier "m")))]⟩
  let program : List Stmt := [.block [.var (word .identifier "a") none,
    .classDecl (word .identifier "B") (some above) [method]]]
  have parsed : (Tree.parse (Source.tokens (Source.scan
      "\x7bvar a; class B < A \x7b m(b) \x7b a = super.m; \x7d \x7d \x7d")) 0).result =
      .ok program := by cbv
  have accepted : resolve program = .ok [(2, 2), (3, 3)] := rfl
  have places : stmtOccurrences [] program = [⟨[["B", "a"]], above⟩,
      ⟨[["b"], ["this"], ["super"], ["B", "a"]], super⟩,
      ⟨[["b"], ["this"], ["super"], ["B", "a"]], assigned⟩] := rfl
  obtain ⟨_, each⟩ := distance_nearest parsed accepted
  rw [places] at each
  refine ⟨_, program, _, assigned, super, above, rfl, parsed, accepted, places, ?_, ?_, ?_⟩
  · exact ((each ⟨[["b"], ["this"], ["super"], ["B", "a"]], assigned⟩ (by simp)).1 3).mpr
      (nearest_iff.mpr (by decide))
  · exact ((each ⟨[["b"], ["this"], ["super"], ["B", "a"]], super⟩ (by simp)).1 2).mpr
      (nearest_iff.mpr (by decide))
  · exact (each ⟨[["B", "a"]], above⟩ (by simp)).2.mpr (by decide)

end Resolution
end Lox
