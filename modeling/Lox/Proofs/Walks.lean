import Lox.Proofs.References
import Lox.Resolution

/-! A walk only adds to what it found and to what it complains of, and it leaves every scope as it
was but for the name that a statement binds in the innermost one. -/

namespace Lox.Resolution

/-- The innermost scope with a name marked as ready or not. -/
def marked (scopes : List (Bindings Bool)) (name : String) (ready : Bool) : List (Bindings Bool) :=
  match scopes with
  | [] => []
  | scope :: outer => scope.insert name ready :: outer

/-- The scopes after a statement. -/
def after (s : Stmt) (scopes : List (Bindings Bool)) : List (Bindings Bool) :=
  match s.declared? with
  | some name => marked scopes name.lexeme true
  | none => scopes

/-- What is found between two points belongs to given references. -/
structure Walk.Grows (ids : List Nat) (before after : Walk) : Prop where
  found : ∃ new, after.found = new ++ before.found ∧ ∀ entry ∈ new, entry.1 ∈ ids
  faults : ∃ more, after.faults = more ++ before.faults

/-- What a walk comes back with, whatever it went through. -/
structure Walk.Returns (before after : Walk) : Prop where
  functionRole : after.functionRole = before.functionRole
  classRole : after.classRole = before.classRole

/-- Not even the scopes are other ones. -/
structure Walk.Stays (before after : Walk) : Prop extends Returns before after where
  scopes : after.scopes = before.scopes

namespace Walk

variable {ids others : List Nat} {before middle after : Walk}

namespace Grows

theorem refl (walk : Walk) : Grows ids walk walk := ⟨⟨[], rfl, by simp⟩, ⟨[], rfl⟩⟩

theorem widen (grows : Grows ids before after) (subset : ids ⊆ others) :
    Grows others before after := by
  obtain ⟨⟨new, same, inside⟩, faults⟩ := grows
  exact ⟨⟨new, same, fun entry member => subset (inside entry member)⟩, faults⟩

theorem trans (first : Grows ids before middle) (second : Grows others middle after) :
    Grows (ids ++ others) before after := by
  obtain ⟨⟨new, same, inside⟩, more, faults⟩ := first
  obtain ⟨⟨newer, again, within⟩, last, complaints⟩ := second
  refine ⟨⟨newer ++ new, by rw [again, same, List.append_assoc], ?_⟩,
    ⟨last ++ more, by rw [complaints, faults, List.append_assoc]⟩⟩
  intro entry member
  rcases List.mem_append.mp member with member | member
  · exact List.mem_append_right _ (within entry member)
  · exact List.mem_append_left _ (inside entry member)

theorem append (first : Grows ids before middle) (second : Grows ids middle after) :
    Grows ids before after :=
  (first.trans second).widen (by simp)

/-- Nothing is found or complained of. -/
theorem still (found : after.found = before.found) (faults : after.faults = before.faults) :
    Grows ids before after := ⟨⟨[], found, by simp⟩, ⟨[], faults⟩⟩

theorem same {other : Walk} (grows : Grows ids before after) (found : other.found = after.found)
    (faults : other.faults = after.faults) : Grows ids before other := by
  obtain ⟨⟨new, earlier, inside⟩, more, complaints⟩ := grows
  exact ⟨⟨new, found.trans earlier, inside⟩, more, faults.trans complaints⟩

theorem clean (grows : Grows ids before after) (none : after.faults = []) : before.faults = [] := by
  obtain ⟨more, same⟩ := grows.faults
  rw [same] at none
  exact (List.append_eq_nil_iff.mp none).2

theorem lookup (grows : Grows ids before after) {id : Nat} (foreign : id ∉ ids) :
    after.found.lookup id = before.found.lookup id := by
  obtain ⟨new, same, inside⟩ := grows.found
  rw [same, List.lookup_append]
  have absent : new.lookup id = none := by
    rw [List.lookup_eq_none_iff]
    intro entry member
    have listed := inside entry member
    simp only [bne_iff_ne, ne_eq]
    rintro rfl
    exact foreign listed
  simp [absent]

end Grows

theorem grows_complain (walk : Walk) (fault : StaticFault) : Grows ids walk (walk.complain fault) :=
  ⟨⟨[], rfl, by simp⟩, ⟨[fault], rfl⟩⟩

theorem grows_complainIf (walk : Walk) (condition : Bool) (fault : StaticFault) :
    Grows ids walk (walk.complainIf condition fault) := by
  unfold complainIf
  split
  · exact grows_complain _ _
  · exact Grows.refl _

theorem grows_declare (walk : Walk) (name : Token) : Grows ids walk (walk.declare name) := by
  unfold declare
  split
  · exact Grows.refl _
  · split
    · exact grows_complain _ _
    · exact Grows.still rfl rfl

theorem grows_ready (walk : Walk) (name : Token) : Grows ids walk (walk.ready name) := by
  unfold ready
  split
  · exact Grows.refl _
  · exact Grows.still rfl rfl

theorem grows_bind (walk : Walk) (name : Token) : Grows ids walk (walk.bind name) :=
  (grows_declare walk name).append (grows_ready _ name)

theorem grows_refer (walk : Walk) (reference : Reference) :
    Grows [reference.id] walk (walk.refer reference) := by
  unfold refer
  split
  · exact ⟨⟨[_], rfl, by simp⟩, ⟨[], rfl⟩⟩
  · exact Grows.refl _

theorem grows_useVariable (walk : Walk) (reference : Reference) :
    Grows [reference.id] walk (walk.useVariable reference) :=
  (grows_complainIf _ _ _).append (grows_refer _ _)

theorem grows_useThis (walk : Walk) (reference : Reference) :
    Grows [reference.id] walk (walk.useThis reference) := by
  unfold useThis
  split
  · exact grows_complain _ _
  · exact grows_refer _ _

theorem grows_useSuper (walk : Walk) (reference : Reference) :
    Grows [reference.id] walk (walk.useSuper reference) := by
  unfold useSuper
  refine Grows.append ?_ (grows_refer _ _)
  split
  · exact grows_complain _ _
  · exact grows_complain _ _
  · exact Grows.refl _

theorem grows_useReturn (walk : Walk) (keyword : Token) (hasValue : Bool) :
    Grows ids walk (walk.useReturn keyword hasValue) :=
  (grows_complainIf _ _ _).append (grows_complainIf _ _ _)

/-! ### Scopes and roles -/

namespace Returns

theorem refl (walk : Walk) : Returns walk walk := ⟨rfl, rfl⟩

theorem trans (first : Returns before middle) (second : Returns middle after) :
    Returns before after :=
  ⟨second.functionRole.trans first.functionRole, second.classRole.trans first.classRole⟩

end Returns

namespace Stays

theorem refl (walk : Walk) : Stays walk walk := ⟨Returns.refl walk, rfl⟩

theorem trans (first : Stays before middle) (second : Stays middle after) : Stays before after :=
  ⟨first.toReturns.trans second.toReturns, second.scopes.trans first.scopes⟩

end Stays

theorem stays_complain (walk : Walk) (fault : StaticFault) : Stays walk (walk.complain fault) :=
  ⟨⟨rfl, rfl⟩, rfl⟩

theorem stays_complainIf (walk : Walk) (condition : Bool) (fault : StaticFault) :
    Stays walk (walk.complainIf condition fault) := by
  unfold complainIf
  split
  · exact stays_complain walk fault
  · exact Stays.refl walk

theorem stays_refer (walk : Walk) (reference : Reference) : Stays walk (walk.refer reference) := by
  unfold refer
  split
  · exact ⟨⟨rfl, rfl⟩, rfl⟩
  · exact Stays.refl walk

theorem stays_useVariable (walk : Walk) (reference : Reference) :
    Stays walk (walk.useVariable reference) :=
  (stays_complainIf _ _ _).trans (stays_refer _ _)

theorem stays_useThis (walk : Walk) (reference : Reference) :
    Stays walk (walk.useThis reference) := by
  unfold useThis
  split
  · exact stays_complain _ _
  · exact stays_refer _ _

theorem stays_useSuper (walk : Walk) (reference : Reference) :
    Stays walk (walk.useSuper reference) := by
  unfold useSuper
  refine Stays.trans ?_ (stays_refer _ _)
  split
  · exact stays_complain _ _
  · exact stays_complain _ _
  · exact Stays.refl _

theorem stays_useReturn (walk : Walk) (keyword : Token) (hasValue : Bool) :
    Stays walk (walk.useReturn keyword hasValue) :=
  (stays_complainIf _ _ _).trans (stays_complainIf _ _ _)

@[simp] theorem scopes_complain (walk : Walk) (fault : StaticFault) :
    (walk.complain fault).scopes = walk.scopes := rfl

@[simp] theorem scopes_complainIf (walk : Walk) (condition : Bool) (fault : StaticFault) :
    (walk.complainIf condition fault).scopes = walk.scopes :=
  (stays_complainIf walk condition fault).scopes

@[simp] theorem scopes_useVariable (walk : Walk) (reference : Reference) :
    (walk.useVariable reference).scopes = walk.scopes :=
  (stays_useVariable walk reference).scopes

@[simp] theorem scopes_useReturn (walk : Walk) (keyword : Token) (hasValue : Bool) :
    (walk.useReturn keyword hasValue).scopes = walk.scopes :=
  (stays_useReturn walk keyword hasValue).scopes

@[simp] theorem scopes_ready (walk : Walk) (name : Token) :
    (walk.ready name).scopes = marked walk.scopes name.lexeme true := by
  unfold ready marked
  cases shape : walk.scopes <;> simp [shape]

/-- A name that stands in no list of entries yet is put at the end, where it can be marked again. -/
theorem insert_insert (scope : Bindings Bool) (name : String) (first second : Bool) :
    (scope.insert name first).insert name second = scope.insert name second := by
  obtain ⟨entries⟩ := scope
  simp only [Bindings.insert, Bindings.mk.injEq]
  induction entries with
  | nil => simp [Bindings.put]
  | cons entry rest ih =>
    obtain ⟨key, old⟩ := entry
    by_cases same : name = key
    · simp [Bindings.put, same]
    · simp [Bindings.put, same, ih]

@[simp] theorem marked_marked (scopes : List (Bindings Bool)) (name : String)
    (first second : Bool) : marked (marked scopes name first) name second =
      marked scopes name second := by
  cases scopes with
  | nil => rfl
  | cons scope outer => simp [marked, insert_insert]

/-- Declared twice or once, a name is ready afterwards. -/
@[simp] theorem marked_declare (walk : Walk) (name : Token) :
    marked (walk.declare name).scopes name.lexeme true = marked walk.scopes name.lexeme true := by
  unfold declare
  cases shape : walk.scopes with
  | nil => simp [shape]
  | cons scope outer =>
    dsimp only
    split
    · simp [shape]
    · simp [marked, insert_insert]

@[simp] theorem scopes_bind (walk : Walk) (name : Token) :
    (walk.bind name).scopes = marked walk.scopes name.lexeme true := by
  simp [bind]

theorem returns_declare (walk : Walk) (name : Token) : Returns walk (walk.declare name) := by
  unfold declare
  split
  · exact Returns.refl _
  · split <;> exact ⟨rfl, rfl⟩

theorem returns_ready (walk : Walk) (name : Token) : Returns walk (walk.ready name) := by
  unfold ready
  split <;> exact ⟨rfl, rfl⟩

theorem returns_bind (walk : Walk) (name : Token) : Returns walk (walk.bind name) :=
  (returns_declare walk name).trans (returns_ready _ name)

end Walk

/-! ### Whole trees -/

open Walk

mutual

theorem visitExpr_grows (depth : Nat) :
    (e : Expr) → (walk : Walk) → Grows (identifiers (e.uses depth)) walk (visitExpr e walk)
  | .literal _, walk => Grows.refl walk
  | .unary _ operand, walk => visitExpr_grows depth operand walk
  | .binary left _ right, walk | .logical left _ right, walk => by
    simp only [Expr.uses, identifiers_append]
    exact (visitExpr_grows depth left walk).trans (visitExpr_grows depth right _)
  | .grouping inner, walk => visitExpr_grows depth inner walk
  | .variable reference, walk => grows_useVariable walk reference
  | .assign target value, walk => by
    simp only [Expr.uses, identifiers_append]
    exact (visitExpr_grows depth value walk).trans (grows_refer _ target)
  | .call callee _ arguments, walk => by
    simp only [Expr.uses, identifiers_append]
    exact (visitExpr_grows depth callee walk).trans (visitExprs_grows depth arguments _)
  | .get object _, walk => visitExpr_grows depth object walk
  | .set object _ value, walk => by
    simp only [Expr.uses, identifiers_append]
    refine ((visitExpr_grows depth value walk).trans (visitExpr_grows depth object _)).widen ?_
    exact List.perm_append_comm.subset
  | .this reference, walk => grows_useThis walk reference
  | .super reference _, walk => grows_useSuper walk reference

theorem visitExprs_grows (depth : Nat) :
    (es : List Expr) → (walk : Walk) →
      Grows (identifiers (exprUses depth es)) walk (visitExprs es walk)
  | [], walk => Grows.refl walk
  | first :: rest, walk => by
    simp only [exprUses, identifiers_append]
    exact (visitExpr_grows depth first walk).trans (visitExprs_grows depth rest _)

end

theorem visitExprIfAny_grows (depth : Nat) (e : Option Expr) (walk : Walk) :
    Grows (identifiers (optionalUses depth e)) walk (visitExprIfAny e walk) := by
  cases e with
  | none => exact Grows.refl walk
  | some e => exact visitExpr_grows depth e walk

mutual

theorem visitExpr_stays : (e : Expr) → (walk : Walk) → Stays walk (visitExpr e walk)
  | .literal _, walk => Stays.refl walk
  | .unary _ operand, walk => visitExpr_stays operand walk
  | .binary left _ right, walk | .logical left _ right, walk =>
    (visitExpr_stays left walk).trans (visitExpr_stays right _)
  | .grouping inner, walk => visitExpr_stays inner walk
  | .variable reference, walk => stays_useVariable walk reference
  | .assign target value, walk => (visitExpr_stays value walk).trans (stays_refer _ target)
  | .call callee _ arguments, walk =>
    (visitExpr_stays callee walk).trans (visitExprs_stays arguments _)
  | .get object _, walk => visitExpr_stays object walk
  | .set object _ value, walk => (visitExpr_stays value walk).trans (visitExpr_stays object _)
  | .this reference, walk => stays_useThis walk reference
  | .super reference _, walk => stays_useSuper walk reference

theorem visitExprs_stays : (es : List Expr) → (walk : Walk) → Stays walk (visitExprs es walk)
  | [], walk => Stays.refl walk
  | first :: rest, walk => (visitExpr_stays first walk).trans (visitExprs_stays rest _)

end

theorem visitExprIfAny_stays (e : Option Expr) (walk : Walk) :
    Stays walk (visitExprIfAny e walk) := by
  cases e with
  | none => exact Stays.refl walk
  | some e => exact visitExpr_stays e walk

@[simp] theorem scopes_visitExpr (e : Expr) (walk : Walk) :
    (visitExpr e walk).scopes = walk.scopes :=
  (visitExpr_stays e walk).scopes

@[simp] theorem scopes_visitExprIfAny (e : Option Expr) (walk : Walk) :
    (visitExprIfAny e walk).scopes = walk.scopes :=
  (visitExprIfAny_stays e walk).scopes

/-! ### Classes and functions -/

/-- The scope of a call, in which the parameters are ready. -/
def paramScope (params : List Token) : Bindings Bool :=
  params.foldl (fun scope param => scope.insert param.lexeme true) .empty

/-- The scopes a class puts around its methods. -/
def classScopes (superclass : Option Reference) : List (Bindings Bool) :=
  scopeOf thisName :: (superclass.map fun _ => scopeOf superName).toList

theorem scopes_binds (params : List Token) (walk : Walk) (scope : Bindings Bool)
    (outer : List (Bindings Bool)) (shape : walk.scopes = scope :: outer) :
    (params.foldl Walk.bind walk).scopes =
      params.foldl (fun scope param => scope.insert param.lexeme true) scope :: outer := by
  induction params generalizing walk scope with
  | nil => exact shape
  | cons param rest ih =>
    simp only [List.foldl_cons]
    apply ih
    rw [scopes_bind, shape, marked]

@[simp] theorem scopes_enterFunction (role : FunctionRole) (params : List Token) (walk : Walk) :
    (enterFunction role params walk).scopes = paramScope params :: walk.scopes :=
  scopes_binds params _ .empty walk.scopes rfl

@[simp] theorem scopes_enterClass (name : Token) (superclass : Option Reference) (walk : Walk) :
    (enterClass name superclass walk).scopes =
      classScopes superclass ++ marked walk.scopes name.lexeme true := by
  unfold enterClass
  cases superclass with
  | none => simp [Walk.enter, classScopes]
  | some reference => simp [Walk.enter, classScopes]

theorem grows_binds (params : List Token) (walk : Walk) {ids : List Nat} :
    Grows ids walk (params.foldl Walk.bind walk) := by
  induction params generalizing walk with
  | nil => exact Grows.refl walk
  | cons param rest ih => exact (grows_bind walk param).append (ih _)

theorem grows_enterFunction (role : FunctionRole) (params : List Token) (walk : Walk)
    {ids : List Nat} : Grows ids walk (enterFunction role params walk) := by
  have entered : Grows ids walk ({ walk with functionRole := role }.enter .empty) :=
    Grows.still rfl rfl
  exact entered.append (grows_binds params _)

theorem grows_enterClass (depth : Nat) (name : Token) (superclass : Option Reference)
    (walk : Walk) :
    Grows (identifiers (superclassUses depth superclass)) walk (enterClass name superclass walk) := by
  have plain : Grows (identifiers (superclassUses depth superclass)) walk
      { walk with classRole := .plain } := Grows.still rfl rfl
  have named := plain.append (grows_bind _ name)
  unfold enterClass
  cases superclass with
  | none => exact named.same rfl rfl
  | some reference =>
    let checked := ({ walk with classRole := .plain }.bind name).complainIf
      (reference.name.lexeme == name.lexeme)
      (.selfInheritance reference.name.lexeme reference.name.line)
    have derived : Grows [reference.id] walk { checked with classRole := .derived } :=
      (named.append (grows_complainIf _ _ _)).same rfl rfl
    exact (derived.append (grows_useVariable _ reference)).same rfl rfl

theorem grows_leaveClass (superclass : Option Reference) (before walk : Walk) {ids : List Nat} :
    Grows ids walk (leaveClass superclass before walk) := by
  unfold leaveClass
  dsimp only
  split <;> exact Grows.still rfl rfl

mutual

theorem visitStmt_grows (depth : Nat) :
    (s : Stmt) → (walk : Walk) → Grows (identifiers (s.uses depth)) walk (visitStmt s walk)
  | .expression e, walk => visitExpr_grows depth e walk
  | .print e, walk => visitExpr_grows depth e walk
  | .var name initializer, walk =>
    ((grows_declare walk name).append (visitExprIfAny_grows depth initializer _)).append
      (grows_ready _ name)
  | .block body, walk => by
    have entered : Grows (identifiers (stmtUses (depth + 1) body)) walk (walk.enter .empty) :=
      Grows.still rfl rfl
    have inside := entered.append (visitStmts_grows (depth + 1) body (walk.enter .empty))
    exact inside.append (Grows.still rfl rfl)
  | .conditional condition thenBranch elseBranch, walk => by
    simp only [Stmt.uses, identifiers_append]
    exact ((visitExpr_grows depth condition walk).trans (visitStmt_grows depth thenBranch _)).trans
      (visitStmtIfAny_grows depth elseBranch _)
  | .loop condition body, walk => by
    simp only [Stmt.uses, identifiers_append]
    exact (visitExpr_grows depth condition walk).trans (visitStmt_grows depth body _)
  | .function declaration, walk =>
    (grows_bind walk declaration.name).append (visitFunction_grows depth _ declaration _)
  | .ret keyword value, walk =>
    (grows_useReturn walk keyword _).append (visitExprIfAny_grows depth value _)
  | .classDecl name superclass methods, walk => by
    simp only [Stmt.uses, identifiers_append]
    refine ((grows_enterClass depth name superclass walk).trans
      (visitFunctions_grows (depth + classDepth superclass) methods _)).append ?_
    exact grows_leaveClass superclass walk _

theorem visitStmts_grows (depth : Nat) :
    (body : List Stmt) → (walk : Walk) →
      Grows (identifiers (stmtUses depth body)) walk (visitStmts body walk)
  | [], walk => Grows.refl walk
  | first :: rest, walk => by
    simp only [stmtUses, identifiers_append]
    exact (visitStmt_grows depth first walk).trans (visitStmts_grows depth rest _)

theorem visitStmtIfAny_grows (depth : Nat) :
    (s : Option Stmt) → (walk : Walk) →
      Grows (identifiers (branchUses depth s)) walk (visitStmtIfAny s walk)
  | none, walk => Grows.refl walk
  | some s, walk => visitStmt_grows depth s walk

theorem visitFunction_grows (depth : Nat) (role : FunctionRole) :
    (f : FunctionDecl) → (walk : Walk) →
      Grows (identifiers (f.uses depth)) walk (visitFunction role f walk)
  | ⟨_, params, body⟩, walk =>
    ((grows_enterFunction role params walk).append (visitStmts_grows (depth + 1) body _)).append
      (Grows.still rfl rfl)

theorem visitFunctions_grows (depth : Nat) :
    (fs : List FunctionDecl) → (walk : Walk) →
      Grows (identifiers (methodUses depth fs)) walk (visitFunctions fs walk)
  | [], walk => Grows.refl walk
  | first :: rest, walk => by
    simp only [methodUses, identifiers_append]
    exact (visitFunction_grows depth _ first walk).trans (visitFunctions_grows depth rest _)

end

theorem visitStmts_append (first second : List Stmt) (walk : Walk) :
    visitStmts (first ++ second) walk = visitStmts second (visitStmts first walk) := by
  induction first generalizing walk with
  | nil => rfl
  | cons s rest ih => exact ih (visitStmt s walk)

/-- The scopes after several statements. -/
def afterAll (body : List Stmt) (scopes : List (Bindings Bool)) : List (Bindings Bool) :=
  match body with
  | [] => scopes
  | first :: rest => afterAll rest (after first scopes)

@[simp] theorem tail_marked (scopes : List (Bindings Bool)) (name : String) (ready : Bool) :
    (marked scopes name ready).tail = scopes.tail := by
  cases scopes <;> rfl

theorem after_eq_self {s : Stmt} (none : s.declared? = none) (scopes : List (Bindings Bool)) :
    after s scopes = scopes := by
  simp [after, none]

/-- The scopes after the names of several declarations. -/
def markedAll (names : List Token) (scopes : List (Bindings Bool)) : List (Bindings Bool) :=
  names.foldl (fun scopes name => marked scopes name.lexeme true) scopes

@[simp] theorem markedAll_append (first second : List Token) (scopes : List (Bindings Bool)) :
    markedAll (first ++ second) scopes = markedAll second (markedAll first scopes) :=
  List.foldl_append

@[simp] theorem tail_markedAll (names : List Token) (scopes : List (Bindings Bool)) :
    (markedAll names scopes).tail = scopes.tail := by
  induction names generalizing scopes with
  | nil => rfl
  | cons name rest ih => exact (ih _).trans (tail_marked scopes name.lexeme true)

mutual

/-- Whatever is complained of, what is entered is left again. -/
theorem scopes_visited : (s : Stmt) → (walk : Walk) →
    (visitStmt s walk).scopes = markedAll s.declares walk.scopes
  | .expression e, walk => scopes_visitExpr e walk
  | .print e, walk => scopes_visitExpr e walk
  | .var name initializer, walk => by
    simp [visitStmt, Stmt.declares, markedAll]
  | .block body, walk => by
    simp only [visitStmt, leave, scopes_visitedAll body, tail_markedAll]
    rfl
  | .conditional condition thenBranch elseBranch, walk => by
    simp only [visitStmt, Stmt.declares, markedAll_append, scopes_visitedBranch elseBranch,
      scopes_visited thenBranch, scopes_visitExpr]
  | .loop condition body, walk => by
    simp only [visitStmt, Stmt.declares, scopes_visited body, scopes_visitExpr]
  | .function declaration, walk => by
    simp [visitStmt, Stmt.declares, markedAll, scopes_visitFunction _ declaration]
  | .ret keyword value, walk => by
    simp [visitStmt, Stmt.declares, markedAll]
  | .classDecl name superclass methods, walk => by
    have inside := scopes_visitFunctions methods (enterClass name superclass walk)
    cases superclass with
    | none =>
      simp [visitStmt, leaveClass, leave, inside, Stmt.declares, markedAll, classScopes]
    | some reference =>
      simp [visitStmt, leaveClass, leave, inside, Stmt.declares, markedAll, classScopes]

theorem scopes_visitedAll : (body : List Stmt) → (walk : Walk) →
    (visitStmts body walk).scopes = markedAll (body.flatMap Stmt.declares) walk.scopes
  | [], _ => rfl
  | first :: rest, walk => by
    simp only [visitStmts, List.flatMap_cons, markedAll_append, scopes_visitedAll rest,
      scopes_visited first]

theorem scopes_visitedBranch : (s : Option Stmt) → (walk : Walk) →
    (visitStmtIfAny s walk).scopes = markedAll (branchDeclares s) walk.scopes
  | none, _ => rfl
  | some s, walk => scopes_visited s walk

theorem scopes_visitFunction (role : FunctionRole) : (f : FunctionDecl) → (walk : Walk) →
    (visitFunction role f walk).scopes = walk.scopes
  | ⟨_, params, body⟩, walk => by
    simp [visitFunction, leaveFunction, leave, scopes_visitedAll body]

theorem scopes_visitFunctions : (fs : List FunctionDecl) → (walk : Walk) →
    (visitFunctions fs walk).scopes = walk.scopes
  | [], _ => rfl
  | first :: rest, walk => by
    rw [visitFunctions, scopes_visitFunctions rest, scopes_visitFunction _ first]

end

theorem scopes_visitStmt {good : Token → Prop} (s : Stmt) (proper : s.Proper good) (walk : Walk) :
    (visitStmt s walk).scopes = after s walk.scopes := by
  rw [scopes_visited, s.declares_eq proper, after]
  cases s.declared? <;> rfl

theorem returns_binds (params : List Token) (walk : Walk) :
    Returns walk (params.foldl Walk.bind walk) := by
  induction params generalizing walk with
  | nil => exact Returns.refl walk
  | cons param rest ih => exact (returns_bind walk param).trans (ih _)

theorem roles_enterClass (name : Token) (superclass : Option Reference) (walk : Walk) :
    (enterClass name superclass walk).functionRole = walk.functionRole ∧
      (enterClass name superclass walk).classRole =
        if superclass.isSome then .derived else .plain := by
  have named := returns_bind { walk with classRole := .plain } name
  unfold enterClass
  cases superclass with
  | none => exact ⟨named.functionRole, named.classRole⟩
  | some above =>
    have checked := named.trans (stays_complainIf ({ walk with classRole := .plain }.bind name)
      (above.name.lexeme == name.lexeme)
      (.selfInheritance above.name.lexeme above.name.line)).toReturns
    have used := stays_useVariable { (({ walk with classRole := .plain }.bind name).complainIf
      (above.name.lexeme == name.lexeme)
      (.selfInheritance above.name.lexeme above.name.line)) with classRole := .derived } above
    exact ⟨used.functionRole.trans checked.functionRole, used.classRole⟩

mutual

theorem visitStmt_returns : (s : Stmt) → (walk : Walk) → Returns walk (visitStmt s walk)
  | .expression e, walk | .print e, walk => (visitExpr_stays e walk).toReturns
  | .var name initializer, walk =>
    ((returns_declare walk name).trans (visitExprIfAny_stays initializer _).toReturns).trans
      (returns_ready _ name)
  | .block body, walk =>
    have inside := visitStmts_returns body (walk.enter .empty)
    ⟨inside.functionRole, inside.classRole⟩
  | .conditional condition thenBranch elseBranch, walk =>
    ((visitExpr_stays condition walk).toReturns.trans (visitStmt_returns thenBranch _)).trans
      (visitStmtIfAny_returns elseBranch _)
  | .loop condition body, walk =>
    (visitExpr_stays condition walk).toReturns.trans (visitStmt_returns body _)
  | .function declaration, walk =>
    (returns_bind walk declaration.name).trans (visitFunction_returns _ declaration _)
  | .ret keyword value, walk =>
    ((stays_useReturn walk keyword _).trans (visitExprIfAny_stays value _)).toReturns
  | .classDecl name superclass methods, walk => by
    have inside := visitFunctions_returns methods (enterClass name superclass walk)
    refine ⟨?_, rfl⟩
    rw [← (roles_enterClass name superclass walk).1, ← inside.functionRole]
    cases superclass <;> rfl

theorem visitStmts_returns : (body : List Stmt) → (walk : Walk) →
    Returns walk (visitStmts body walk)
  | [], walk => Returns.refl walk
  | first :: rest, walk => (visitStmt_returns first walk).trans (visitStmts_returns rest _)

theorem visitStmtIfAny_returns : (s : Option Stmt) → (walk : Walk) →
    Returns walk (visitStmtIfAny s walk)
  | none, walk => Returns.refl walk
  | some s, walk => visitStmt_returns s walk

theorem visitFunction_returns (role : FunctionRole) :
    (f : FunctionDecl) → (walk : Walk) → Returns walk (visitFunction role f walk)
  | ⟨_, params, body⟩, walk => by
    have inside := visitStmts_returns body (enterFunction role params walk)
    have entered := returns_binds params ({ walk with functionRole := role }.enter .empty)
    exact ⟨rfl, inside.classRole.trans entered.classRole⟩

theorem visitFunctions_returns : (fs : List FunctionDecl) → (walk : Walk) →
    Returns walk (visitFunctions fs walk)
  | [], walk => Returns.refl walk
  | first :: rest, walk =>
    (visitFunction_returns _ first walk).trans (visitFunctions_returns rest _)

end

end Lox.Resolution
