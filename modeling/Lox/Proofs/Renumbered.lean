import Lox.Proofs.Refused

/-! Programs that are the same but for the numbers of their references. -/

namespace Lox

def Reference.renumber (f : Nat → Nat) (reference : Reference) : Reference :=
  ⟨f reference.id, reference.name⟩

mutual

/-- The same expression with other numbers. -/
def Expr.renumber (f : Nat → Nat) : Expr → Expr
  | .literal literal => .literal literal
  | .unary operator operand => .unary operator (operand.renumber f)
  | .binary left operator right => .binary (left.renumber f) operator (right.renumber f)
  | .logical left operator right => .logical (left.renumber f) operator (right.renumber f)
  | .grouping inner => .grouping (inner.renumber f)
  | .variable reference => .variable (reference.renumber f)
  | .assign target value => .assign (target.renumber f) (value.renumber f)
  | .call callee paren arguments => .call (callee.renumber f) paren (renumberExprs f arguments)
  | .get object name => .get (object.renumber f) name
  | .set object name value => .set (object.renumber f) name (value.renumber f)
  | .this reference => .this (reference.renumber f)
  | .super reference method => .super (reference.renumber f) method

def renumberExprs (f : Nat → Nat) : List Expr → List Expr
  | [] => []
  | first :: rest => first.renumber f :: renumberExprs f rest

end

mutual

/-- The same statement with other numbers. -/
def Stmt.renumber (f : Nat → Nat) : Stmt → Stmt
  | .expression e => .expression (e.renumber f)
  | .print e => .print (e.renumber f)
  | .var name initializer => .var name (initializer.map (Expr.renumber f))
  | .block body => .block (renumberStmts f body)
  | .conditional condition thenBranch elseBranch =>
    .conditional (condition.renumber f) (thenBranch.renumber f) (renumberBranch f elseBranch)
  | .loop condition body => .loop (condition.renumber f) (body.renumber f)
  | .function declaration => .function (declaration.renumber f)
  | .ret keyword value => .ret keyword (value.map (Expr.renumber f))
  | .classDecl name superclass methods =>
    .classDecl name (superclass.map (Reference.renumber f)) (renumberFunctions f methods)

def renumberStmts (f : Nat → Nat) : List Stmt → List Stmt
  | [] => []
  | first :: rest => first.renumber f :: renumberStmts f rest

def renumberBranch (f : Nat → Nat) : Option Stmt → Option Stmt
  | none => none
  | some s => some (s.renumber f)

def FunctionDecl.renumber (f : Nat → Nat) : FunctionDecl → FunctionDecl
  | ⟨name, params, body⟩ => ⟨name, params, renumberStmts f body⟩

def renumberFunctions (f : Nat → Nat) : List FunctionDecl → List FunctionDecl
  | [] => []
  | first :: rest => first.renumber f :: renumberFunctions f rest

end

/-- Two runs of numbers, one right after the other, change places. -/
def exchanged (start left right id : Nat) : Nat :=
  if id < start then id
  else if id < start + left then id + right
  else if id < start + left + right then id - left
  else id

theorem exchanged_exchanged (start left right id : Nat) :
    exchanged start right left (exchanged start left right id) = id := by
  unfold exchanged
  split_ifs <;> omega

def exchange (start left right : Nat) : Equiv.Perm Nat where
  toFun := exchanged start left right
  invFun := exchanged start right left
  left_inv := exchanged_exchanged start left right
  right_inv := exchanged_exchanged start right left

section Exchange

variable {start left right id : Nat}

theorem exchange_below (below : id < start) : exchange start left right id = id := if_pos below

theorem exchange_left (above : start ≤ id) (below : id < start + left) :
    exchange start left right id = id + right := by
  change exchanged start left right id = id + right
  rw [exchanged, if_neg (Nat.not_lt.mpr above), if_pos below]

theorem exchange_right (above : start + left ≤ id) (below : id < start + left + right) :
    exchange start left right id = id - left := by
  change exchanged start left right id = id - left
  rw [exchanged, if_neg (by omega), if_neg (Nat.not_lt.mpr above), if_pos below]

theorem exchange_above (above : start + left + right ≤ id) : exchange start left right id = id := by
  change exchanged start left right id = id
  rw [exchanged, if_neg (by omega), if_neg (by omega), if_neg (Nat.not_lt.mpr above)]

end Exchange

namespace Likeness

variable {f g : Nat → Nat} {table : Nat → Option Nat} {marks : List Bool}

/-- The numbers are changed, and nothing else is. -/
abbrev renumbering (f : Nat → Nat) (table : Nat → Option Nat) : Likeness :=
  unswapped Eq Eq.refl f table

theorem renumbering_names (mark : Bool) (name : Token) : (renumbering f table).Names mark name name := by
  refine ⟨rfl, ?_, rfl⟩
  cases mark <;> rfl

theorem Same.eq {token token' : Token} (same : (renumbering f table).Same token token') :
    token' = token := by
  obtain ⟨kind, lexeme, line⟩ := token
  obtain ⟨rfl, rfl, rfl⟩ := same
  rfl

theorem Names.eq {mark : Bool} {name name' : Token}
    (names : (renumbering f table).Names mark name name') : name' = name :=
  (names.same fun _ => rfl).eq

/-! ### A program and itself under other numbers -/

theorem renumber_refers (reference : Reference) :
    (renumbering f table).Refers marks reference (reference.renumber f) :=
  ⟨rfl, renumbering_names _ _⟩

mutual

theorem LikeExpr.renumber : (e : Expr) → (renumbering f table).LikeExpr marks e (e.renumber f)
  | .literal literal => .literal literal
  | .unary operator operand => .unary (.refl operator) (LikeExpr.renumber operand)
  | .binary left operator right =>
    .binary (LikeExpr.renumber left) (.refl operator) (LikeExpr.renumber right)
  | .logical left operator right =>
    .logical (LikeExpr.renumber left) (.refl operator) (LikeExpr.renumber right)
  | .grouping inner => .grouping (LikeExpr.renumber inner)
  | .variable reference => .name (renumber_refers reference)
  | .assign target value => .assign (renumber_refers target) (LikeExpr.renumber value)
  | .call callee paren arguments =>
    .call (LikeExpr.renumber callee) (.refl paren) (LikeExprs.renumber arguments)
  | .get object name => .get (LikeExpr.renumber object) (.refl name)
  | .set object name value => .set (LikeExpr.renumber object) (.refl name) (LikeExpr.renumber value)
  | .this reference => .this (renumber_refers reference)
  | .super reference method => .super (renumber_refers reference) (.refl method)

theorem LikeExprs.renumber :
    (es : List Expr) → (renumbering f table).LikeExprs marks es (renumberExprs f es)
  | [] => .nil
  | first :: rest => .cons (LikeExpr.renumber first) (LikeExprs.renumber rest)

end

theorem LikeOptional.renumber :
    (e : Option Expr) → (renumbering f table).LikeOptional marks e (e.map (Expr.renumber f))
  | .none => .none
  | .some e => .some (.renumber e)

theorem LikeSuperclass.renumber : (superclass : Option Reference) →
    (renumbering f table).LikeSuperclass marks superclass (superclass.map (Reference.renumber f))
  | .none => .none
  | .some reference => .some (renumber_refers reference)

mutual

theorem LikeStmt.renumber {marks : List Bool} :
    (s : Stmt) → (renumbering f table).LikeStmt marks s (s.renumber f)
  | .expression e => .expression (.renumber e)
  | .print e => .print (.renumber e)
  | .var name initializer => .var (renumbering_names _ name) (.renumber initializer)
  | .block body => .block false (LikeStmts.renumber body)
  | .conditional condition thenBranch elseBranch =>
    .conditional (.renumber condition) (LikeStmt.renumber thenBranch)
      (LikeBranch.renumber elseBranch)
  | .loop condition body => .loop (.renumber condition) (LikeStmt.renumber body)
  | .function ⟨name, params, body⟩ =>
    .function (renumbering_names _ name) (LikeFunction.renumber ⟨name, params, body⟩)
  | .ret keyword value => .ret (.refl keyword) (.renumber value)
  | .classDecl name superclass methods =>
    .classDecl (.refl name) (renumbering_names _ name) (.renumber superclass)
      (LikeFunctions.renumber methods)

theorem LikeStmts.renumber {marks : List Bool} :
    (body : List Stmt) → (renumbering f table).LikeStmts marks body (renumberStmts f body)
  | [] => .nil
  | first :: rest => .cons (LikeStmt.renumber first) (LikeStmts.renumber rest)

theorem LikeBranch.renumber {marks : List Bool} :
    (s : Option Stmt) → (renumbering f table).LikeBranch marks s (renumberBranch f s)
  | .none => .none
  | .some s => .some (LikeStmt.renumber s)

theorem LikeFunction.renumber {marks : List Bool} : (declaration : FunctionDecl) →
    (renumbering f table).LikeFunction marks declaration (declaration.renumber f)
  | ⟨name, _, body⟩ =>
    .mk false (.refl name)
      (List.forall₂_same.mpr fun param _ => renumbering_names false param)
      (LikeStmts.renumber body)

theorem LikeFunctions.renumber {marks : List Bool} : (methods : List FunctionDecl) →
    (renumbering f table).LikeFunctions marks methods (renumberFunctions f methods)
  | [] => .nil
  | first :: rest => .cons (LikeFunction.renumber first) (LikeFunctions.renumber rest)

end

/-! ### Programs that are alike -/

/-- Two ways to number agree on these references. -/
def Agrees (f g : Nat → Nat) (uses : List Use) : Prop := ∀ use ∈ uses, g use.id = f use.id

theorem Agrees.left {uses others : List Use} (agrees : Agrees f g (uses ++ others)) :
    Agrees f g uses :=
  fun use member => agrees use (List.mem_append_left _ member)

theorem Agrees.right {uses others : List Use} (agrees : Agrees f g (uses ++ others)) :
    Agrees f g others :=
  fun use member => agrees use (List.mem_append_right _ member)

theorem Refers.renumbered {reference reference' : Reference} {depth : Nat} {writes : Bool}
    (refers : (renumbering g table).Refers marks reference reference')
    (agrees : Agrees f g [⟨depth, writes, reference⟩]) : reference' = reference.renumber f := by
  obtain ⟨id, name⟩ := reference'
  obtain ⟨number, names⟩ := refers
  have same : g reference.id = f reference.id := agrees _ (List.mem_singleton.mpr rfl)
  exact congrArg₂ Reference.mk (number.trans same) names.eq

mutual

theorem LikeExpr.renumbered {depth : Nat} : {e e' : Expr} →
    (renumbering g table).LikeExpr marks e e' → Agrees f g (e.uses depth) → e' = e.renumber f
  | _, _, .literal _, _ => rfl
  | _, _, .unary operator operand, agrees =>
    congrArg₂ Expr.unary operator.eq (LikeExpr.renumbered operand agrees)
  | _, _, .binary left operator right, agrees => by
    rw [LikeExpr.renumbered left agrees.left, operator.eq, LikeExpr.renumbered right agrees.right,
      Expr.renumber]
  | _, _, .logical left operator right, agrees => by
    rw [LikeExpr.renumbered left agrees.left, operator.eq, LikeExpr.renumbered right agrees.right,
      Expr.renumber]
  | _, _, .grouping inner, agrees => congrArg Expr.grouping (LikeExpr.renumbered inner agrees)
  | _, _, .name refers, agrees => congrArg Expr.variable (refers.renumbered agrees)
  | _, _, .assign target value, agrees =>
    congrArg₂ Expr.assign (target.renumbered agrees.right) (LikeExpr.renumbered value agrees.left)
  | _, _, .call callee paren arguments, agrees => by
    rw [LikeExpr.renumbered callee agrees.left, paren.eq, LikeExprs.renumbered arguments agrees.right,
      Expr.renumber]
  | _, _, .get object name, agrees =>
    congrArg₂ Expr.get (LikeExpr.renumbered object agrees) name.eq
  | _, _, .set object name value, agrees => by
    rw [LikeExpr.renumbered object agrees.left, name.eq, LikeExpr.renumbered value agrees.right,
      Expr.renumber]
  | _, _, .this refers, agrees => congrArg Expr.this (refers.renumbered agrees)
  | _, _, .super refers method, agrees =>
    congrArg₂ Expr.super (refers.renumbered agrees) method.eq

theorem LikeExprs.renumbered {depth : Nat} : {es es' : List Expr} →
    (renumbering g table).LikeExprs marks es es' → Agrees f g (exprUses depth es) →
      es' = renumberExprs f es
  | _, _, .nil, _ => rfl
  | _, _, .cons first rest, agrees =>
    congrArg₂ List.cons (LikeExpr.renumbered first agrees.left)
      (LikeExprs.renumbered rest agrees.right)

end

theorem LikeOptional.renumbered {depth : Nat} {e e' : Option Expr}
    (like : (renumbering g table).LikeOptional marks e e')
    (agrees : Agrees f g (optionalUses depth e)) : e' = e.map (Expr.renumber f) := by
  cases like with
  | none => rfl
  | some like => exact congrArg Option.some (like.renumbered agrees)

theorem LikeSuperclass.renumbered {depth : Nat} {superclass superclass' : Option Reference}
    (like : (renumbering g table).LikeSuperclass marks superclass superclass')
    (agrees : Agrees f g (superclassUses depth superclass)) :
    superclass' = superclass.map (Reference.renumber f) := by
  cases like with
  | none => rfl
  | some refers => exact congrArg Option.some (refers.renumbered agrees)

theorem params_eq {mark : Bool} {params params' : List Token}
    (names : List.Forall₂ ((renumbering f table).Names mark) params params') : params' = params := by
  induction names with
  | nil => rfl
  | cons first _ ih => exact congrArg₂ List.cons first.eq ih

mutual

theorem LikeStmt.renumbered {marks : List Bool} {depth : Nat} : {s s' : Stmt} →
    (renumbering g table).LikeStmt marks s s' → Agrees f g (s.uses depth) → s' = s.renumber f
  | _, _, .expression e, agrees => congrArg Stmt.expression (e.renumbered agrees)
  | _, _, .print e, agrees => congrArg Stmt.print (e.renumbered agrees)
  | _, _, .var names initializer, agrees =>
    congrArg₂ Stmt.var names.eq (initializer.renumbered agrees)
  | _, _, .block _ body, agrees => congrArg Stmt.block (LikeStmts.renumbered body agrees)
  | _, _, .conditional condition thenBranch elseBranch, agrees => by
    rw [condition.renumbered agrees.left.left, LikeStmt.renumbered thenBranch agrees.left.right,
      LikeBranch.renumbered elseBranch agrees.right, Stmt.renumber]
  | _, _, .loop condition body, agrees =>
    congrArg₂ Stmt.loop (condition.renumbered agrees.left) (LikeStmt.renumbered body agrees.right)
  | _, _, .function _ like, agrees =>
    congrArg Stmt.function (LikeFunction.renumbered like agrees)
  | _, _, .ret same value, agrees => congrArg₂ Stmt.ret same.eq (value.renumbered agrees)
  | _, _, .classDecl same _ superclass methods, agrees => by
    rw [same.eq, superclass.renumbered agrees.left, LikeFunctions.renumbered methods agrees.right,
      Stmt.renumber]

theorem LikeStmts.renumbered {marks : List Bool} {depth : Nat} : {body body' : List Stmt} →
    (renumbering g table).LikeStmts marks body body' → Agrees f g (stmtUses depth body) →
      body' = renumberStmts f body
  | _, _, .nil, _ => rfl
  | _, _, .cons first rest, agrees =>
    congrArg₂ List.cons (LikeStmt.renumbered first agrees.left)
      (LikeStmts.renumbered rest agrees.right)

theorem LikeBranch.renumbered {marks : List Bool} {depth : Nat} : {s s' : Option Stmt} →
    (renumbering g table).LikeBranch marks s s' → Agrees f g (branchUses depth s) →
      s' = renumberBranch f s
  | _, _, .none, _ => rfl
  | _, _, .some like, agrees => congrArg Option.some (LikeStmt.renumbered like agrees)

theorem LikeFunction.renumbered {marks : List Bool} {depth : Nat} :
    {declaration declaration' : FunctionDecl} →
    (renumbering g table).LikeFunction marks declaration declaration' →
      Agrees f g (declaration.uses depth) → declaration' = declaration.renumber f
  | _, _, .mk _ same params body, agrees => by
    rw [same.eq, params_eq params, LikeStmts.renumbered body agrees, FunctionDecl.renumber]

theorem LikeFunctions.renumbered {marks : List Bool} {depth : Nat} :
    {methods methods' : List FunctionDecl} →
    (renumbering g table).LikeFunctions marks methods methods' →
      Agrees f g (methodUses depth methods) → methods' = renumberFunctions f methods
  | _, _, .nil, _ => rfl
  | _, _, .cons first rest, agrees =>
    congrArg₂ List.cons (LikeFunction.renumbered first agrees.left)
      (LikeFunctions.renumbered rest agrees.right)

end

/-! ### Numbers that are not changed -/

theorem renumber_fixed {depth : Nat} {s : Stmt} (fixed : ∀ use ∈ s.uses depth, f use.id = use.id) :
    s.renumber f = s := by
  have itself : (renumbering f fun _ => none).LikeStmt [] s s :=
    .refl (fun _ => List.not_mem_nil.elim) s fixed
  have agrees : Agrees f f (s.uses depth) := fun _ _ => rfl
  exact (itself.renumbered agrees).symm

theorem renumberExpr_fixed {depth : Nat} {e : Expr}
    (fixed : ∀ use ∈ e.uses depth, f use.id = use.id) : e.renumber f = e := by
  have itself : (renumbering f fun _ => none).LikeExpr [] e e :=
    .refl (fun _ => List.not_mem_nil.elim) e fixed
  have agrees : Agrees f f (e.uses depth) := fun _ _ => rfl
  exact (itself.renumbered agrees).symm

end Likeness

open Machine Resolution Likeness

/-! ### Walks and runs -/

/-- The walk finds the same distances under the other numbers, or complains of the same things. -/
theorem resolve_renumber (f : Nat → Nat) (program : List Stmt) :
    resolve (renumberStmts f program) = (resolve program).map (List.map (Prod.map f id)) := by
  have like : (renumbering f fun _ => none).LikeStmts [] program (renumberStmts f program) :=
    .renumber program
  rcases resolve_retraced (fun _ => rfl) like with ⟨found, accepted, again⟩ |
    ⟨faults, faults', refused, again, moved⟩
  · rw [accepted, again]
    rfl
  · have same : faults' = faults := by
      clear refused again
      induction moved with
      | nil => rfl
      | cons here _ ih => rw [here.eq, ih]
    rw [refused, again, same]
    rfl

/-- A function made from the same declaration with other numbers. -/
def Function.Renumbered (f : Nat → Nat) (first second : Function) : Prop :=
  second = { first with declaration := first.declaration.renumber f }

theorem Likeness.Twins.renumbered {f : Nat → Nat} {table : Nat → Option Nat}
    {inner flags : List Bool} {first second : Function}
    (twins : (renumbering f table).Twins inner flags first second) : first.Renumbered f second := by
  obtain ⟨_, _, alike⟩ := twins.declared
  obtain ⟨identity, declaration, closure, isInitializer⟩ := second
  have same : declaration = first.declaration.renumber f :=
    alike.renumbered (fun _ _ => rfl : Agrees f f (first.declaration.uses 0))
  have identities := twins.identity
  have closures := twins.closure
  have initializers := twins.isInitializer
  dsimp only at identities closures initializers
  rw [Function.Renumbered, same, identities, closures, initializers]

theorem Likeness.LikeValue.renumbered {f : Nat → Nat} {table : Nat → Option Nat} {flags : List Bool}
    {first second : Value} (alike : (renumbering f table).LikeValue flags first second) :
    first.Like (Function.Renumbered f) (Function.Renumbered f) second :=
  alike.imp (fun _ _ twins => twins.renumbered) fun _ _ twins => twins.renumbered

/-- How two runs of one program under different numbers end: they have printed the same, they were
stopped by the same fault or by none, and the globals have the same names and values, but for the
numbers in the functions that the program made. -/
structure EndsAlike (f : Nat → Nat) (first second : Signal × State) : Prop where
  output : second.2.output = first.2.output
  outcome : second.1.faults = first.1.faults
  names : second.2.store.names globals = first.2.store.names globals
  values : ∀ name, Option.Rel (Value.Like (Function.Renumbered f) (Function.Renumbered f))
    (first.2.store.get? globals name) (second.2.store.get? globals name)

theorem Likeness.LikeEnding.endsAlike {f : Nat → Nat} {table : Nat → Option Nat} {flags : List Bool}
    {next : Nat} {first second : Signal × State}
    (alike : (renumbering f table).LikeEnding flags next first second) : EndsAlike f first second := by
  obtain ⟨signal, state⟩ := alike
  refine ⟨state.output, ?_, Session.LikeState.names state, fun name => ?_⟩
  · generalize first.1 = ended, second.1 = ended' at signal ⊢
    cases signal with
    | done _ | returned _ => rfl
    | failed fault => rw [fault.eq (fun _ => rfl) fun _ _ same => same]
  · have found := state.store.lookup? state.rooted name
    rw [Session.get?_globals, Session.get?_globals]
    exact rel_imp found fun _ _ like => LikeValue.renumbered like

/-- Both have the distances of earlier texts on record, and each has those of its own. -/
theorem recorded_renumbered {session : Session} (rests : session.machine.Rests session.nextId)
    {f : Nat → Nat} (injective : Function.Injective f) (old : ∀ use < session.nextId, f use = use)
    (entries : List (Nat × Nat)) (use : Nat) :
    (session.machine.record (entries.map (Prod.map f id))).distances[f use]? =
      (session.machine.record entries).distances[use]? := by
  have kept : session.machine.distances[f use]? = session.machine.distances[use]? := by
    by_cases below : use < session.nextId
    · rw [old use below]
    · have above : ¬f use < session.nextId :=
        fun earlier => below (injective (old _ earlier) ▸ earlier)
      rw [rests.unused use (Nat.not_lt.mp below), rests.unused _ (Nat.not_lt.mp above)]
  rw [State.distances_record, State.distances_record, lookup_renumbered injective, kept]

/-- A program and itself under numbers that were not used before, each with the distances that were
found for it, run alike from one state. -/
theorem runs_renumber {session : Session} (reached : Reachable Discreet (.idle session))
    {f : Nat → Nat} (injective : Function.Injective f) (old : ∀ id < session.nextId, f id = id)
    {next : Nat} {program : List Stmt} (up : session.nextId ≤ next)
    (read : stmtsRead Token.Genuine session.nextId next program)
    {entries : List (Nat × Nat)} (resolved : resolve program = .ok entries) (steps : Nat) :
    Option.Rel (EndsAlike f)
      (Machine.run steps (interpreting program (session.machine.record entries)))
      (Machine.run steps (interpreting (renumberStmts f program)
        (session.machine.record (entries.map (Prod.map f id))))) := by
  let after : Session := ⟨session.machine.record entries, session.report, next⟩
  have prepared : session.Prepared after "" entries (some program) := by
    refine ⟨rfl, up, resolve_within read resolved, fun body same => ?_⟩
    cases same
    exact ⟨read, resolved⟩
  have before := reached.honest.fits
  have rests := prepared.rests before
  have trees := prepared.resolved before.unused
  have itself : (renumbering f fun id => after.machine.distances[id]?).LikeState
      (unmarked session.machine.store) session.nextId session.machine session.machine :=
    .refl old before.sound before.rooted reached.discreet fun id below =>
      (prepared.extends.distance id below).symm
  have state := itself.record (fun id (_ : id < next) =>
    And.intro rfl (recorded_renumbered before injective old entries id))
  have config := state.interpret before.atGlobals (LikeStmts.renumber program)
  refine rel_imp (config.run (rests.interpreting trees) steps) fun _ _ ends => ?_
  obtain ⟨_, ending⟩ := ends
  exact ending.endsAlike

end Lox
