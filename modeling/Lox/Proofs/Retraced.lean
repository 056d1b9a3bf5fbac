import Lox.Proofs.Reparsed
import Lox.Resolution

/-! The walks over two programs that are alike, where no name is swapped. Whether or not the first is
accepted, the same is found and complained of, under the new numbers and on the new lines. -/

namespace Lox
namespace Likeness

open Resolution Walk

variable {L : Likeness} {base : List (Nat × Nat)} {marks : List Bool} {walk twin : Walk}
  {name name' : Token}

variable (L base) in
/-- The second walk may have found something before. -/
structure Retraced (walk twin : Walk) : Prop where
  scopes : twin.scopes = walk.scopes
  found : twin.found = walk.found.map (Prod.map L.number id) ++ base
  faults : List.Forall₂ (StaticFault.Moved L.line) walk.faults twin.faults
  functionRole : twin.functionRole = walk.functionRole
  classRole : twin.classRole = walk.classRole

variable (L) in
/-- No name is swapped. -/
def Unswapped : Prop := ∀ name, L.swap name = name

theorem Names.same {mark : Bool} (unswapped : L.Unswapped) (names : L.Names mark name name') :
    L.Same name name' := by
  refine ⟨names.kind, names.lexeme.trans ?_, names.line⟩
  cases mark with
  | false => rfl
  | true => exact unswapped _

theorem Refers.same (unswapped : L.Unswapped) {reference reference' : Reference}
    (refers : L.Refers marks reference reference') : L.Same reference.name reference'.name :=
  refers.names.same unswapped

/-! ### Steps of a walk -/

namespace Retraced

theorem complain (alike : L.Retraced base walk twin) {fault fault' : StaticFault}
    (moved : fault.Moved L.line fault') :
    L.Retraced base (walk.complain fault) (twin.complain fault') :=
  ⟨alike.scopes, alike.found, .cons moved alike.faults, alike.functionRole, alike.classRole⟩

theorem complainIf (alike : L.Retraced base walk twin) {condition condition' : Bool}
    (both : condition' = condition) {fault fault' : StaticFault}
    (moved : fault.Moved L.line fault') :
    L.Retraced base (walk.complainIf condition fault) (twin.complainIf condition' fault') := by
  unfold Walk.complainIf
  rw [both]
  split
  · exact alike.complain moved
  · exact alike

theorem withScopes (alike : L.Retraced base walk twin) (scopes : List (Bindings Bool)) :
    L.Retraced base { walk with scopes } { twin with scopes } :=
  ⟨rfl, alike.found, alike.faults, alike.functionRole, alike.classRole⟩

theorem enter (alike : L.Retraced base walk twin) (scope : Bindings Bool) :
    L.Retraced base (walk.enter scope) (twin.enter scope) := by
  unfold Walk.enter
  rw [alike.scopes]
  exact alike.withScopes _

theorem leave (alike : L.Retraced base walk twin) : L.Retraced base walk.leave twin.leave := by
  unfold Walk.leave
  rw [alike.scopes]
  exact alike.withScopes _

theorem inFunction (alike : L.Retraced base walk twin) (role : FunctionRole) :
    L.Retraced base { walk with functionRole := role } { twin with functionRole := role } :=
  ⟨alike.scopes, alike.found, alike.faults, rfl, alike.classRole⟩

theorem inClass (alike : L.Retraced base walk twin) (role : ClassRole) :
    L.Retraced base { walk with classRole := role } { twin with classRole := role } :=
  ⟨alike.scopes, alike.found, alike.faults, alike.functionRole, rfl⟩

theorem declare (alike : L.Retraced base walk twin) (same : L.Same name name') :
    L.Retraced base (walk.declare name) (twin.declare name') := by
  unfold Walk.declare
  rw [alike.scopes, same.lexeme]
  split
  · exact alike
  · split
    · exact alike.complain (.duplicateDeclaration _ same.line)
    · exact alike.withScopes _

theorem ready (alike : L.Retraced base walk twin) (same : L.Same name name') :
    L.Retraced base (walk.ready name) (twin.ready name') := by
  unfold Walk.ready
  rw [alike.scopes, same.lexeme]
  split
  · exact alike
  · exact alike.withScopes _

theorem bind (alike : L.Retraced base walk twin) (same : L.Same name name') :
    L.Retraced base (walk.bind name) (twin.bind name') :=
  (alike.declare same).ready same

theorem binds {params params' : List Token} (same : List.Forall₂ L.Same params params')
    {walk twin : Walk} (alike : L.Retraced base walk twin) :
    L.Retraced base (params.foldl Walk.bind walk) (params'.foldl Walk.bind twin) := by
  induction same generalizing walk twin with
  | nil => exact alike
  | cons here _ ih => exact ih (alike.bind here)

section References

variable {reference reference' : Reference}

theorem refer (alike : L.Retraced base walk twin) (number : reference'.id = L.number reference.id)
    (same : L.Same reference.name reference'.name) :
    L.Retraced base (walk.refer reference) (twin.refer reference') := by
  unfold Walk.refer Walk.distance?
  rw [alike.scopes, same.lexeme]
  split
  · refine ⟨rfl, ?_, alike.faults, alike.functionRole, alike.classRole⟩
    dsimp only
    rw [alike.found, number]
    rfl
  · exact alike

theorem useVariable (alike : L.Retraced base walk twin) (unswapped : L.Unswapped)
    (refers : L.Refers marks reference reference') :
    L.Retraced base (walk.useVariable reference) (twin.useVariable reference') := by
  have same := refers.same unswapped
  have pending : twin.isPending reference'.name.lexeme = walk.isPending reference.name.lexeme := by
    unfold Walk.isPending
    rw [alike.scopes, same.lexeme]
  have moved : (StaticFault.undefinedInInitializer reference.name.lexeme reference.name.line).Moved
      L.line (.undefinedInInitializer reference'.name.lexeme reference'.name.line) := by
    rw [same.lexeme]
    exact .undefinedInInitializer _ same.line
  exact (alike.complainIf pending moved).refer refers.id same

theorem useThis (alike : L.Retraced base walk twin) (unswapped : L.Unswapped)
    (refers : L.Refers marks reference reference') :
    L.Retraced base (walk.useThis reference) (twin.useThis reference') := by
  unfold Walk.useThis
  rw [alike.classRole]
  split
  · exact alike.complain (.thisOutsideClass (refers.same unswapped).line)
  · exact alike.refer refers.id (refers.same unswapped)

theorem useSuper (alike : L.Retraced base walk twin) (unswapped : L.Unswapped)
    (refers : L.Refers marks reference reference') :
    L.Retraced base (walk.useSuper reference) (twin.useSuper reference') := by
  have same := refers.same unswapped
  unfold Walk.useSuper
  rw [alike.classRole]
  cases walk.classRole with
  | none => exact (alike.complain (.superOutsideClass same.line)).refer refers.id same
  | plain => exact (alike.complain (.superWithoutSuperclass same.line)).refer refers.id same
  | derived => exact alike.refer refers.id same

end References

theorem useReturn {keyword keyword' : Token} (alike : L.Retraced base walk twin)
    (same : L.Same keyword keyword') (hasValue : Bool) :
    L.Retraced base (walk.useReturn keyword hasValue) (twin.useReturn keyword' hasValue) := by
  have outside : decide (twin.functionRole = .none) = decide (walk.functionRole = .none) := by
    rw [alike.functionRole]
  have checked := alike.complainIf outside (.returnOutsideFunction same.line)
  refine checked.complainIf ?_ (.returnValueInInitializer same.line)
  rw [alike.functionRole]

end Retraced

/-! ### Whole walks -/

mutual

theorem visitExpr_retraced (unswapped : L.Unswapped) {walk twin : Walk} : {e e' : Expr} →
    L.LikeExpr marks e e' → L.Retraced base walk twin →
      L.Retraced base (visitExpr e walk) (visitExpr e' twin)
  | _, _, .literal _, alike => alike
  | _, _, .unary _ operand, alike => by
    have inside := visitExpr_retraced unswapped operand alike
    exact inside
  | _, _, .binary left _ right, alike | _, _, .logical left _ right, alike => by
    have inside := visitExpr_retraced unswapped right (visitExpr_retraced unswapped left alike)
    exact inside
  | _, _, .grouping inner, alike => by
    have inside := visitExpr_retraced unswapped inner alike
    exact inside
  | _, _, .name refers, alike => alike.useVariable unswapped refers
  | _, _, .assign refers value, alike => by
    have inside := visitExpr_retraced unswapped value alike
    exact inside.refer refers.id (refers.same unswapped)
  | _, _, .call callee _ arguments, alike => by
    have inside := visitExprs_retraced unswapped arguments (visitExpr_retraced unswapped callee alike)
    exact inside
  | _, _, .get object _, alike => by
    have inside := visitExpr_retraced unswapped object alike
    exact inside
  | _, _, .set object _ value, alike => by
    have inside := visitExpr_retraced unswapped object (visitExpr_retraced unswapped value alike)
    exact inside
  | _, _, .this refers, alike => alike.useThis unswapped refers
  | _, _, .super refers _, alike => alike.useSuper unswapped refers

theorem visitExprs_retraced (unswapped : L.Unswapped) {walk twin : Walk} : {es es' : List Expr} →
    L.LikeExprs marks es es' → L.Retraced base walk twin →
      L.Retraced base (visitExprs es walk) (visitExprs es' twin)
  | _, _, .nil, alike => alike
  | _, _, .cons first rest, alike => by
    have inside := visitExprs_retraced unswapped rest (visitExpr_retraced unswapped first alike)
    exact inside

end

theorem visitExprIfAny_retraced (unswapped : L.Unswapped) {e e' : Option Expr}
    (like : L.LikeOptional marks e e') (alike : L.Retraced base walk twin) :
    L.Retraced base (visitExprIfAny e walk) (visitExprIfAny e' twin) := by
  cases like with
  | none => exact alike
  | some like => exact visitExpr_retraced unswapped like alike

theorem enterClass_retraced (unswapped : L.Unswapped) {superclass superclass' : Option Reference}
    (same : L.Same name name') (above : L.LikeSuperclass marks superclass superclass')
    (alike : L.Retraced base walk twin) :
    L.Retraced base (enterClass name superclass walk) (enterClass name' superclass' twin) := by
  have named := (alike.inClass .plain).bind same
  cases above with
  | none => exact named.enter _
  | @some reference reference' refers =>
    have shown := refers.same unswapped
    have both : (reference'.name.lexeme == name'.lexeme) = (reference.name.lexeme == name.lexeme) := by
      rw [shown.lexeme, same.lexeme]
    have moved : (StaticFault.selfInheritance reference.name.lexeme reference.name.line).Moved
        L.line (.selfInheritance reference'.name.lexeme reference'.name.line) := by
      rw [shown.lexeme]
      exact .selfInheritance _ shown.line
    have checked := (named.complainIf both moved).inClass .derived
    exact ((checked.useVariable unswapped refers).enter _).enter _

theorem leaveClass_retraced {superclass superclass' : Option Reference}
    (above : L.LikeSuperclass marks superclass superclass') {before before' : Walk}
    (outside : L.Retraced base before before') (alike : L.Retraced base walk twin) :
    L.Retraced base (leaveClass superclass before walk) (leaveClass superclass' before' twin) := by
  unfold leaveClass
  rw [outside.classRole]
  cases above with
  | none => exact alike.leave.inClass _
  | some _ => exact alike.leave.leave.inClass _

theorem methodRole_like {method method' : FunctionDecl}
    (like : L.LikeFunction marks method method') : methodRole method' = methodRole method := by
  cases like with
  | mk _ shown _ _ =>
    unfold methodRole FunctionDecl.isInitializer
    rw [shown.lexeme]

mutual

theorem visitStmt_retraced {marks : List Bool} (unswapped : L.Unswapped) : {s s' : Stmt} →
    L.LikeStmt marks s s' → {walk twin : Walk} → L.Retraced base walk twin →
      L.Retraced base (visitStmt s walk) (visitStmt s' twin)
  | _, _, .expression e, _, _, alike | _, _, .print e, _, _, alike =>
    visitExpr_retraced unswapped e alike
  | _, _, .var names initializer, _, _, alike => by
    have inside := visitExprIfAny_retraced unswapped initializer (alike.declare (names.same unswapped))
    exact inside.ready (names.same unswapped)
  | _, _, .block _ body, _, _, alike => by
    have inside := visitStmts_retraced unswapped body (alike.enter .empty)
    exact inside.leave
  | _, _, .conditional condition thenBranch elseBranch, _, _, alike => by
    have tested := visitExpr_retraced unswapped condition alike
    have inside := visitStmtIfAny_retraced unswapped elseBranch
      (visitStmt_retraced unswapped thenBranch tested)
    exact inside
  | _, _, .loop condition body, _, _, alike => by
    have inside := visitStmt_retraced unswapped body (visitExpr_retraced unswapped condition alike)
    exact inside
  | _, _, .function names function, _, _, alike => by
    have inside := visitFunction_retraced unswapped .function function (alike.bind (names.same unswapped))
    exact inside
  | .ret keyword value, .ret keyword' value', .ret same like, walk, twin, alike => by
    have both : value'.isSome = value.isSome := by cases like <;> rfl
    have returned : L.Retraced base (walk.useReturn keyword value.isSome)
        (twin.useReturn keyword' value'.isSome) := by
      rw [both]
      exact alike.useReturn same value.isSome
    exact visitExprIfAny_retraced unswapped like returned
  | _, _, .classDecl shown _ above like, _, _, alike => by
    have entered := enterClass_retraced unswapped shown above alike
    have inside := visitFunctions_retraced unswapped like entered
    exact leaveClass_retraced above alike inside

theorem visitStmts_retraced {marks : List Bool} (unswapped : L.Unswapped) : {body body' : List Stmt} →
    L.LikeStmts marks body body' → {walk twin : Walk} → L.Retraced base walk twin →
      L.Retraced base (visitStmts body walk) (visitStmts body' twin)
  | _, _, .nil, _, _, alike => alike
  | _, _, .cons first rest, _, _, alike => by
    have inside := visitStmts_retraced unswapped rest (visitStmt_retraced unswapped first alike)
    exact inside

theorem visitStmtIfAny_retraced {marks : List Bool} (unswapped : L.Unswapped) :
    {s s' : Option Stmt} → L.LikeBranch marks s s' → {walk twin : Walk} →
      L.Retraced base walk twin → L.Retraced base (visitStmtIfAny s walk) (visitStmtIfAny s' twin)
  | _, _, .none, _, _, alike => alike
  | _, _, .some like, _, _, alike => by
    have inside := visitStmt_retraced unswapped like alike
    exact inside

theorem visitFunction_retraced {marks : List Bool} (unswapped : L.Unswapped) (role : FunctionRole) :
    {f f' : FunctionDecl} → L.LikeFunction marks f f' → {walk twin : Walk} →
      L.Retraced base walk twin →
      L.Retraced base (visitFunction role f walk) (visitFunction role f' twin)
  | _, _, .mk _ _ names like, walk, _, alike => by
    have entered := ((alike.inFunction role).enter .empty).binds
      (names.imp fun _ _ named => named.same unswapped)
    have inside := visitStmts_retraced unswapped like entered
    have restored := inside.leave.inFunction walk.functionRole
    unfold visitFunction leaveFunction
    rw [alike.functionRole]
    exact restored

theorem visitFunctions_retraced {marks : List Bool} (unswapped : L.Unswapped) :
    {fs fs' : List FunctionDecl} → L.LikeFunctions marks fs fs' → {walk twin : Walk} →
      L.Retraced base walk twin → L.Retraced base (visitFunctions fs walk) (visitFunctions fs' twin)
  | _, _, .nil, _, _, alike => alike
  | first :: _, _, .cons like rest, _, _, alike => by
    have inside := visitFunctions_retraced unswapped rest
      (visitFunction_retraced unswapped (methodRole first) like alike)
    unfold visitFunctions
    rw [methodRole_like like]
    exact inside

end

theorem Retraced.start : L.Retraced [] .start .start :=
  ⟨rfl, rfl, .nil, rfl, rfl⟩

/-- Programs that are alike are accepted or refused alike. -/
theorem resolve_retraced (unswapped : L.Unswapped) {program program' : List Stmt}
    (like : L.LikeStmts marks program program') :
    (∃ table, resolve program = .ok table ∧
      resolve program' = .ok (table.map (Prod.map L.number id))) ∨
    ∃ faults faults', resolve program = .error faults ∧ resolve program' = .error faults' ∧
      List.Forall₂ (StaticFault.Moved L.line) faults faults' := by
  have alike := visitStmts_retraced unswapped like .start
  have faults := alike.faults
  unfold resolve
  dsimp only
  rw [alike.found, List.append_nil, ← List.map_reverse]
  generalize (visitStmts program Walk.start).faults = first,
    (visitStmts program' Walk.start).faults = second at faults ⊢
  cases faults with
  | nil => exact .inl ⟨_, rfl, rfl⟩
  | cons moved rest =>
    exact .inr ⟨_, _, rfl, rfl, List.rel_reverse (.cons moved rest)⟩

end Likeness
end Lox
