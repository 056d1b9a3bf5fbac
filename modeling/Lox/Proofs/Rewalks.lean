import Lox.Proofs.Accepted
import Lox.Proofs.Retraced
import Lox.Proofs.Twins

/-! The walks over two programs that are alike. If the first is accepted so is the second, and the same
distances are found, provided that no name is swapped for one that the first program has. -/

namespace Lox
namespace Likeness

open Resolution Walk

variable {L : Likeness} {old : String → Prop} {base : List (Nat × Nat)} {marks : List Bool}
  {mark : Bool} {records : Records} {walk twin : Walk}

variable (L old) in
/-- Names are swapped for new ones. -/
structure Avoids : Prop where
  this : old thisName
  super : old superName
  apart : ∀ name, old name → L.swap name = name ∨ ¬old (L.swap name)

variable (L) in
/-- The global scope has a mark, but the walk keeps no scope for it. -/
inductive LikeScopes : List Bool → List (Bindings Bool) → List (Bindings Bool) → Prop
  | globals {mark : Bool} : LikeScopes [mark] [] []
  | inside {mark : Bool} {marks : List Bool} {scope scope' : Bindings Bool}
      {outer outer' : List (Bindings Bool)} :
      Bindings.Like (L.named mark) Eq scope scope' → LikeScopes marks outer outer' →
      LikeScopes (mark :: marks) (scope :: outer) (scope' :: outer')

variable (L old base) in
/-- The second walk may have found something before. -/
structure LikeWalk (marks : List Bool) (walk twin : Walk) : Prop where
  scopes : L.LikeScopes marks walk.scopes twin.scopes
  known : ∀ scope ∈ walk.scopes, ∀ name, scope.contains name → old name
  found : twin.found = walk.found.map (Prod.map L.number id) ++ base
  clean : twin.faults = []
  functionRole : twin.functionRole = walk.functionRole
  classRole : twin.classRole = walk.classRole

/-! ### Scopes -/

theorem named_named (mark : Bool) (name : String) : L.named mark (L.named mark name) = name := by
  cases mark with
  | false => rfl
  | true => exact L.swap_swap name

theorem find?_like {scope scope' : Bindings Bool}
    (alike : Bindings.Like (L.named mark) Eq scope scope') (name : String) :
    scope'.find? name = scope.find? (L.named mark name) := by
  have found := alike.find? (L.named mark name)
  rw [named_named] at found
  generalize scope.find? (L.named mark name) = first, scope'.find? name = second at found ⊢
  cases found with
  | none => rfl
  | some same => rw [same]

/-- A name that is swapped in one scope is nowhere in a scope with another mark. -/
theorem find?_other {scope scope' : Bindings Bool} (avoids : L.Avoids old)
    (alike : Bindings.Like (L.named mark) Eq scope scope')
    (known : ∀ name, scope.contains name → old name) {name : String} (given : old name)
    (other : Bool) (unready : scope.find? name ≠ some other) :
    ∀ otherMark, scope'.find? (L.named otherMark name) ≠ some other := by
  intro otherMark found
  rw [find?_like alike] at found
  have swapped : scope.find? (L.swap name) ≠ some other := by
    intro bound
    rcases avoids.apart name given with still | new
    · rw [still] at bound
      exact unready bound
    · refine new (known _ ?_)
      rw [Bindings.contains, bound]
      rfl
  cases mark <;> cases otherMark
  · exact unready found
  · exact swapped found
  · exact swapped found
  · rw [named_named] at found
    exact unready found

theorem contains_other {scope scope' : Bindings Bool} (avoids : L.Avoids old)
    (alike : Bindings.Like (L.named mark) Eq scope scope')
    (known : ∀ name, scope.contains name → old name) {name : String} (given : old name)
    (absent : scope.contains name = false) (otherMark : Bool) :
    scope'.contains (L.named otherMark name) = false := by
  have nowhere : scope.find? name = none :=
    Option.not_isSome_iff_eq_none.mp (by simpa [Bindings.contains] using absent)
  unfold Bindings.contains
  cases found : scope'.find? (L.named otherMark name) with
  | none => rfl
  | some ready =>
    exact absurd found (find?_other avoids alike known given ready (by simp [nowhere]) otherMark)

theorem LikeScopes.distance {scopes scopes' : List (Bindings Bool)} (avoids : L.Avoids old)
    (alike : L.LikeScopes marks scopes scopes')
    (known : ∀ scope ∈ scopes, ∀ name, scope.contains name → old name) {name : String}
    (given : old name)
    (marked : ∀ distance, distanceIn scopes name = some distance → marks[distance]? = some mark) :
    distanceIn scopes' (L.named mark name) = distanceIn scopes name := by
  induction alike with
  | globals => rfl
  | @inside here marks scope scope' outer outer' like _ ih =>
    have knownHere := known scope List.mem_cons_self
    rw [distanceIn_cons, distanceIn_cons]
    cases bound : scope.contains name with
    | true =>
      have same : here = mark := by
        have there := marked 0 (by rw [distanceIn_cons, if_pos bound])
        exact Option.some.inj there
      have bound' : scope'.contains (L.named mark name) = true := by
        rw [Bindings.contains, find?_like like, same, named_named]
        exact bound
      rw [if_pos bound', if_pos rfl]
    | false =>
      have absent := contains_other avoids like knownHere given bound mark
      have further : distanceIn outer' (L.named mark name) = distanceIn outer name := by
        refine ih (fun scope member => known scope (List.mem_cons_of_mem _ member)) ?_
        intro distance found
        have there := marked (distance + 1) (by rw [distanceIn_cons, bound, found]; rfl)
        exact there
      rw [absent, further]

theorem LikeScopes.length {scopes scopes' : List (Bindings Bool)}
    (alike : L.LikeScopes marks scopes scopes') : marks.length = scopes.length + 1 := by
  induction alike with
  | globals => rfl
  | inside _ _ ih => simp [ih]

theorem LikeScopes.enclosed {scopes scopes' : List (Bindings Bool)}
    (alike : L.LikeScopes marks scopes scopes') : marks ≠ [] := by
  cases alike <;> simp

theorem LikeScopes.leave {inner inner' : List (Bindings Bool)}
    (inside : L.LikeScopes (mark :: marks) inner inner') (enclosed : marks ≠ []) :
    L.LikeScopes marks inner.tail inner'.tail := by
  cases inside with
  | globals => exact absurd rfl enclosed
  | inside _ outer => exact outer

/-! ### Steps of a walk -/

theorem LikeWalk.refer (avoids : L.Avoids old) (table : L.table = records.distance?)
    (alike : L.LikeWalk old base marks walk twin) {reference reference' : Reference}
    (refers : L.Refers marks reference reference') (known : old reference.name.lexeme)
    (due : Due records [reference.id] walk (walk.refer reference)) :
    L.LikeWalk old base marks (walk.refer reference) (twin.refer reference') := by
  have recorded : L.table reference.id = distanceIn walk.scopes reference.name.lexeme := by
    rw [table]
    exact recorded_refer due
  have same : twin.distance? reference'.name.lexeme = walk.distance? reference.name.lexeme := by
    rw [refers.names.lexeme]
    refine alike.scopes.distance avoids alike.known known ?_
    intro distance found
    have below : distance < marks.length := by
      have inside := (List.findIdx?_eq_some_iff_getElem.mp found).1
      have length := alike.scopes.length
      omega
    have there := List.getElem?_eq_getElem below
    rw [there, markOf_of_table (recorded.trans found) there]
  unfold Walk.refer
  rw [same, refers.id]
  cases walk.distance? reference.name.lexeme with
  | none => exact alike
  | some distance =>
    exact ⟨alike.scopes, alike.known, by simp [alike.found], alike.clean, alike.functionRole,
      alike.classRole⟩

theorem LikeWalk.isPending (avoids : L.Avoids old) (alike : L.LikeWalk old base marks walk twin)
    {name : String} (known : old name) (settled : walk.isPending name = false) (mark : Bool) :
    twin.isPending (L.named mark name) = false := by
  obtain ⟨scopes, inside, _⟩ := alike
  unfold Walk.isPending at settled ⊢
  generalize walk.scopes = first, twin.scopes = second at scopes inside settled ⊢
  cases scopes with
  | globals => rfl
  | inside like _ =>
    have unready := find?_other avoids like (inside _ List.mem_cons_self) known false
      (by simpa using settled) mark
    simpa using unready

theorem LikeWalk.useVariable (avoids : L.Avoids old) (table : L.table = records.distance?)
    (alike : L.LikeWalk old base marks walk twin) {reference reference' : Reference}
    (refers : L.Refers marks reference reference') (known : old reference.name.lexeme)
    (due : Due records [reference.id] walk (walk.useVariable reference)) :
    L.LikeWalk old base marks (walk.useVariable reference) (twin.useVariable reference') := by
  unfold Walk.useVariable at due ⊢
  dsimp only at due
  have quiet := complainIf_clean ((faults_refer _ reference).symm.trans due.clean)
  have quiet' := alike.isPending avoids known quiet (L.markOf marks reference.id)
  rw [← refers.names.lexeme] at quiet'
  simp only [quiet, quiet', Walk.complainIf] at due ⊢
  exact alike.refer avoids table refers known due

theorem LikeWalk.useThis (avoids : L.Avoids old) (table : L.table = records.distance?)
    (alike : L.LikeWalk old base marks walk twin) {reference reference' : Reference}
    (refers : L.Refers marks reference reference') (known : old reference.name.lexeme)
    (due : Due records [reference.id] walk (walk.useThis reference)) :
    L.LikeWalk old base marks (walk.useThis reference) (twin.useThis reference') := by
  unfold Walk.useThis at due ⊢
  rw [alike.classRole]
  by_cases outside : walk.classRole = .none
  · rw [if_pos outside] at due
    exact absurd due.clean (by simp [Walk.complain])
  · rw [if_neg outside] at due ⊢
    rw [if_neg outside]
    exact alike.refer avoids table refers known due

theorem LikeWalk.useSuper (avoids : L.Avoids old) (table : L.table = records.distance?)
    (alike : L.LikeWalk old base marks walk twin) {reference reference' : Reference}
    (refers : L.Refers marks reference reference') (known : old reference.name.lexeme)
    (due : Due records [reference.id] walk (walk.useSuper reference)) :
    L.LikeWalk old base marks (walk.useSuper reference) (twin.useSuper reference') := by
  unfold Walk.useSuper at due ⊢
  have clean := (faults_refer _ reference).symm.trans due.clean
  rw [alike.classRole]
  cases role : walk.classRole with
  | none => simp [role, Walk.complain] at clean
  | plain => simp [role, Walk.complain] at clean
  | derived =>
    simp only [role] at due
    exact alike.refer avoids table refers known due

theorem LikeWalk.useReturn (alike : L.LikeWalk old base marks walk twin)
    {keyword keyword' : Token} (hasValue : Bool)
    (clean : (walk.useReturn keyword hasValue).faults = []) :
    L.LikeWalk old base marks (walk.useReturn keyword hasValue)
      (twin.useReturn keyword' hasValue) := by
  have second := complainIf_clean clean
  let checked := walk.complainIf (walk.functionRole = .none) (.returnOutsideFunction keyword.line)
  have grows : Grows [] checked (walk.useReturn keyword hasValue) := grows_complainIf checked _ _
  have first := complainIf_clean (grows.clean clean)
  unfold Walk.useReturn
  rw [alike.functionRole]
  simp only [first, second, Walk.complainIf]
  exact alike

theorem LikeWalk.declare {name name' : Token} (alike : L.LikeWalk old base marks walk twin)
    (names : L.Names (innermost marks) name name') (known : old name.lexeme)
    (clean : (walk.declare name).faults = []) :
    L.LikeWalk old base marks (walk.declare name) (twin.declare name') := by
  obtain ⟨scopes, inside, found, quiet, functionRole, classRole⟩ := alike
  unfold Walk.declare at clean ⊢
  obtain ⟨first, _, _, _, _⟩ := walk
  obtain ⟨second, _, _, _, _⟩ := twin
  cases scopes with
  | globals => exact ⟨.globals, inside, found, quiet, functionRole, classRole⟩
  | @inside mark outer scope scope' _ _ like around =>
    dsimp only at clean inside ⊢
    have lexeme : name'.lexeme = L.named mark name.lexeme := names.lexeme
    have same : scope'.contains name'.lexeme = scope.contains name.lexeme := by
      rw [lexeme, Bindings.contains, find?_like like, named_named]
      rfl
    rw [same]
    split
    · rename_i bound
      rw [if_pos bound] at clean
      cases clean
    · refine ⟨.inside ?_ around, ?_, found, quiet, functionRole, classRole⟩
      · rw [lexeme]
        exact like.insert (L.named_injective mark) _ rfl
      · intro other member name bound
        rcases List.mem_cons.mp member with here | there
        · subst here
          rw [contains_insert] at bound
          rcases Bool.or_eq_true_iff.mp bound with equal | before
          · exact eq_of_beq equal ▸ known
          · exact inside scope List.mem_cons_self name before
        · exact inside other (List.mem_cons_of_mem _ there) name bound

theorem LikeWalk.ready {name name' : Token} (alike : L.LikeWalk old base marks walk twin)
    (names : L.Names (innermost marks) name name') (known : old name.lexeme) :
    L.LikeWalk old base marks (walk.ready name) (twin.ready name') := by
  obtain ⟨scopes, inside, found, quiet, functionRole, classRole⟩ := alike
  unfold Walk.ready
  obtain ⟨first, _, _, _, _⟩ := walk
  obtain ⟨second, _, _, _, _⟩ := twin
  cases scopes with
  | globals => exact ⟨.globals, inside, found, quiet, functionRole, classRole⟩
  | @inside mark outer scope scope' _ _ like around =>
    have lexeme : name'.lexeme = L.named mark name.lexeme := names.lexeme
    refine ⟨.inside ?_ around, ?_, found, quiet, functionRole, classRole⟩
    · rw [lexeme]
      exact like.insert (L.named_injective mark) _ rfl
    · intro other member name bound
      rcases List.mem_cons.mp member with here | there
      · subst here
        rw [contains_insert] at bound
        rcases Bool.or_eq_true_iff.mp bound with equal | before
        · exact eq_of_beq equal ▸ known
        · exact inside scope List.mem_cons_self name before
      · exact inside other (List.mem_cons_of_mem _ there) name bound

theorem LikeWalk.bind {name name' : Token} (alike : L.LikeWalk old base marks walk twin)
    (names : L.Names (innermost marks) name name') (known : old name.lexeme)
    (clean : (walk.bind name).faults = []) :
    L.LikeWalk old base marks (walk.bind name) (twin.bind name') := by
  have grows : Grows [] (walk.declare name) (walk.bind name) := grows_ready _ name
  exact (alike.declare names known (grows.clean clean)).ready names known

theorem LikeWalk.binds {params params' : List Token} (names : List.Forall₂ (L.Names mark) params params')
    (known : ∀ param ∈ params, old param.lexeme) {walk twin : Walk}
    (alike : L.LikeWalk old base (mark :: marks) walk twin)
    (clean : (params.foldl Walk.bind walk).faults = []) :
    L.LikeWalk old base (mark :: marks) (params.foldl Walk.bind walk)
      (params'.foldl Walk.bind twin) := by
  induction names generalizing walk twin with
  | nil => exact alike
  | @cons param param' rest rest' name _ ih =>
    have grows : Grows [] (walk.bind param) (rest.foldl Walk.bind (walk.bind param)) :=
      grows_binds rest _
    have bound := alike.bind name (known param List.mem_cons_self) (grows.clean clean)
    exact ih (fun other among => known other (List.mem_cons_of_mem _ among)) bound clean

theorem LikeWalk.enter (alike : L.LikeWalk old base marks walk twin) (mark : Bool)
    {scope scope' : Bindings Bool} (like : Bindings.Like (L.named mark) Eq scope scope')
    (known : ∀ name, scope.contains name → old name) :
    L.LikeWalk old base (mark :: marks) (walk.enter scope) (twin.enter scope') := by
  refine ⟨.inside like alike.scopes, ?_, alike.found, alike.clean, alike.functionRole,
    alike.classRole⟩
  intro other member
  rcases List.mem_cons.mp member with here | there
  · exact here ▸ known
  · exact alike.known other there

theorem LikeWalk.enterEmpty (alike : L.LikeWalk old base marks walk twin) (mark : Bool) :
    L.LikeWalk old base (mark :: marks) (walk.enter .empty) (twin.enter .empty) :=
  alike.enter mark .empty (by simp [Bindings.contains])

theorem LikeWalk.enterScopeOf (alike : L.LikeWalk old base marks walk twin) {name : String}
    (known : old name) :
    L.LikeWalk old base (false :: marks) (walk.enter (scopeOf name))
      (twin.enter (scopeOf name)) := by
  refine alike.enter false ?_ ?_
  · exact Bindings.Like.empty.insert (L.named_injective false) name rfl
  · intro other bound
    rw [Bindings.contains, find?_scopeOf] at bound
    by_cases same : other = name
    · exact same ▸ known
    · simp [same] at bound

theorem LikeWalk.leave (inside : L.LikeWalk old base (mark :: marks) walk twin)
    (enclosed : marks ≠ []) :
    L.LikeWalk old base marks walk.leave twin.leave :=
  ⟨inside.scopes.leave enclosed,
    fun scope member => inside.known scope (List.mem_of_mem_tail member), inside.found,
    inside.clean, inside.functionRole, inside.classRole⟩

theorem LikeWalk.inFunction (alike : L.LikeWalk old base marks walk twin) (role : FunctionRole) :
    L.LikeWalk old base marks { walk with functionRole := role }
      { twin with functionRole := role } :=
  ⟨alike.scopes, alike.known, alike.found, alike.clean, rfl, alike.classRole⟩

theorem LikeWalk.inClass (alike : L.LikeWalk old base marks walk twin) (role : ClassRole) :
    L.LikeWalk old base marks { walk with classRole := role } { twin with classRole := role } :=
  ⟨alike.scopes, alike.known, alike.found, alike.clean, alike.functionRole, rfl⟩

/-! ### Expressions -/

section Trees

variable {good : Token → Prop}

mutual

theorem visitExpr_like (avoids : L.Avoids old) (table : L.table = records.distance?)
    (known : ∀ token, good token → old token.lexeme) (depth : Nat) {walk twin : Walk} :
    {e e' : Expr} → L.LikeExpr marks e e' → e.Proper good → L.LikeWalk old base marks walk twin →
      Due records (identifiers (e.uses depth)) walk (visitExpr e walk) →
        L.LikeWalk old base marks (visitExpr e walk) (visitExpr e' twin)
  | _, _, .literal _, _, alike, _ => alike
  | _, _, .unary _ operand, proper, alike, due => by
    have inside := visitExpr_like avoids table known depth operand proper alike due
    exact inside
  | _, _, .binary left _ right, proper, alike, due
  | _, _, .logical left _ right, proper, alike, due => by
    simp only [Expr.uses, identifiers_append] at due
    obtain ⟨first, second⟩ := due.split (visitExpr_grows depth _ walk) (visitExpr_grows depth _ _)
    have middle := visitExpr_like avoids table known depth left proper.1 alike first
    have last := visitExpr_like avoids table known depth right proper.2 middle second
    exact last
  | _, _, .grouping inner, proper, alike, due => by
    have inside := visitExpr_like avoids table known depth inner proper alike due
    exact inside
  | _, _, .name refers, proper, alike, due =>
    alike.useVariable avoids table refers (known _ proper.2) due
  | _, _, .assign refers value, proper, alike, due => by
    simp only [Expr.uses, identifiers_append] at due
    obtain ⟨first, second⟩ := due.split (visitExpr_grows depth _ walk) (grows_refer _ _)
    have middle := visitExpr_like avoids table known depth value proper.2 alike first
    exact middle.refer avoids table refers (known _ proper.1.2) second
  | _, _, .call callee _ arguments, proper, alike, due => by
    simp only [Expr.uses, identifiers_append] at due
    obtain ⟨first, second⟩ := due.split (visitExpr_grows depth _ walk) (visitExprs_grows depth _ _)
    have middle := visitExpr_like avoids table known depth callee proper.1 alike first
    have last := visitExprs_like avoids table known depth arguments proper.2 middle second
    exact last
  | _, _, .get object _, proper, alike, due => by
    have inside := visitExpr_like avoids table known depth object proper alike due
    exact inside
  | _, _, .set object _ value, proper, alike, due => by
    simp only [Expr.uses, identifiers_append] at due
    obtain ⟨first, second⟩ :=
      due.swap.split (visitExpr_grows depth _ walk) (visitExpr_grows depth _ _)
    have middle := visitExpr_like avoids table known depth value proper.2 alike first
    have last := visitExpr_like avoids table known depth object proper.1 middle second
    exact last
  | _, _, .this refers, proper, alike, due =>
    alike.useThis avoids table refers (known _ proper.2) due
  | _, _, .super refers _, proper, alike, due =>
    alike.useSuper avoids table refers (known _ proper.2) due

theorem visitExprs_like (avoids : L.Avoids old) (table : L.table = records.distance?)
    (known : ∀ token, good token → old token.lexeme) (depth : Nat) {walk twin : Walk} :
    {es es' : List Expr} → L.LikeExprs marks es es' → exprsProper good es →
      L.LikeWalk old base marks walk twin →
      Due records (identifiers (exprUses depth es)) walk (visitExprs es walk) →
        L.LikeWalk old base marks (visitExprs es walk) (visitExprs es' twin)
  | _, _, .nil, _, alike, _ => alike
  | _, _, .cons first rest, proper, alike, due => by
    simp only [exprUses, identifiers_append] at due
    obtain ⟨here, there⟩ := due.split (visitExpr_grows depth _ walk) (visitExprs_grows depth _ _)
    have middle := visitExpr_like avoids table known depth first proper.1 alike here
    have last := visitExprs_like avoids table known depth rest proper.2 middle there
    exact last

end

theorem visitExprIfAny_like (avoids : L.Avoids old) (table : L.table = records.distance?)
    (known : ∀ token, good token → old token.lexeme) (depth : Nat) {e e' : Option Expr}
    (like : L.LikeOptional marks e e') (proper : optionalProper good e)
    (alike : L.LikeWalk old base marks walk twin)
    (due : Due records (identifiers (optionalUses depth e)) walk (visitExprIfAny e walk)) :
    L.LikeWalk old base marks (visitExprIfAny e walk) (visitExprIfAny e' twin) := by
  cases like with
  | none => exact alike
  | some like => exact visitExpr_like avoids table known depth like proper alike due

/-! ### Statements -/

/-- No name becomes the name of the class it is the superclass of. -/
theorem apart_swapped (avoids : L.Avoids old) {above name : String} (given : old above)
    (known : old name) (apart : above ≠ name) (mark : Bool) : L.named mark above ≠ name := by
  intro same
  cases mark with
  | false => exact apart same
  | true =>
    rcases avoids.apart above given with still | new
    · exact apart (still.symm.trans same)
    · refine new ?_
      rw [show L.swap above = name from same]
      exact known

theorem enterClass_like (avoids : L.Avoids old) (table : L.table = records.distance?) {depth : Nat}
    {name name' : Token} {superclass superclass' : Option Reference} (shown : L.Same name name')
    (names : L.Names (innermost marks) name name')
    (above : L.LikeSuperclass marks superclass superclass') (known : old name.lexeme)
    (knownAbove : ∀ reference, superclass = some reference → old reference.name.lexeme)
    (alike : L.LikeWalk old base marks walk twin)
    (due : Due records (identifiers (superclassUses depth superclass)) walk
      (enterClass name superclass walk)) :
    L.LikeWalk old base (classMarks superclass ++ marks) (enterClass name superclass walk)
      (enterClass name' superclass' twin) := by
  have inside : L.LikeWalk old base marks { walk with classRole := .plain }
      { twin with classRole := .plain } := alike.inClass .plain
  cases above with
  | none => exact (inside.bind names known due.clean).enterScopeOf avoids.this
  | @some reference reference' refers =>
    let named := { walk with classRole := .plain }.bind name
    let checked := named.complainIf (reference.name.lexeme == name.lexeme)
      (.selfInheritance reference.name.lexeme reference.name.line)
    let derived := { checked with classRole := .derived }
    have found : derived.found = walk.found :=
      (found_complainIf _ _ _).trans (found_bind { walk with classRole := .plain } name)
    have used : Due records [reference.id] derived (derived.useVariable reference) :=
      due.within found rfl (Grows.still rfl rfl)
    have checkedClean : checked.faults = [] := (grows_useVariable derived reference).clean used.clean
    have grows : Grows [] named checked := grows_complainIf named _ _
    have bound := inside.bind names known (grows.clean checkedClean)
    have notSame := complainIf_clean checkedClean
    have given := knownAbove reference rfl
    have notSame' : (reference'.name.lexeme == name'.lexeme) = false := by
      rw [shown.lexeme, refers.names.lexeme]
      exact beq_false_of_ne (apart_swapped avoids given known (ne_of_beq_false notSame) _)
    unfold enterClass
    simp only [checked, derived, named, notSame, Walk.complainIf] at used
    simp only [notSame, notSame', Walk.complainIf]
    have looked := (bound.inClass .derived).useVariable avoids table refers given used
    exact (looked.enterScopeOf avoids.super).enterScopeOf avoids.this

theorem leaveClass_like {superclass superclass' : Option Reference}
    (above : L.LikeSuperclass marks superclass superclass') {before before' : Walk}
    (outside : L.LikeWalk old base marks before before')
    (inside : L.LikeWalk old base (classMarks superclass ++ marks) walk twin) :
    L.LikeWalk old base marks (leaveClass superclass before walk)
      (leaveClass superclass' before' twin) := by
  have enclosed := outside.scopes.enclosed
  unfold leaveClass
  rw [outside.classRole]
  cases above with
  | none => exact (LikeWalk.leave inside enclosed).inClass _
  | some =>
    have once : L.LikeWalk old base (false :: marks) walk.leave twin.leave :=
      LikeWalk.leave inside (List.cons_ne_nil _ _)
    exact (once.leave enclosed).inClass _

mutual

theorem visitStmt_like (avoids : L.Avoids old) (table : L.table = records.distance?)
    (known : ∀ token, good token → old token.lexeme) (depth : Nat) {marks : List Bool} :
    {s s' : Stmt} → L.LikeStmt marks s s' → s.Proper good → {walk twin : Walk} →
      L.LikeWalk old base marks walk twin →
      Due records (identifiers (s.uses depth)) walk (visitStmt s walk) →
        L.LikeWalk old base marks (visitStmt s walk) (visitStmt s' twin)
  | _, _, .expression e, proper, _, _, alike, due | _, _, .print e, proper, _, _, alike, due =>
    visitExpr_like avoids table known depth e proper alike due
  | .var name initial, _, .var names initializer, proper, walk, _, alike, due => by
    have inside : Due records (identifiers (optionalUses depth initial)) (walk.declare name)
        (visitExprIfAny initial (walk.declare name)) :=
      due.within (found_declare walk name) (found_ready _ name) (grows_ready _ name)
    have clean := (visitExprIfAny_grows depth initial _).clean inside.clean
    have named := known _ proper.1.2
    have declared := alike.declare names named clean
    have valued := visitExprIfAny_like avoids table known depth initializer proper.2 declared inside
    exact valued.ready names named
  | _, _, .block mark body, proper, walk, _, alike, due => by
    have inside := visitStmts_like avoids table known (depth + 1) body proper
      (alike.enterEmpty mark) (due.within rfl rfl (Grows.still rfl rfl))
    exact inside.leave alike.scopes.enclosed
  | .conditional test consequence _, _, .conditional condition thenBranch elseBranch, proper, walk,
      _, alike, due => by
    simp only [Stmt.uses, identifiers_append] at due
    have first := visitExpr_grows depth test walk
    have second := visitStmt_grows depth consequence (visitExpr test walk)
    obtain ⟨both, last⟩ := due.split (first.trans second) (visitStmtIfAny_grows depth _ _)
    obtain ⟨here, there⟩ := both.split first second
    have tested := visitExpr_like avoids table known depth condition proper.1 alike here
    have chosen := visitStmt_like avoids table known depth thenBranch proper.2.1.1 tested there
    have other := visitStmtIfAny_like avoids table known depth elseBranch proper.2.2 chosen last
    exact other
  | _, _, .loop condition body, proper, walk, _, alike, due => by
    simp only [Stmt.uses, identifiers_append] at due
    obtain ⟨here, there⟩ := due.split (visitExpr_grows depth _ walk) (visitStmt_grows depth _ _)
    have tested := visitExpr_like avoids table known depth condition proper.1 alike here
    have last := visitStmt_like avoids table known depth body proper.2.1 tested there
    exact last
  | .function declaration, _, .function names function, proper, walk, _, alike, due => by
    have inside : Due records (identifiers (declaration.uses depth)) (walk.bind declaration.name)
        (visitFunction .function declaration (walk.bind declaration.name)) :=
      due.within (found_bind walk _) rfl (Grows.refl _)
    have clean := (visitFunction_grows depth .function declaration _).clean inside.clean
    have bound := alike.bind names (known _ (named_of_proper declaration proper).2) clean
    have last := visitFunction_like avoids table known depth .function function proper bound inside
    exact last
  | .ret keyword value, .ret keyword' value', .ret _ like, proper, walk, twin, alike, due => by
    have found : (walk.useReturn keyword value.isSome).found = walk.found :=
      (found_complainIf _ _ _).trans (found_complainIf _ _ _)
    have inside : Due records (identifiers (optionalUses depth value))
        (walk.useReturn keyword value.isSome)
        (visitExprIfAny value (walk.useReturn keyword value.isSome)) :=
      due.within found rfl (Grows.refl _)
    have clean := (visitExprIfAny_grows depth value _).clean inside.clean
    have both : value'.isSome = value.isSome := by cases like <;> rfl
    have returned : L.LikeWalk old base marks (walk.useReturn keyword value.isSome)
        (twin.useReturn keyword' value'.isSome) := by
      rw [both]
      exact alike.useReturn value.isSome clean
    have given := visitExprIfAny_like avoids table known depth like proper returned inside
    exact given
  | .classDecl name superclass methods, _, .classDecl shown names above like, proper, walk, _,
      alike, due => by
    simp only [Stmt.uses, identifiers_append] at due
    let entered := enterClass name superclass walk
    have whole : Due records (identifiers (superclassUses depth superclass) ++
        identifiers (methodUses (depth + classDepth superclass) methods)) walk
        (visitFunctions methods entered) := due.within rfl
      (by unfold visitStmt leaveClass; cases superclass <;> rfl)
      (grows_leaveClass superclass walk _)
    obtain ⟨here, there⟩ := whole.split (grows_enterClass depth name superclass walk)
      (visitFunctions_grows (depth + classDepth superclass) methods entered)
    have knownAbove : ∀ reference, superclass = some reference → old reference.name.lexeme := by
      intro reference same
      subst same
      exact known _ proper.2.1.2
    have inside := enterClass_like avoids table shown names above (known _ proper.1.2) knownAbove
      alike here
    have held := visitFunctions_like avoids table known _ like proper.2.2 inside there
    exact leaveClass_like above alike held

theorem visitStmts_like (avoids : L.Avoids old) (table : L.table = records.distance?)
    (known : ∀ token, good token → old token.lexeme) (depth : Nat) {marks : List Bool} :
    {body body' : List Stmt} → L.LikeStmts marks body body' → stmtsProper good body →
      {walk twin : Walk} → L.LikeWalk old base marks walk twin →
      Due records (identifiers (stmtUses depth body)) walk (visitStmts body walk) →
        L.LikeWalk old base marks (visitStmts body walk) (visitStmts body' twin)
  | _, _, .nil, _, _, _, alike, _ => alike
  | _, _, .cons first rest, proper, walk, _, alike, due => by
    simp only [stmtUses, identifiers_append] at due
    obtain ⟨here, there⟩ := due.split (visitStmt_grows depth _ walk) (visitStmts_grows depth _ _)
    have middle := visitStmt_like avoids table known depth first proper.1 alike here
    have last := visitStmts_like avoids table known depth rest proper.2 middle there
    exact last

theorem visitStmtIfAny_like (avoids : L.Avoids old) (table : L.table = records.distance?)
    (known : ∀ token, good token → old token.lexeme) (depth : Nat) {marks : List Bool} :
    {s s' : Option Stmt} → L.LikeBranch marks s s' → branchProper good s →
      {walk twin : Walk} → L.LikeWalk old base marks walk twin →
      Due records (identifiers (branchUses depth s)) walk (visitStmtIfAny s walk) →
        L.LikeWalk old base marks (visitStmtIfAny s walk) (visitStmtIfAny s' twin)
  | _, _, .none, _, _, _, alike, _ => alike
  | _, _, .some like, proper, _, _, alike, due => by
    have inside := visitStmt_like avoids table known depth like proper.1 alike due
    exact inside

theorem visitFunction_like (avoids : L.Avoids old) (table : L.table = records.distance?)
    (known : ∀ token, good token → old token.lexeme) (depth : Nat) (role : FunctionRole)
    {marks : List Bool} :
    {f f' : FunctionDecl} → L.LikeFunction marks f f' → f.Proper good →
      {walk twin : Walk} → L.LikeWalk old base marks walk twin →
      Due records (identifiers (f.uses depth)) walk (visitFunction role f walk) →
        L.LikeWalk old base marks (visitFunction role f walk) (visitFunction role f' twin)
  | ⟨_, params, body⟩, ⟨_, params', body'⟩, .mk mark _ names like, proper, walk, twin, alike, due => by
    have inside : Due records (identifiers (stmtUses (depth + 1) body))
        (enterFunction role params walk) (visitStmts body (enterFunction role params walk)) :=
      due.within (found_enterFunction role params walk) rfl (Grows.still rfl rfl)
    have clean := (visitStmts_grows (depth + 1) body _).clean inside.clean
    have entered := ((alike.inFunction role).enterEmpty mark).binds names
      (fun param among => known _ (proper.2.1 param among).2) clean
    have held := visitStmts_like avoids table known (depth + 1) like proper.2.2 entered inside
    have restored := (held.leave alike.scopes.enclosed).inFunction walk.functionRole
    unfold visitFunction leaveFunction
    rw [alike.functionRole]
    exact restored

theorem visitFunctions_like (avoids : L.Avoids old) (table : L.table = records.distance?)
    (known : ∀ token, good token → old token.lexeme) (depth : Nat) {marks : List Bool} :
    {fs fs' : List FunctionDecl} → L.LikeFunctions marks fs fs' → methodsProper good fs →
      {walk twin : Walk} → L.LikeWalk old base marks walk twin →
      Due records (identifiers (methodUses depth fs)) walk (visitFunctions fs walk) →
        L.LikeWalk old base marks (visitFunctions fs walk) (visitFunctions fs' twin)
  | _, _, .nil, _, _, _, alike, _ => alike
  | first :: _, _, .cons like rest, proper, walk, _, alike, due => by
    simp only [methodUses, identifiers_append] at due
    obtain ⟨here, there⟩ :=
      due.split (visitFunction_grows depth _ _ walk) (visitFunctions_grows depth _ _)
    have middle := visitFunction_like avoids table known depth (methodRole first) like proper.1
      alike here
    have last := visitFunctions_like avoids table known depth rest proper.2 middle there
    unfold visitFunctions
    rw [methodRole_like like]
    exact last

end

/-! ### Programs -/

theorem LikeWalk.start : L.LikeWalk old [] [mark] .start .start :=
  ⟨.globals, fun _ => nofun, rfl, rfl, rfl, rfl⟩

/-- Programs that are alike are accepted alike, with the same distances. -/
theorem resolve_like (avoids : L.Avoids old) (table : L.table = records.distance?)
    (known : ∀ token, good token → old token.lexeme) {program program' : List Stmt}
    {first next : Nat} {distances : List (Nat × Nat)} (read : stmtsRead good first next program)
    (accepted : resolve program = .ok distances) (numbered : next ≤ records.next)
    (recorded : ∀ id, first ≤ id → records.distance? id = distances.reverse.lookup id)
    (like : L.LikeStmts [mark] program program') :
    resolve program' = .ok (distances.map (Prod.map L.number id)) := by
  have due := due_of_resolve read accepted numbered recorded
  have alike := visitStmts_like avoids table known 0 like read.proper .start due
  have found := (walk_of_resolve accepted).2
  unfold resolve
  simp only [alike.clean, alike.found, ← found, List.append_nil, List.map_reverse,
    List.reverse_reverse, List.isEmpty_nil, if_true]

end Trees

end Likeness
end Lox
