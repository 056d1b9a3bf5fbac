import Lox.Proofs.Parsed
import Lox.Proofs.Resolved
import Lox.Proofs.Words

/-! An accepted program is resolved by what its walk found. The walk always knows where the receiver
and the superclass of the method it is in stand, and no scope but the innermost ever holds a name
that is not ready. -/

namespace Lox
namespace Resolution

variable {records : Records} {scopes : List (Bindings Bool)} {name other : String}

/-! ### Scopes -/

/-- A name that a program can declare. -/
structure Ordinary (name : String) : Prop where
  notThis : name ≠ thisName
  notSuper : name ≠ superName

theorem ordinary_of_named {good : Token → Prop} {name : Token} (named : Named good name)
    (genuine : ∀ token, good token → token.Genuine) : Ordinary name.lexeme := by
  have spelled := genuine name named.2
  rw [Token.Genuine, named.1] at spelled
  constructor
  · intro same
    rw [same] at spelled
    exact absurd spelled (by decide)
  · intro same
    rw [same] at spelled
    exact absurd spelled (by decide)

def Calm (scopes : List (Bindings Bool)) : Prop :=
  ∀ scope ∈ scopes, ∀ name, scope.find? name ≠ some false

theorem distanceIn_cons (scope : Bindings Bool) (outer : List (Bindings Bool)) (name : String) :
    distanceIn (scope :: outer) name =
      if scope.contains name then some 0 else (distanceIn outer name).map (· + 1) :=
  List.findIdx?_cons

@[simp] theorem contains_insert (scope : Bindings Bool) (name other : String) (ready : Bool) :
    (scope.insert name ready).contains other = (other == name || scope.contains other) := by
  unfold Bindings.contains
  rw [Bindings.find?_insert]
  by_cases same : other = name <;> simp [same]

theorem distanceIn_marked (scopes : List (Bindings Bool)) (ready : Bool) (apart : other ≠ name) :
    distanceIn (marked scopes name ready) other = distanceIn scopes other := by
  cases scopes with
  | nil => rfl
  | cons scope outer => simp [marked, distanceIn_cons, apart]

theorem ready_marked (scopes : List (Bindings Bool)) (ready : Bool) (distance : Nat)
    (apart : other ≠ name) :
    Ready (marked scopes name ready) distance other ↔ Ready scopes distance other := by
  cases scopes with
  | nil => rfl
  | cons scope outer =>
    cases distance with
    | zero => simp [marked, Ready, apart]
    | succ distance => simp [marked, Ready]

theorem ready_cons (scope : Bindings Bool) (outer : List (Bindings Bool)) (distance : Nat)
    (name : String) : Ready (scope :: outer) (distance + 1) name ↔ Ready outer distance name := by
  simp [Ready]

theorem Calm.marked (calm : Calm scopes) (name : String) :
    Calm (Resolution.marked scopes name true) := by
  cases scopes with
  | nil => exact calm
  | cons scope outer =>
    intro other member found
    rcases List.mem_cons.mp member with same | member
    · subst same
      rw [Bindings.find?_insert]
      split
      · simp
      · exact calm scope List.mem_cons_self found
    · exact calm other (List.mem_cons_of_mem _ member) found

theorem Calm.after (calm : Calm scopes) (s : Stmt) : Calm (Resolution.after s scopes) := by
  unfold Resolution.after
  split
  · exact calm.marked _
  · exact calm

theorem Calm.inside {scope : Bindings Bool} (calm : Calm scopes)
    (ready : ∀ name, scope.find? name ≠ some false) : Calm (scope :: scopes) := by
  intro other member
  rcases List.mem_cons.mp member with same | member
  · exact same ▸ ready
  · exact calm other member

theorem Calm.tail (calm : Calm scopes) : Calm scopes.tail :=
  fun scope member => calm scope (List.mem_of_mem_tail member)

theorem find?_paramScope (params : List Token) (name : String) :
    (paramScope params).find? name =
      if name ∈ params.map Token.lexeme then some true else none := by
  have general : ∀ scope : Bindings Bool,
      (params.foldl (fun scope param => scope.insert param.lexeme true) scope).find? name =
        if name ∈ params.map Token.lexeme then some true else scope.find? name := by
    induction params with
    | nil => simp
    | cons param rest ih =>
      intro scope
      rw [List.foldl_cons, ih, Bindings.find?_insert]
      by_cases later : name ∈ rest.map Token.lexeme
      · simp [later]
      · by_cases here : name = param.lexeme <;> simp [later, here]
  exact general .empty

/-- A name found at a distance is ready there, or else it is the one that is pending. -/
theorem ready_or_pending {distance : Nat} (calm : Calm scopes.tail)
    (found : distanceIn scopes name = some distance) :
    Ready scopes distance name ∨ distance = 0 ∧ Pending scopes name := by
  obtain ⟨inside, bound, _⟩ := List.findIdx?_eq_some_iff_getElem.mp found
  have here : scopes[distance]? = some scopes[distance] := List.getElem?_eq_getElem inside
  obtain ⟨ready, value⟩ := Option.isSome_iff_exists.mp bound
  cases ready with
  | true => exact .inl ⟨_, here, value⟩
  | false =>
    cases distance with
    | zero => exact .inr ⟨rfl, _, here, value⟩
    | succ distance =>
      have among : scopes[distance + 1] ∈ scopes.tail := by
        rw [← List.getElem_tail (by simp; omega)]
        exact List.getElem_mem _
      exact absurd value (calm _ among name)

/-! ### Receivers and superclasses -/

/-- What the walk can count on, in a body of a given kind of class. -/
structure Sight (scopes : List (Bindings Bool)) (role : ClassRole) : Prop where
  calm : Calm scopes.tail
  receiver : role ≠ .none →
    ∃ distance, distanceIn scopes thisName = some distance ∧ Ready scopes distance thisName
  superclass : role = .derived →
    ∃ distance, distanceIn scopes superName = some (distance + 1) ∧
      Ready scopes (distance + 1) superName ∧ Ready scopes distance thisName
  around : role = .derived →
    distanceIn scopes superName = (distanceIn scopes thisName).map (· + 1)

namespace Sight

variable {role : ClassRole}

theorem start : Sight [] .none := ⟨fun _ => nofun, by simp, nofun, nofun⟩

theorem marked (sight : Sight scopes role) (ordinary : Ordinary name) (ready : Bool) :
    Sight (Resolution.marked scopes name ready) role := by
  obtain ⟨notThis, notSuper⟩ := ordinary
  refine ⟨by rw [tail_marked]; exact sight.calm, ?_, ?_, ?_⟩
  · intro inClass
    obtain ⟨distance, found, there⟩ := sight.receiver inClass
    refine ⟨distance, ?_, (ready_marked _ _ _ notThis.symm).mpr there⟩
    rw [distanceIn_marked _ _ notThis.symm, found]
  · intro derived
    obtain ⟨distance, found, there, receiver⟩ := sight.superclass derived
    refine ⟨distance, ?_, (ready_marked _ _ _ notSuper.symm).mpr there,
      (ready_marked _ _ _ notThis.symm).mpr receiver⟩
    rw [distanceIn_marked _ _ notSuper.symm, found]
  · intro derived
    rw [distanceIn_marked _ _ notSuper.symm, distanceIn_marked _ _ notThis.symm]
    exact sight.around derived

theorem inside {scope : Bindings Bool} (sight : Sight scopes role) (calm : Calm scopes)
    (ordinary : ∀ name, scope.contains name → Ordinary name) : Sight (scope :: scopes) role := by
  have noThis : scope.contains thisName = false :=
    Bool.eq_false_iff.mpr fun bound => (ordinary _ bound).notThis rfl
  have noSuper : scope.contains superName = false :=
    Bool.eq_false_iff.mpr fun bound => (ordinary _ bound).notSuper rfl
  refine ⟨calm, ?_, ?_, ?_⟩
  · intro inClass
    obtain ⟨distance, found, there⟩ := sight.receiver inClass
    refine ⟨distance + 1, ?_, (ready_cons _ _ _ _).mpr there⟩
    simp [distanceIn_cons, noThis, found]
  · intro derived
    obtain ⟨distance, found, there, receiver⟩ := sight.superclass derived
    refine ⟨distance + 1, ?_, (ready_cons _ _ _ _).mpr there, (ready_cons _ _ _ _).mpr receiver⟩
    simp [distanceIn_cons, noSuper, found]
  · intro derived
    simp [distanceIn_cons, noThis, noSuper, sight.around derived]

end Sight

/-- In the methods of a class. -/
def roleIn (superclass : Option Reference) : ClassRole :=
  if superclass.isSome then .derived else .plain

theorem find?_scopeOf (name other : String) :
    (scopeOf name).find? other = if other = name then some true else none := by
  simp [scopeOf]

theorem calm_classScopes (superclass : Option Reference) (calm : Calm scopes) :
    Calm (classScopes superclass ++ scopes) := by
  have ready : ∀ word other : String, (scopeOf word).find? other ≠ some false := by
    intro word other
    rw [find?_scopeOf]
    split <;> simp
  cases superclass with
  | none => exact calm.inside (ready _)
  | some _ => exact (calm.inside (ready _)).inside (ready _)

theorem sight_classScopes (superclass : Option Reference) (calm : Calm scopes) :
    Sight (classScopes superclass ++ scopes) (roleIn superclass) := by
  have receiver : distanceIn (classScopes superclass ++ scopes) thisName = some 0 := by
    simp [classScopes, distanceIn_cons, Bindings.contains, find?_scopeOf]
  have there : Ready (classScopes superclass ++ scopes) 0 thisName := by
    simp [classScopes, Ready, find?_scopeOf]
  have around : roleIn superclass = .derived →
      distanceIn (classScopes superclass ++ scopes) superName = some 1 := by
    intro derived
    cases superclass with
    | none => simp [roleIn] at derived
    | some _ =>
      simp [classScopes, distanceIn_cons, Bindings.contains, find?_scopeOf, thisName, superName]
  refine ⟨(calm_classScopes superclass calm).tail, fun _ => ⟨0, receiver, there⟩, ?_, ?_⟩
  · intro derived
    refine ⟨0, around derived, ?_, there⟩
    cases superclass with
    | none => simp [roleIn] at derived
    | some _ => simp [classScopes, Ready, find?_scopeOf]
  · intro derived
    rw [around derived, receiver]
    rfl

/-! ### What is on record -/

/-- A clean stretch of a walk, over references of its own whose distances are the ones on record. -/
structure Walk.Due (records : Records) (ids : List Nat) (before after : Walk) : Prop where
  clean : after.faults = []
  distinct : ids.Nodup
  unseen : ∀ id ∈ ids, before.found.lookup id = none
  recorded : ∀ id ∈ ids, records.distance? id = after.found.lookup id
  numbered : ∀ id ∈ ids, id < records.next

namespace Walk

variable {ids first second : List Nat} {before middle after walk : Walk} {reference : Reference}

namespace Due

theorem split (due : Due records (first ++ second) before after)
    (earlier : Grows first before middle) (later : Grows second middle after) :
    Due records first before middle ∧ Due records second middle after := by
  obtain ⟨distinctFirst, distinctSecond, apart⟩ := List.nodup_append.mp due.distinct
  have foreign : ∀ id ∈ first, id ∉ second := fun id member among => apart id member id among rfl
  have foreign' : ∀ id ∈ second, id ∉ first := fun id member among => apart id among id member rfl
  constructor
  · refine ⟨later.clean due.clean, distinctFirst, ?_, ?_, ?_⟩
    · exact fun id member => due.unseen id (List.mem_append_left _ member)
    · intro id member
      rw [due.recorded id (List.mem_append_left _ member), later.lookup (foreign id member)]
    · exact fun id member => due.numbered id (List.mem_append_left _ member)
  · refine ⟨due.clean, distinctSecond, ?_, ?_, ?_⟩
    · intro id member
      rw [earlier.lookup (foreign' id member), due.unseen id (List.mem_append_right _ member)]
    · exact fun id member => due.recorded id (List.mem_append_right _ member)
    · exact fun id member => due.numbered id (List.mem_append_right _ member)

theorem swap (due : Due records (first ++ second) before after) :
    Due records (second ++ first) before after := by
  have same : ∀ id, id ∈ second ++ first ↔ id ∈ first ++ second := by simp [or_comm]
  exact ⟨due.clean, List.perm_append_comm.nodup due.distinct,
    fun id member => due.unseen id ((same id).mp member),
    fun id member => due.recorded id ((same id).mp member),
    fun id member => due.numbered id ((same id).mp member)⟩

/-- The stretch without what comes before and after it and finds nothing. -/
theorem within {start finish : Walk} (due : Due records ids before after)
    (found : start.found = before.found) (last : after.found = finish.found)
    (grows : Grows [] finish after) : Due records ids start finish := by
  refine ⟨grows.clean due.clean, due.distinct, ?_, ?_, due.numbered⟩
  · rw [found]
    exact due.unseen
  · rw [← last]
    exact due.recorded

end Due

theorem complainIf_clean {condition : Bool} {fault : StaticFault}
    (clean : (walk.complainIf condition fault).faults = []) : condition = false := by
  unfold complainIf at clean
  cases condition with
  | false => rfl
  | true => simp [complain] at clean

theorem found_complainIf (walk : Walk) (condition : Bool) (fault : StaticFault) :
    (walk.complainIf condition fault).found = walk.found := by
  unfold complainIf
  split <;> rfl

theorem faults_refer (walk : Walk) (reference : Reference) :
    (walk.refer reference).faults = walk.faults := by
  unfold refer
  split <;> rfl

theorem found_declare (walk : Walk) (name : Token) : (walk.declare name).found = walk.found := by
  unfold declare
  split
  · rfl
  · split <;> rfl

theorem found_ready (walk : Walk) (name : Token) : (walk.ready name).found = walk.found := by
  unfold ready
  split <;> rfl

theorem found_bind (walk : Walk) (name : Token) : (walk.bind name).found = walk.found :=
  (found_ready _ name).trans (found_declare walk name)

theorem found_binds (params : List Token) (walk : Walk) :
    (params.foldl Walk.bind walk).found = walk.found := by
  induction params generalizing walk with
  | nil => rfl
  | cons param rest ih => exact (ih _).trans (found_bind walk param)

theorem declare_clean {name : Token} (clean : (walk.declare name).faults = []) :
    Undeclared walk.scopes name.lexeme ∧
      (walk.declare name).scopes = marked walk.scopes name.lexeme false := by
  unfold declare at clean ⊢
  cases shape : walk.scopes with
  | nil => simp [Undeclared, marked, shape]
  | cons scope outer =>
    simp only [shape] at clean ⊢
    cases bound : scope.contains name.lexeme with
    | true => simp [bound, complain] at clean
    | false =>
      refine ⟨?_, by simp [marked]⟩
      intro found same
      cases same
      exact Option.not_isSome_iff_eq_none.mp (by simpa [Bindings.contains] using bound)

theorem bind_clean {name : Token} (clean : (walk.bind name).faults = []) :
    Undeclared walk.scopes name.lexeme := by
  have grows : Grows [] (walk.declare name) (walk.bind name) := grows_ready _ name
  exact (declare_clean (grows.clean clean)).1

/-- The parameters of an accepted function are apart from one another. -/
theorem binds_clean {params : List Token} {scope : Bindings Bool} {outer : List (Bindings Bool)}
    (shape : walk.scopes = scope :: outer) (clean : (params.foldl Walk.bind walk).faults = []) :
    (params.map Token.lexeme).Nodup ∧ ∀ param ∈ params, scope.find? param.lexeme = none := by
  induction params generalizing walk scope with
  | nil => simp
  | cons param rest ih =>
    have grows : Grows [] (walk.bind param) (rest.foldl Walk.bind (walk.bind param)) :=
      grows_binds rest _
    have first := bind_clean (grows.clean clean)
    have unbound : scope.find? param.lexeme = none := first scope (by simp [shape])
    have inner : (walk.bind param).scopes = scope.insert param.lexeme true :: outer := by
      rw [scopes_bind, shape, marked]
    obtain ⟨distinct, apart⟩ := ih inner clean
    simp only [Bindings.find?_insert] at apart
    constructor
    · rw [List.map_cons, List.nodup_cons]
      refine ⟨?_, distinct⟩
      intro member
      obtain ⟨twin, among, same⟩ := List.mem_map.mp member
      simpa [same] using apart twin among
    · intro other member
      rcases List.mem_cons.mp member with same | member
      · exact same ▸ unbound
      · have := apart other member
        split at this
        · cases this
        · exact this

/-! ### Uses -/

theorem recorded_refer (due : Due records [reference.id] walk (walk.refer reference)) :
    records.distance? reference.id = distanceIn walk.scopes reference.name.lexeme := by
  rw [due.recorded _ (List.mem_singleton_self _)]
  have unseen := due.unseen _ (List.mem_singleton_self _)
  unfold refer distance?
  cases found : walk.scopes.findIdx? (·.contains reference.name.lexeme) with
  | none => simp [unseen, distanceIn, found]
  | some distance => simp [distanceIn, found]

theorem writes_refer (due : Due records [reference.id] walk (walk.refer reference))
    (calm : Calm walk.scopes.tail) : Writes records walk.scopes reference := by
  have recorded := recorded_refer due
  refine ⟨due.numbered _ (List.mem_singleton_self _), recorded, ?_⟩
  intro distance found
  exact ready_or_pending calm (recorded.symm.trans found)

theorem reads_useVariable (due : Due records [reference.id] walk (walk.useVariable reference))
    (calm : Calm walk.scopes.tail) : Reads records walk.scopes reference := by
  unfold useVariable at due
  dsimp only at due
  have quiet := complainIf_clean ((faults_refer _ reference).symm.trans due.clean)
  simp only [complainIf, quiet] at due
  obtain ⟨numbered, recorded, ready⟩ := writes_refer due calm
  refine ⟨numbered, recorded, ?_⟩
  intro distance found
  rcases ready distance found with there | ⟨_, scope, here, unready⟩
  · exact there
  · exfalso
    cases shape : walk.scopes with
    | nil => simp [shape] at here
    | cons first outer =>
      simp only [shape, List.getElem?_cons_zero, Option.some.injEq] at here
      simp [isPending, shape, here, unready] at quiet

theorem readsThis_useThis (due : Due records [reference.id] walk (walk.useThis reference))
    (word : reference.name.lexeme = thisName) (sight : Sight walk.scopes walk.classRole) :
    ReadsThis records walk.scopes reference := by
  unfold useThis at due
  by_cases outside : walk.classRole = .none
  · rw [if_pos outside] at due
    exact absurd due.clean (by simp [complain])
  · rw [if_neg outside] at due
    obtain ⟨distance, found, there⟩ := sight.receiver outside
    have recorded := recorded_refer due
    rw [word] at recorded
    exact ⟨due.numbered _ (List.mem_singleton_self _), word,
      ⟨distance, recorded.trans found, there⟩, recorded⟩

theorem readsSuper_useSuper (due : Due records [reference.id] walk (walk.useSuper reference))
    (word : reference.name.lexeme = superName) (sight : Sight walk.scopes walk.classRole) :
    ReadsSuper records walk.scopes reference := by
  unfold useSuper at due
  have clean := (faults_refer _ reference).symm.trans due.clean
  cases role : walk.classRole with
  | none => simp [role, complain] at clean
  | plain => simp [role, complain] at clean
  | derived =>
    simp only [role] at due
    obtain ⟨distance, found, above, receiver⟩ := sight.superclass role
    have recorded := recorded_refer due
    rw [word] at recorded
    exact ⟨due.numbered _ (List.mem_singleton_self _), word,
      ⟨distance, recorded.trans found, above, receiver⟩, recorded, sight.around role⟩

end Walk

/-! ### Trees -/

open Walk

section Trees

variable {good : Token → Prop}

theorem lexeme_of_worded (genuine : ∀ token, good token → token.Genuine) {word : Keyword}
    {name : Token} (worded : Worded good word name) : name.lexeme = word.text := by
  have spelled := genuine name worded.2
  rw [Token.Genuine, worded.1] at spelled
  exact spelled

mutual

theorem visitExpr_resolved (genuine : ∀ token, good token → token.Genuine) (depth : Nat) :
    (e : Expr) → e.Proper good → (walk : Walk) → Sight walk.scopes walk.classRole →
      Due records (identifiers (e.uses depth)) walk (visitExpr e walk) →
        e.Resolved records walk.scopes
  | .literal _, _, _, _, _ => trivial
  | .unary _ operand, proper, walk, sight, due =>
    visitExpr_resolved genuine depth operand proper walk sight due
  | .binary left _ right, proper, walk, sight, due
  | .logical left _ right, proper, walk, sight, due => by
    simp only [Expr.uses, identifiers_append] at due
    obtain ⟨first, second⟩ :=
      due.split (visitExpr_grows depth left walk) (visitExpr_grows depth right _)
    have between := visitExpr_stays left walk
    refine ⟨visitExpr_resolved genuine depth left proper.1 walk sight first, ?_⟩
    have later := visitExpr_resolved genuine depth right proper.2 (visitExpr left walk)
    rw [scopes_visitExpr, between.classRole] at later
    exact later sight second
  | .grouping inner, proper, walk, sight, due =>
    visitExpr_resolved genuine depth inner proper walk sight due
  | .variable _, _, _, sight, due => reads_useVariable due sight.calm
  | .assign target value, proper, walk, sight, due => by
    simp only [Expr.uses, identifiers_append] at due
    obtain ⟨first, second⟩ := due.split (visitExpr_grows depth value walk) (grows_refer _ target)
    have writes := writes_refer second
    rw [scopes_visitExpr] at writes
    exact ⟨writes sight.calm, visitExpr_resolved genuine depth value proper.2 walk sight first⟩
  | .call callee _ arguments, proper, walk, sight, due => by
    simp only [Expr.uses, identifiers_append] at due
    obtain ⟨first, second⟩ :=
      due.split (visitExpr_grows depth callee walk) (visitExprs_grows depth arguments _)
    have between := visitExpr_stays callee walk
    refine ⟨visitExpr_resolved genuine depth callee proper.1 walk sight first, ?_⟩
    have later := visitExprs_resolved genuine depth arguments proper.2 (visitExpr callee walk)
    rw [scopes_visitExpr, between.classRole] at later
    exact later sight second
  | .get object _, proper, walk, sight, due =>
    visitExpr_resolved genuine depth object proper walk sight due
  | .set object _ value, proper, walk, sight, due => by
    simp only [Expr.uses, identifiers_append] at due
    obtain ⟨first, second⟩ :=
      due.swap.split (visitExpr_grows depth value walk) (visitExpr_grows depth object _)
    have between := visitExpr_stays value walk
    have later := visitExpr_resolved genuine depth object proper.1 (visitExpr value walk)
    rw [scopes_visitExpr, between.classRole] at later
    exact ⟨later sight second, visitExpr_resolved genuine depth value proper.2 walk sight first⟩
  | .this _, proper, _, sight, due =>
    readsThis_useThis due (lexeme_of_worded genuine proper) sight
  | .super _ _, proper, _, sight, due =>
    readsSuper_useSuper due (lexeme_of_worded genuine proper) sight

theorem visitExprs_resolved (genuine : ∀ token, good token → token.Genuine) (depth : Nat) :
    (es : List Expr) → exprsProper good es → (walk : Walk) → Sight walk.scopes walk.classRole →
      Due records (identifiers (exprUses depth es)) walk (visitExprs es walk) →
        exprsResolved records walk.scopes es
  | [], _, _, _, _ => trivial
  | first :: rest, proper, walk, sight, due => by
    simp only [exprUses, identifiers_append] at due
    obtain ⟨here, there⟩ :=
      due.split (visitExpr_grows depth first walk) (visitExprs_grows depth rest _)
    have between := visitExpr_stays first walk
    refine ⟨visitExpr_resolved genuine depth first proper.1 walk sight here, ?_⟩
    have later := visitExprs_resolved genuine depth rest proper.2 (visitExpr first walk)
    rw [scopes_visitExpr, between.classRole] at later
    exact later sight there

end

theorem visitExprIfAny_resolved (genuine : ∀ token, good token → token.Genuine) (depth : Nat)
    (e : Option Expr) (proper : optionalProper good e) (walk : Walk)
    (sight : Sight walk.scopes walk.classRole)
    (due : Due records (identifiers (optionalUses depth e)) walk (visitExprIfAny e walk)) :
    optionalResolved records walk.scopes e := by
  cases e with
  | none => trivial
  | some e => exact visitExpr_resolved genuine depth e proper walk sight due

/-! ### Statements -/

theorem found_enterFunction (role : FunctionRole) (params : List Token) (walk : Walk) :
    (enterFunction role params walk).found = walk.found :=
  found_binds params _

theorem classRole_enterFunction (role : FunctionRole) (params : List Token) (walk : Walk) :
    (enterFunction role params walk).classRole = walk.classRole :=
  (returns_binds params _).classRole

theorem classRole_enterClass (name : Token) (superclass : Option Reference) (walk : Walk) :
    (enterClass name superclass walk).classRole = roleIn superclass := by
  unfold enterClass
  cases superclass with
  | none => exact (returns_bind _ name).classRole
  | some reference => exact (stays_useVariable _ reference).classRole

theorem named_of_proper : (f : FunctionDecl) → f.Proper good → Named good f.name
  | ⟨_, _, _⟩, proper => proper.1

theorem sight_after (genuine : ∀ token, good token → token.Genuine) {s : Stmt}
    (proper : s.Proper good) {role : ClassRole} (sight : Sight scopes role) :
    Sight (after s scopes) role := by
  cases s with
  | var name _ => exact sight.marked (ordinary_of_named proper.1 genuine) true
  | function declaration =>
    exact sight.marked (ordinary_of_named (named_of_proper declaration proper) genuine) true
  | classDecl name _ _ => exact sight.marked (ordinary_of_named proper.1 genuine) true
  | expression _ | print _ | block _ | conditional _ _ _ | loop _ _ | ret _ _ => exact sight

/-- A class is declared once, and its superclass is looked up outside of it. -/
theorem enterClass_resolved {depth : Nat} {name : Token} {superclass : Option Reference}
    {walk : Walk} (calm : Calm walk.scopes)
    (due : Due records (identifiers (superclassUses depth superclass)) walk
      (enterClass name superclass walk)) :
    Undeclared walk.scopes name.lexeme ∧ superclassResolved records walk.scopes superclass := by
  let named := { walk with classRole := .plain }.bind name
  cases superclass with
  | none =>
    have clean : named.faults = [] := due.clean
    have undeclared : Undeclared walk.scopes name.lexeme :=
      @bind_clean { walk with classRole := .plain } name clean
    exact ⟨undeclared, trivial⟩
  | some reference =>
    let checked := named.complainIf (reference.name.lexeme == name.lexeme)
      (.selfInheritance reference.name.lexeme reference.name.line)
    let derived := { checked with classRole := .derived }
    have found : derived.found = walk.found :=
      (found_complainIf _ _ _).trans (found_bind { walk with classRole := .plain } name)
    have used : Due records [reference.id] derived (derived.useVariable reference) :=
      due.within found rfl (Grows.still rfl rfl)
    have checkedClean : checked.faults = [] := (grows_useVariable derived reference).clean used.clean
    have grows : Grows [] named checked := grows_complainIf named _ _
    have namedClean : named.faults = [] := grows.clean checkedClean
    have apart : reference.name.lexeme ≠ name.lexeme := by
      simpa using complainIf_clean checkedClean
    have scopes : derived.scopes = marked walk.scopes name.lexeme true :=
      (scopes_complainIf _ _ _).trans (scopes_bind _ name)
    have reads : Reads records derived.scopes reference := by
      apply reads_useVariable used
      rw [scopes]
      exact (calm.marked _).tail
    rw [scopes] at reads
    have undeclared : Undeclared walk.scopes name.lexeme :=
      @bind_clean { walk with classRole := .plain } name namedClean
    refine ⟨undeclared, reads.numbered, ?_, ?_⟩
    · exact reads.recorded.trans (distanceIn_marked _ _ apart)
    · intro distance there
      exact (ready_marked _ _ _ apart).mp (reads.ready distance there)

mutual

theorem visitStmt_resolved (genuine : ∀ token, good token → token.Genuine) (depth : Nat) :
    (s : Stmt) → s.Proper good → (walk : Walk) → Calm walk.scopes →
      Sight walk.scopes walk.classRole →
      Due records (identifiers (s.uses depth)) walk (visitStmt s walk) →
        s.Resolved records walk.scopes
  | .expression e, proper, walk, _, sight, due | .print e, proper, walk, _, sight, due =>
    visitExpr_resolved genuine depth e proper walk sight due
  | .var name initializer, proper, walk, _, sight, due => by
    have inside : Due records (identifiers (optionalUses depth initializer)) (walk.declare name)
        (visitExprIfAny initializer (walk.declare name)) :=
      due.within (found_declare walk name) (found_ready _ name) (grows_ready _ name)
    have declared := declare_clean ((visitExprIfAny_grows depth initializer _).clean inside.clean)
    have ordinary := ordinary_of_named proper.1 genuine
    have held := visitExprIfAny_resolved genuine depth initializer proper.2 _ (by
      rw [declared.2, (returns_declare walk name).classRole]
      exact sight.marked ordinary false) inside
    rw [declared.2] at held
    exact ⟨declared.1, held⟩
  | .block body, proper, walk, calm, sight, due => by
    have ready : Calm (.empty :: walk.scopes) := calm.inside (by simp)
    have inner : Sight (.empty :: walk.scopes) walk.classRole :=
      sight.inside calm (by simp [Bindings.contains])
    exact visitStmts_resolved genuine (depth + 1) body proper (walk.enter .empty) ready inner
      (due.within rfl rfl (Grows.still rfl rfl))
  | .conditional condition thenBranch elseBranch, proper, walk, calm, sight, due => by
    simp only [Stmt.uses, identifiers_append] at due
    let chosen := visitStmt thenBranch (visitExpr condition walk)
    have first := visitExpr_grows depth condition walk
    have second := visitStmt_grows depth thenBranch (visitExpr condition walk)
    obtain ⟨both, last⟩ := due.split (first.trans second)
      (visitStmtIfAny_grows depth elseBranch chosen)
    obtain ⟨here, there⟩ := both.split first second
    have between := visitExpr_stays condition walk
    have role := ((visitStmt_returns thenBranch _).classRole).trans between.classRole
    have scopes : chosen.scopes = walk.scopes := by
      rw [scopes_visitStmt thenBranch proper.2.1.1, after_eq_self proper.2.1.2, scopes_visitExpr]
    have condition' := visitExpr_resolved genuine depth condition proper.1 walk sight here
    have thenBranch' := visitStmt_resolved genuine depth thenBranch proper.2.1.1 _
      (by rwa [scopes_visitExpr]) (by rwa [scopes_visitExpr, between.classRole]) there
    have elseBranch' := visitStmtIfAny_resolved genuine depth elseBranch proper.2.2 chosen
      (by rwa [scopes]) (by rwa [scopes, role]) last
    rw [scopes_visitExpr] at thenBranch'
    rw [scopes] at elseBranch'
    exact ⟨condition', ⟨thenBranch', proper.2.1.2⟩, elseBranch'⟩
  | .loop condition body, proper, walk, calm, sight, due => by
    simp only [Stmt.uses, identifiers_append] at due
    have first := visitExpr_grows depth condition walk
    obtain ⟨here, there⟩ := due.split first (visitStmt_grows depth body _)
    have between := visitExpr_stays condition walk
    have condition' := visitExpr_resolved genuine depth condition proper.1 walk sight here
    have body' := visitStmt_resolved genuine depth body proper.2.1 _
      (by rwa [scopes_visitExpr]) (by rwa [scopes_visitExpr, between.classRole]) there
    rw [scopes_visitExpr] at body'
    exact ⟨condition', body', proper.2.2⟩
  | .function declaration, proper, walk, calm, sight, due => by
    have ordinary := ordinary_of_named (named_of_proper declaration proper) genuine
    have inside : Due records (identifiers (declaration.uses depth)) (walk.bind declaration.name)
        (visitFunction .function declaration (walk.bind declaration.name)) :=
      due.within (found_bind walk _) rfl (Grows.refl _)
    have clean := (visitFunction_grows depth .function declaration _).clean inside.clean
    have declared := visitFunction_resolved genuine depth .function declaration proper
      (walk.bind declaration.name) (by rw [scopes_bind]; exact calm.marked _) (by
        rw [scopes_bind, (returns_bind walk declaration.name).classRole]
        exact sight.marked ordinary true) inside
    rw [scopes_bind] at declared
    exact ⟨bind_clean clean, declared⟩
  | .ret keyword value, proper, walk, _, sight, due => by
    have found : (walk.useReturn keyword value.isSome).found = walk.found :=
      (found_complainIf _ _ _).trans (found_complainIf _ _ _)
    have inside := visitExprIfAny_resolved genuine depth value proper
      (walk.useReturn keyword value.isSome) (by
        rw [scopes_useReturn, (stays_useReturn walk keyword _).classRole]
        exact sight) (due.within found rfl (Grows.refl _))
    rw [scopes_useReturn] at inside
    exact inside
  | .classDecl name superclass methods, proper, walk, calm, sight, due => by
    simp only [Stmt.uses, identifiers_append] at due
    let entered := enterClass name superclass walk
    have whole : Due records (identifiers (superclassUses depth superclass) ++
        identifiers (methodUses (depth + classDepth superclass) methods)) walk
        (visitFunctions methods entered) := due.within rfl
      (by unfold visitStmt leaveClass; cases superclass <;> rfl)
      (grows_leaveClass superclass walk _)
    obtain ⟨here, there⟩ := whole.split (grows_enterClass depth name superclass walk)
      (visitFunctions_grows (depth + classDepth superclass) methods entered)
    obtain ⟨undeclared, above⟩ := enterClass_resolved calm here
    have within := visitFunctions_resolved genuine (depth + classDepth superclass) methods
      proper.2.2 entered
      (by rw [scopes_enterClass]; exact calm_classScopes superclass (calm.marked _))
      (by
        rw [scopes_enterClass, classRole_enterClass]
        exact sight_classScopes superclass (calm.marked _)) there
    rw [scopes_enterClass] at within
    exact ⟨undeclared, above, within⟩

theorem visitStmts_resolved (genuine : ∀ token, good token → token.Genuine) (depth : Nat) :
    (body : List Stmt) → stmtsProper good body → (walk : Walk) → Calm walk.scopes →
      Sight walk.scopes walk.classRole →
      Due records (identifiers (stmtUses depth body)) walk (visitStmts body walk) →
        stmtsResolved records walk.scopes body
  | [], _, _, _, _, _ => trivial
  | first :: rest, proper, walk, calm, sight, due => by
    simp only [stmtUses, identifiers_append] at due
    obtain ⟨here, there⟩ :=
      due.split (visitStmt_grows depth first walk) (visitStmts_grows depth rest _)
    have scopes := scopes_visitStmt first proper.1 walk
    have role := (visitStmt_returns first walk).classRole
    have later := visitStmts_resolved genuine depth rest proper.2 (visitStmt first walk)
    rw [scopes, role] at later
    refine ⟨visitStmt_resolved genuine depth first proper.1 walk calm sight here, ?_⟩
    exact later (calm.after first) (sight_after genuine proper.1 sight) there

theorem visitStmtIfAny_resolved (genuine : ∀ token, good token → token.Genuine) (depth : Nat) :
    (s : Option Stmt) → branchProper good s → (walk : Walk) → Calm walk.scopes →
      Sight walk.scopes walk.classRole →
      Due records (identifiers (branchUses depth s)) walk (visitStmtIfAny s walk) →
        branchResolved records walk.scopes s
  | none, _, _, _, _, _ => trivial
  | some s, proper, walk, calm, sight, due =>
    ⟨visitStmt_resolved genuine depth s proper.1 walk calm sight due, proper.2⟩

theorem visitFunction_resolved (genuine : ∀ token, good token → token.Genuine) (depth : Nat)
    (role : FunctionRole) :
    (f : FunctionDecl) → f.Proper good → (walk : Walk) → Calm walk.scopes →
      Sight walk.scopes walk.classRole →
      Due records (identifiers (f.uses depth)) walk (visitFunction role f walk) →
        f.Resolved records walk.scopes
  | ⟨_, params, body⟩, proper, walk, calm, sight, due => by
    have inside : Due records (identifiers (stmtUses (depth + 1) body))
        (enterFunction role params walk) (visitStmts body (enterFunction role params walk)) :=
      due.within (found_enterFunction role params walk) rfl (Grows.still rfl rfl)
    have clean := (visitStmts_grows (depth + 1) body _).clean inside.clean
    have ready : Calm (paramScope params :: walk.scopes) :=
      calm.inside fun name => by rw [find?_paramScope]; split <;> simp
    have inner : Sight (paramScope params :: walk.scopes) walk.classRole := by
      apply sight.inside calm
      intro name bound
      rw [Bindings.contains, find?_paramScope] at bound
      split at bound
      · rename_i member
        obtain ⟨param, among, same⟩ := List.mem_map.mp member
        exact same ▸ ordinary_of_named (proper.2.1 param among) genuine
      · cases bound
    have held := visitStmts_resolved genuine (depth + 1) body proper.2.2
      (enterFunction role params walk) (by rwa [scopes_enterFunction])
      (by rwa [scopes_enterFunction, classRole_enterFunction]) inside
    rw [scopes_enterFunction] at held
    exact ⟨(binds_clean rfl clean).1, held⟩

theorem visitFunctions_resolved (genuine : ∀ token, good token → token.Genuine) (depth : Nat) :
    (fs : List FunctionDecl) → methodsProper good fs → (walk : Walk) → Calm walk.scopes →
      Sight walk.scopes walk.classRole →
      Due records (identifiers (methodUses depth fs)) walk (visitFunctions fs walk) →
        methodsResolved records walk.scopes fs
  | [], _, _, _, _, _ => trivial
  | first :: rest, proper, walk, calm, sight, due => by
    simp only [methodUses, identifiers_append] at due
    obtain ⟨here, there⟩ :=
      due.split (visitFunction_grows depth _ first walk) (visitFunctions_grows depth rest _)
    have scopes := scopes_visitFunction (methodRole first) first walk
    have role := (visitFunction_returns (methodRole first) first walk).classRole
    have later := visitFunctions_resolved genuine depth rest proper.2
      (visitFunction (methodRole first) first walk)
    rw [scopes, role] at later
    exact ⟨visitFunction_resolved genuine depth _ first proper.1 walk calm sight here,
      later calm sight there⟩

end

/-! ### Programs -/

section Programs

variable {first next : Nat} {program : List Stmt} {table : List (Nat × Nat)}

theorem walk_of_resolve (accepted : resolve program = .ok table) :
    (visitStmts program .start).faults = [] ∧
      table.reverse = (visitStmts program .start).found := by
  unfold resolve at accepted
  dsimp only at accepted
  split at accepted
  · rename_i clean
    cases accepted
    exact ⟨List.isEmpty_iff.mp clean, List.reverse_reverse _⟩
  · cases accepted

/-- Only references of the program get a distance. -/
theorem resolve_found (accepted : resolve program = .ok table) :
    ∀ entry ∈ table, entry.1 ∈ identifiers (stmtUses 0 program) := by
  intro entry member
  obtain ⟨new, found, inside⟩ := (visitStmts_grows 0 program .start).found
  have among : entry ∈ new := by
    have listed : entry ∈ table.reverse := List.mem_reverse.mpr member
    rw [(walk_of_resolve accepted).2, found] at listed
    simpa [Walk.start] using listed
  exact inside entry among

theorem resolve_within (read : stmtsRead good first next program)
    (accepted : resolve program = .ok table) :
    ∀ entry ∈ table, first ≤ entry.1 ∧ entry.1 < next :=
  fun entry member => (read.fresh 0).within _ (resolve_found accepted entry member)

theorem due_of_resolve (read : stmtsRead good first next program)
    (accepted : resolve program = .ok table) (numbered : next ≤ records.next)
    (recorded : ∀ id, first ≤ id → records.distance? id = table.reverse.lookup id) :
    Due records (identifiers (stmtUses 0 program)) .start (visitStmts program .start) := by
  obtain ⟨clean, found⟩ := walk_of_resolve accepted
  have fresh := read.fresh 0
  refine ⟨clean, fresh.distinct, fun _ _ => rfl, ?_, ?_⟩
  · intro id member
    rw [recorded id (fresh.within id member).1, found]
  · intro id member
    exact Nat.lt_of_lt_of_le (fresh.within id member).2 numbered

/-- An accepted program is resolved by the distances that were found for it. -/
theorem resolve_resolved (genuine : ∀ token, good token → token.Genuine)
    (read : stmtsRead good first next program) (accepted : resolve program = .ok table)
    (numbered : next ≤ records.next)
    (recorded : ∀ id, first ≤ id → records.distance? id = table.reverse.lookup id) :
    stmtsResolved records [] program :=
  visitStmts_resolved genuine 0 program read.proper .start (fun _ => nofun) Sight.start
    (due_of_resolve read accepted numbered recorded)

end Programs

end Trees

end Resolution
end Lox
