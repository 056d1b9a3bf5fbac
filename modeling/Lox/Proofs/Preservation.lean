import Lox.Proofs.Contexts
import Lox.Proofs.Transitions

/-! One step keeps a configuration fitting. Each operation on the state is looked at once: what it
does to the environment in force, and that what it gives was resolved. -/

namespace Lox.Machine

open Resolution Config

variable {records : Records} {state old new : State} {scopes : List (Bindings Bool)}
  {stack : List Frame}

/-! ### The environment in force -/

/-- Nothing changes up to the scope in force. -/
structure State.Aside (before after : State) : Prop where
  current : after.current = before.current
  keeps : before.store.Keeps after.store
  same : before.store.Same (before.current.scope + 1) after.store

theorem Stands.aside (stands : Stands records old scopes stack) (aside : old.Aside new) :
    Stands records new scopes stack := by
  obtain ⟨describes, waits⟩ := stands
  constructor
  · rw [aside.current]
    exact describes.keeps aside.keeps aside.same
  · rw [aside.current]
    exact waits.keeps aside.keeps (aside.same.below (Nat.le_succ _))

theorem Stands.inside (stands : Stands records state scopes stack) :
    state.current.scope < state.store.scopes.size :=
  stands.describes.models.scope_lt

/-- Binding a name in force. -/
theorem StackFits.define (waits : StackFits records state.store state.current scopes stack)
    (name : String) (value : Value) :
    StackFits records (state.define name value).store (state.define name value).current scopes
      stack :=
  waits.keeps (Store.keeps_write _ _ _ _) (Store.same_write _ _ _ _)

theorem Stands.define (describes : Describes state.store state.current scopes) (name : String)
    (value : Value)
    (waits : StackFits records state.store state.current (marked scopes name true) stack) :
    Stands records (state.define name value) (marked scopes name true) stack :=
  ⟨describes.define name value, waits.define name value⟩

/-! ### What stays sound -/

/-- A new store may hold what fits it. -/
theorem State.Sound.withStore (sound : state.Sound records) {store : Store}
    (holds : store.Holds (Function.Fits records store) (Function.FitsMethod records store)) :
    ({ state with store } : State).Sound records :=
  ⟨sound.recorded, holds⟩

theorem State.Sound.kept (sound : state.Sound records) {store : Store}
    (kept : state.store.Keeps store) : state.store.Holds (Function.Fits records store)
      (Function.FitsMethod records store) :=
  sound.holds.imp (fun _ fits => fits.keeps kept) (fun _ fits => fits.keeps kept)

theorem State.Sound.write (sound : state.Sound records) {value : Value}
    (fits : value.Fits records state.store) (scope : Nat) (name : String) :
    (state.write scope name value).Sound records := by
  have kept := state.store.keeps_write scope name value
  exact sound.withStore ((sound.kept kept).write (fits.keeps kept) scope name)

theorem State.Sound.define (sound : state.Sound records) {value : Value}
    (fits : value.Fits records state.store) (name : String) :
    (state.define name value).Sound records :=
  sound.write fits state.current.scope name

theorem State.Sound.enter (sound : state.Sound records) {bindings : Bindings Value}
    (fits : ∀ name value, bindings.find? name = some value → value.Fits records state.store)
    (outer : Environment) : (state.enter outer bindings).Sound records := by
  have kept := state.store.keeps_enter outer bindings
  refine ⟨sound.recorded, (sound.kept kept).enter ?_ outer⟩
  intro name value found
  exact (fits name value found).keeps kept

theorem State.Sound.setField (sound : state.Sound records) {value : Value}
    (fits : value.Fits records state.store) (i : Instance) (name : String) :
    (state.setField i name value).Sound records := by
  have kept : state.store.Keeps (state.store.setField i name value) :=
    ⟨Nat.le_refl _, fun _ _ bound => bound⟩
  exact sound.withStore ((sound.kept kept).setField (fits.keeps kept) i name)

theorem State.Sound.withCurrent (sound : state.Sound records) (environment : Environment) :
    (state.withCurrent environment).Sound records :=
  ⟨sound.recorded, sound.holds⟩

/-- A method with its receiver is a function of the program. -/
theorem State.Sound.bound (sound : state.Sound records) {method : Function} {receiver : Instance}
    (fits : method.FitsMethod records state.store)
    (given : (Value.object receiver).Fits records state.store) :
    (state.bindMethod method receiver).2.Sound records ∧
      (state.bindMethod method receiver).1.Fits records
        (state.bindMethod method receiver).2.store := by
  let bindings : Bindings Value := Bindings.empty.insert thisName (.object receiver)
  have kept := state.store.keeps_enter method.closure bindings
  constructor
  · refine ⟨sound.recorded, ?_⟩
    exact (sound.kept kept).enter (fun _ _ found =>
      Bindings.eq_of_find?_single found ▸ Value.Fits.keeps given kept) method.closure
  · obtain ⟨outside, models, resolved⟩ := fits
    refine ⟨scopeOf thisName :: outside, ?_, resolved⟩
    refine (Describes.enter models ?_).models
    intro name
    rw [find?_scopeOf, Bindings.contains, Bindings.find?_insert]
    split <;> simp

theorem State.Sound.bindMethod (sound : state.Sound records) {method : Function}
    {receiver : Instance} (fits : method.FitsMethod records state.store)
    (given : (Value.object receiver).Fits records state.store)
    (inside : state.current.scope < state.store.scopes.size) :
    (state.bindMethod method receiver).2.Sound records ∧
      state.Aside (state.bindMethod method receiver).2 ∧
      (state.bindMethod method receiver).1.Fits records
        (state.bindMethod method receiver).2.store := by
  obtain ⟨after, function⟩ := sound.bound fits given
  exact ⟨after, ⟨rfl, state.store.keeps_enter method.closure _,
    (state.store.same_enter method.closure _).below inside⟩, function⟩

/-! ### Calls -/

theorem Stands.failed (stands : Stands records state scopes stack) (sound : state.Sound records)
    (fault : RuntimeFault) : (Config.failed fault stack state).Fits records :=
  ⟨sound, scopes, stands.waits⟩

theorem Stands.done (stands : Stands records state scopes stack) (sound : state.Sound records)
    {value : Value} (fits : value.Fits records state.store) :
    (Config.done value stack state).Fits records :=
  ⟨sound, fits, scopes, stands⟩

theorem Stands.yields (stands : Stands records state scopes stack) (sound : state.Sound records)
    {config : Config} (yields : Yields (Function.Fits records state.store)
      (Function.FitsMethod records state.store) stack state config) : config.Fits records := by
  cases yields with
  | failed fault => exact stands.failed sound fault
  | done fits => exact stands.done sound fits
  | bound fits given =>
    obtain ⟨bound, aside, function⟩ := sound.bindMethod fits given stands.inside
    exact (stands.aside aside).done bound function

theorem Settled.after (settled : Settled scopes) (s : Stmt) :
    Settled (Resolution.after s scopes) := by
  unfold Resolution.after
  split
  · intro name pending
    obtain ⟨scope, first, unready⟩ := pending
    cases scopes with
    | nil => cases first
    | cons innermost outer =>
      cases first
      rw [Bindings.find?_insert] at unready
      split at unready
      · cases unready
      · exact settled name ⟨innermost, rfl, unready⟩
  · exact settled

theorem Settled.afterAll (settled : Settled scopes) (body : List Stmt) :
    Settled (Resolution.afterAll body scopes) := by
  induction body generalizing scopes with
  | nil => exact settled
  | cons first rest ih => exact ih (settled.after first)

theorem settled_paramScope (params : List Token) (outer : List (Bindings Bool)) :
    Settled (paramScope params :: outer) := by
  intro name pending
  obtain ⟨scope, first, unready⟩ := pending
  cases first
  rw [find?_paramScope] at unready
  split at unready <;> cases unready

/-- The scope of a call is inside the one its function was made in, and binds the parameters. -/
theorem Stands.enterFunction (stands : Stands records state scopes stack)
    (sound : state.Sound records) {function : Function} (fits : function.Fits records state.store)
    {arguments : List Value} (given : ∀ value ∈ arguments, value.Fits records state.store)
    (arity : arguments.length = function.arity) (line : Nat) :
    (enterFunction function arguments line stack state).Fits records := by
  obtain ⟨identity, ⟨name, params, body⟩, closure, isInitializer⟩ := function
  obtain ⟨outside, models, distinct, resolved⟩ := fits
  have kept := state.store.keeps_enter closure (parameterBindings params arguments)
  have same := state.store.same_enter closure (parameterBindings params arguments)
  have entered : (state.enter closure (parameterBindings params arguments)).Sound records :=
    sound.enter (fun _ _ found => given _ (parameterBindings_given found)) closure
  have settled := settled_paramScope params outside
  refine ⟨entered, trivial, paramScope params :: outside, ?_, settled, resolved,
    settled.afterAll body, stands.inside, scopes, ?_, ?_⟩
  · exact Describes.enter models (contains_parameterBindings arity)
  · exact stands.describes.keeps kept (same.below stands.inside)
  · exact stands.waits.keeps kept (same.below (Nat.le_of_lt stands.inside))

theorem Stands.callNative (stands : Stands records state scopes stack)
    (sound : state.Sound records) {native : Native} {arguments : List Value}
    (arity : arguments.length = native.arity)
    (answers : ∀ value, state.Answers (.native native) arguments value →
      value.Fits records state.store) (line : Nat) :
    (callNative native arguments line stack state).Fits records := by
  have after : (state.callHost native arguments).2.Sound records := ⟨sound.recorded, sound.holds⟩
  have here : Stands records (state.callHost native arguments).2 scopes stack :=
    stands.aside ⟨rfl, Store.Keeps.refl _, Store.Same.refl _⟩
  exact here.yields after (yields_callNative arity answers line)

theorem Stands.construct (stands : Stands records state scopes stack)
    (sound : state.Sound records) {c : Class}
    (holds : c.Holds (Function.FitsMethod records state.store)) {arguments : List Value}
    (given : ∀ value ∈ arguments, value.Fits records state.store)
    (arity : arguments.length = c.arity) (line : Nat) :
    (construct c arguments line stack state).Fits records := by
  have kept : state.store.Keeps (state.store.instantiate c).2 :=
    ⟨Nat.le_refl _, fun _ _ bound => bound⟩
  have made : (state.instantiate c).2.Sound records :=
    sound.withStore ((sound.kept kept).instantiate c)
  have aside : state.Aside (state.instantiate c).2 :=
    ⟨rfl, kept, fun _ _ _ => rfl⟩
  have here := stands.aside aside
  have object : (Value.object (state.instantiate c).1).Fits records state.store := holds
  unfold Machine.construct
  dsimp only
  cases initializer : c.initializer? with
  | none => exact here.done made (object.keeps kept)
  | some method =>
    have fits : method.FitsMethod records state.store := holds.findMethod? initializer
    obtain ⟨bound, moved, function⟩ :=
      made.bindMethod (fits.keeps aside.keeps) (object.keeps aside.keeps) here.inside
    have there := here.aside moved
    have waiting : Stands records
        ((state.instantiate c).2.bindMethod method (state.instantiate c).1).2 scopes
        (.constructing (state.instantiate c).1 :: stack) :=
      ⟨there.describes, (object.keeps aside.keeps).keeps moved.keeps, there.waits⟩
    refine waiting.enterFunction bound function ?_ ?_ line
    · intro value member
      exact ((given value member).keeps aside.keeps).keeps moved.keeps
    · rw [arity, Class.arity, initializer]
      rfl

theorem Stands.apply (stands : Stands records state scopes stack) (sound : state.Sound records)
    {callee : Value} (fits : callee.Fits records state.store) {arguments : List Value}
    (given : ∀ value ∈ arguments, value.Fits records state.store)
    (answers : ∀ value, state.Answers callee arguments value → value.Fits records state.store)
    (arity : callee.arity? = some arguments.length) (line : Nat) :
    (apply callee arguments line stack state).Fits records := by
  cases callee with
  | function function => exact stands.enterFunction sound fits given (Option.some.inj arity).symm line
  | native native => exact stands.callNative sound (Option.some.inj arity).symm answers line
  | klass c => exact stands.construct sound fits given (Option.some.inj arity).symm line
  | nil | bool _ | number _ | string _ | object _ => cases arity

theorem Stands.call (stands : Stands records state scopes stack) (sound : state.Sound records)
    {callee : Value} (fits : callee.Fits records state.store) (paren : Token)
    {arguments : List Value} (given : ∀ value ∈ arguments, value.Fits records state.store)
    (answers : ∀ value, state.Answers callee arguments value → value.Fits records state.store) :
    (call callee paren arguments stack state).Fits records := by
  unfold Machine.call
  cases arity : callee.arity? with
  | none => exact stands.failed sound _
  | some count =>
    dsimp only
    split
    · rename_i same
      exact stands.apply sound fits given answers (by rw [arity, same]) paren.line
    · exact stands.failed sound _

theorem Stands.nextArgument (stands : Stands records state scopes stack)
    (sound : state.Sound records) {callee : Value} (fits : callee.Fits records state.store)
    (paren : Token) {evaluated : List Value}
    (given : ∀ value ∈ evaluated, value.Fits records state.store) {pending : List Expr}
    (resolved : exprsResolved records scopes pending)
    (answers : pending = [] → ∀ value, state.Answers callee evaluated.reverse value →
      value.Fits records state.store) :
    (nextArgument callee paren evaluated stack state pending).Fits records := by
  cases pending with
  | nil =>
    refine stands.call sound fits paren ?_ (answers rfl)
    intro value member
    exact given value (List.mem_reverse.mp member)
  | cons first rest =>
    obtain ⟨here, later⟩ := resolved
    exact ⟨sound, scopes, ⟨stands.describes, ⟨fits, given, later⟩, stands.waits⟩, here⟩

/-! ### Names -/

theorem State.slot?_binds {reference : Reference} {address : Nat}
    (found : state.slot? reference = some address) :
    state.store.binds reference.name.lexeme address := by
  unfold State.slot? at found
  split at found
  · exact Store.slotAt?_binds found
  · exact Store.slot?_binds found

theorem Stands.writeName (stands : Stands records state scopes stack) (sound : state.Sound records)
    (target : Reference) {value : Value} (fits : value.Fits records state.store) :
    (writeName target value stack state).Fits records := by
  unfold Machine.writeName
  cases found : state.slot? target with
  | none => exact stands.failed sound _
  | some scope =>
    have aside : state.Aside (state.write scope target.name.lexeme value) :=
      ⟨rfl, Store.keeps_write _ _ _ _,
        Store.same_write_of_binds (State.slot?_binds found) value _⟩
    exact (stands.aside aside).done (sound.write fits scope _) (fits.keeps aside.keeps)

/-! ### Declarations -/

/-- A name that is being declared is bound for good, and what it stands for may refer to itself. -/
theorem Stands.declare (describes : Describes state.store state.current scopes)
    (sound : state.Sound records) (name : String) {value : Value}
    (fits : value.Fits records (state.define name value).store)
    (waits : StackFits records state.store state.current (marked scopes name true) stack) :
    (Config.done .nil stack (state.define name value)).Fits records := by
  have kept := state.store.keeps_write state.current.scope name value
  refine (Stands.define describes name value waits).done ?_ trivial
  exact sound.withStore ((sound.kept kept).write fits state.current.scope name)

theorem declareFunction_fits (describes : Describes state.store state.current scopes)
    (sound : state.Sound records) {declaration : FunctionDecl}
    (resolved : declaration.Resolved records (marked scopes declaration.name.lexeme true))
    (waits : StackFits records state.store state.current
      (marked scopes declaration.name.lexeme true) stack) :
    (declareFunction declaration stack state).Fits records := by
  let made := state.close declaration false
  have closed : made.2.Sound records := ⟨sound.recorded, sound.holds⟩
  have here : Describes made.2.store made.2.current scopes := describes
  have fits : (Value.function made.1).Fits records
      (made.2.define declaration.name.lexeme (.function made.1)).store :=
    ⟨_, (here.define _ _).models, resolved⟩
  exact Stands.declare here closed declaration.name.lexeme fits waits

theorem resolved_of_mem {methods : List FunctionDecl}
    (resolved : methodsResolved records scopes methods) :
    ∀ declaration ∈ methods, declaration.Resolved records scopes :=
  fun _ member => holds_of_mem (fun _ _ resolved => resolved) resolved member

/-- Around the methods of a subclass stands a scope that binds the superclass. -/
theorem enterSuper_models (superclass : Option Reference) {above : Option Class}
    (present : above.isSome = superclass.isSome) (rooted : 0 < state.store.scopes.size)
    {store : Store} (kept : (state.enterSuper above).store.Keeps store)
    (models : Models store state.current.scopes scopes) :
    Models store (state.enterSuper above).current.scopes
      ((superclass.map fun _ => scopeOf superName).toList ++ scopes) := by
  cases above with
  | none =>
    cases superclass with
    | none => exact models
    | some _ => cases present
  | some c =>
    cases superclass with
    | none => cases present
    | some _ =>
      have grown := kept.size
      have size : state.store.scopes.size < store.scopes.size := by
        simp only [State.enterSuper, State.enter, Store.enter, Array.size_push] at grown
        omega
      refine .inside (Nat.ne_of_gt rooted) size ?_ models
      intro name ready
      rw [find?_scopeOf] at ready
      split at ready
      · rename_i same
        apply kept.binds
        refine ((Store.binds_enter _ state.current _ _ name).trans (if_pos rfl)).trans ?_
        rw [Bindings.contains, Bindings.find?_insert, if_pos same]
        rfl
      · cases ready

theorem State.Sound.enterSuper (sound : state.Sound records) {above : Option Class}
    (holds : ∀ c, above = some c → c.Holds (Function.FitsMethod records state.store)) :
    (state.enterSuper above).Sound records ∧ state.store.Keeps (state.enterSuper above).store ∧
      state.store.Same state.store.scopes.size (state.enterSuper above).store := by
  cases above with
  | none => exact ⟨sound, Store.Keeps.refl _, Store.Same.refl _⟩
  | some c =>
    have given : (Value.klass c).Fits records state.store := holds c rfl
    exact ⟨sound.enter (fun _ _ found => Bindings.eq_of_find?_single found ▸ given) state.current,
      state.store.keeps_enter state.current _, state.store.same_enter state.current _⟩

theorem declareClass_fits (describes : Describes state.store state.current scopes)
    (sound : state.Sound records) (name : Token) (superclass : Option Reference)
    {above : Option Class} (present : above.isSome = superclass.isSome)
    (holds : ∀ c, above = some c → c.Holds (Function.FitsMethod records state.store))
    {methods : List FunctionDecl}
    (resolved : methodsResolved records (classScopes superclass ++ marked scopes name.lexeme true)
      methods)
    (waits : StackFits records state.store state.current (marked scopes name.lexeme true) stack) :
    (Config.done .nil stack (state.declareClass name above methods)).Fits records := by
  obtain ⟨born, own, declares, whole⟩ := state.declareClass_eq name above methods
  obtain ⟨entered, kept, same⟩ := sound.enterSuper holds
  have inside := describes.models.scope_lt
  let outside : State := { state.enterSuper above with current := state.current, born }
  have outsideSound : outside.Sound records := ⟨entered.recorded, entered.holds⟩
  have here : Describes outside.store outside.current scopes :=
    describes.keeps kept (same.below inside)
  have rest := waits.keeps kept (same.below (Nat.le_of_lt inside))
  let value : Value := .klass ⟨own, (above.map Class.layers).getD []⟩
  have last := outside.store.keeps_write state.current.scope name.lexeme value
  have around := enterSuper_models superclass present describes.models.positive last
    (here.define name.lexeme value).models
  have fits : value.Fits records (outside.define name.lexeme value).store :=
    declared_holds declares
      (fun _ declaration member => ⟨_, around, resolved_of_mem resolved declaration member⟩)
      fun c same => (holds c same).imp fun _ fits => (fits.keeps kept).keeps last
  rw [whole]
  exact Stands.declare here outsideSound name.lexeme fits rest

/-! ### Steps -/

theorem eval_fits {e : Expr} (stands : Stands records state scopes stack)
    (sound : state.Sound records) (resolved : e.Resolved records scopes) :
    (eval e stack state).Fits records := by
  obtain ⟨describes, waits⟩ := stands
  cases e with
  | literal literal => exact Stands.done ⟨describes, waits⟩ sound (Value.holds_ofLiteral literal)
  | unary operator operand => exact ⟨sound, scopes, ⟨describes, trivial, waits⟩, resolved⟩
  | binary first operator second =>
    exact ⟨sound, scopes, ⟨describes, resolved.2, waits⟩, resolved.1⟩
  | logical first operator second =>
    exact ⟨sound, scopes, ⟨describes, resolved.2, waits⟩, resolved.1⟩
  | grouping inner => exact ⟨sound, scopes, ⟨describes, waits⟩, resolved⟩
  | «variable» reference | this reference =>
    exact Stands.yields ⟨describes, waits⟩ sound (yields_readName sound.holds reference)
  | assign target value => exact ⟨sound, scopes, ⟨describes, resolved.1, waits⟩, resolved.2⟩
  | call callee paren arguments =>
    exact ⟨sound, scopes, ⟨describes, resolved.2, waits⟩, resolved.1⟩
  | get object name => exact ⟨sound, scopes, ⟨describes, trivial, waits⟩, resolved⟩
  | set object name value => exact ⟨sound, scopes, ⟨describes, resolved.2, waits⟩, resolved.1⟩
  | super reference method =>
    exact Stands.yields ⟨describes, waits⟩ sound (yields_superMethod sound.holds reference method)

theorem exec_fits {s : Stmt} (settled : Settled scopes)
    (describes : Describes state.store state.current scopes) (sound : state.Sound records)
    (resolved : s.Resolved records scopes)
    (waits : StackFits records state.store state.current (after s scopes) stack) :
    (exec s stack state).Fits records := by
  cases s with
  | expression e => exact ⟨sound, scopes, ⟨describes, waits⟩, resolved⟩
  | print e => exact ⟨sound, scopes, ⟨describes, settled, waits⟩, resolved⟩
  | var name initializer =>
    obtain ⟨undeclared, resolved⟩ := resolved
    cases initializer with
    | none => exact Stands.declare describes sound name.lexeme trivial waits
    | some initializer =>
      exact ⟨sound, _, ⟨describes.pending undeclared, scopes, settled, undeclared, rfl, waits⟩,
        resolved⟩
  | block body =>
    have kept := state.store.keeps_enter state.current .empty
    have same := state.store.same_enter state.current .empty
    have inside := describes.models.scope_lt
    have entered : (state.enter state.current .empty).Sound records :=
      sound.enter (by simp) state.current
    have ready : Settled (.empty :: scopes) := by
      intro name pending
      obtain ⟨scope, first, unready⟩ := pending
      cases first
      cases unready
    refine ⟨entered, trivial, .empty :: scopes, ?_, ready, resolved, ready.afterAll body, inside,
      scopes, ?_, ?_⟩
    · exact Describes.enter describes.models fun name => by simp [Bindings.contains]
    · exact describes.keeps kept (same.below inside)
    · exact StackFits.keeps waits kept (same.below (Nat.le_of_lt inside))
  | conditional condition thenBranch elseBranch =>
    exact ⟨sound, scopes, ⟨describes, ⟨settled, resolved.2.1, resolved.2.2⟩, waits⟩, resolved.1⟩
  | loop condition body =>
    exact ⟨sound, scopes,
      ⟨describes, ⟨settled, resolved.1, resolved.2.1, resolved.2.2⟩, waits⟩, resolved.1⟩
  | function declaration => exact declareFunction_fits describes sound resolved.2 waits
  | ret keyword value =>
    cases value with
    | none => exact ⟨sound, trivial, scopes, waits⟩
    | some value => exact ⟨sound, scopes, ⟨describes, settled, waits⟩, resolved⟩
  | classDecl name superclass methods =>
    obtain ⟨undeclared, reads, methodsResolved⟩ := resolved
    unfold exec declareClass
    dsimp only
    cases superclass with
    | none =>
      exact declareClass_fits describes sound name none rfl (by simp) methodsResolved waits
    | some reference =>
      dsimp only
      split
      · exact ⟨sound, _, waits⟩
      · rename_i above found
        refine declareClass_fits describes sound name (some reference) rfl ?_ methodsResolved waits
        intro c same
        cases same
        exact lookup?_holds sound.holds found
      · exact ⟨sound, _, waits⟩

theorem resume_fits {value : Value} {frame : Frame} (fits : value.Fits records state.store)
    (describes : Describes state.store state.current scopes) (sound : state.Sound records)
    (waits : StackFits records state.store state.current scopes (frame :: stack))
    (answers : ∀ answer, Config.Answers ⟨.signal (.done value), frame :: stack, state⟩ answer →
      answer.Fits records state.store) :
    (resume value stack state frame).Fits records := by
  cases frame with
  | unary operator =>
    exact Stands.yields ⟨describes, waits.2⟩ sound (yields_applyUnary operator value)
  | left operator operand =>
    obtain ⟨resolved, waits⟩ := waits
    exact ⟨sound, scopes, ⟨describes, fits, waits⟩, resolved⟩
  | right first operator =>
    exact Stands.yields ⟨describes, waits.2⟩ sound (yields_applyBinary operator first value)
  | logical operator operand =>
    obtain ⟨resolved, waits⟩ := waits
    simp only [resume]
    split
    · exact Stands.done ⟨describes, waits⟩ sound fits
    · exact ⟨sound, scopes, ⟨describes, waits⟩, resolved⟩
  | assign reference => exact Stands.writeName ⟨describes, waits.2⟩ sound reference fits
  | callee paren arguments =>
    refine Stands.nextArgument ⟨describes, waits.2⟩ sound fits paren (by simp) waits.1 ?_
    rintro rfl answer answered
    exact answers answer ⟨_, _, _, _, .plain, answered⟩
  | argument called paren evaluated pending =>
    obtain ⟨⟨callee, values, resolved⟩, waits⟩ := waits
    refine Stands.nextArgument ⟨describes, waits⟩ sound callee paren
      (List.forall_mem_cons.mpr ⟨fits, values⟩) resolved ?_
    rintro rfl answer answered
    exact answers answer ⟨_, _, _, _, .given, answered⟩
  | property name =>
    exact Stands.yields ⟨describes, waits.2⟩ sound (yields_getProperty sound.holds fits name)
  | target name expr =>
    obtain ⟨resolved, waits⟩ := waits
    simp only [resume]
    split
    · exact ⟨sound, scopes, ⟨describes, fits, waits⟩, resolved⟩
    · exact ⟨sound, scopes, waits⟩
  | field object name =>
    have aside : state.Aside (state.setField object name.lexeme value) :=
      ⟨rfl, ⟨Nat.le_refl _, fun _ _ bound => bound⟩, fun _ _ _ => rfl⟩
    have stands : Stands records state scopes stack := ⟨describes, waits.2⟩
    exact (stands.aside aside).done (sound.setField fits object name.lexeme)
      (fits.keeps aside.keeps)
  | print =>
    exact ⟨⟨sound.recorded, sound.holds⟩, trivial, scopes, describes, waits.2⟩
  | define name =>
    obtain ⟨base, settled, undeclared, shape, waits⟩ := waits
    subst shape
    have stands : Stands records (state.define name.lexeme value)
        (marked (marked base name.lexeme false) name.lexeme true) stack := by
      refine Stands.define describes name.lexeme value ?_
      rwa [Walk.marked_marked]
    exact stands.done (sound.define fits name.lexeme) trivial
  | branch thenBranch elseBranch =>
    obtain ⟨⟨settled, ⟨resolved, none⟩, otherwise⟩, waits⟩ := waits
    simp only [resume]
    split
    · exact ⟨sound, scopes, settled, describes, resolved, by rwa [after_eq_self none]⟩
    · cases elseBranch with
      | none => exact Stands.done ⟨describes, waits⟩ sound trivial
      | some elseBranch =>
        exact ⟨sound, scopes, settled, describes, otherwise.1,
          by rwa [after_eq_self otherwise.2]⟩
  | test condition body =>
    obtain ⟨⟨settled, condition', body', none⟩, waits⟩ := waits
    simp only [resume]
    split
    · refine ⟨sound, scopes, settled, describes, body', ?_⟩
      rw [after_eq_self none]
      exact ⟨⟨settled, condition', body', none⟩, waits⟩
    · exact Stands.done ⟨describes, waits⟩ sound trivial
  | again condition body =>
    obtain ⟨loop, waits⟩ := waits
    exact ⟨sound, scopes, ⟨describes, loop, waits⟩, loop.2.1⟩
  | returning => exact ⟨sound, fits, scopes, waits.2⟩
  | sequence rest =>
    obtain ⟨settled, resolved, waits⟩ := waits
    cases rest with
    | nil => exact Stands.done ⟨describes, waits⟩ sound trivial
    | cons next rest =>
      exact ⟨sound, scopes, settled, describes, resolved.1, settled.after next, resolved.2, waits⟩
  | restore previous =>
    obtain ⟨_, _, outside, there, waits⟩ := waits
    exact ⟨sound.withCurrent previous, trivial, outside, there, waits⟩
  | activation caller function line =>
    obtain ⟨_, _, outside, there, waits⟩ := waits
    have stands : Stands records (state.withCurrent caller) outside stack := ⟨there, waits⟩
    have around := sound.withCurrent caller
    exact stands.yields around (yields_finishCall around.holds function line .nil trivial)
  | constructing made => exact Stands.done ⟨describes, waits.2⟩ sound waits.1
  | program rest =>
    obtain ⟨atGlobals, shape, positive, resolved, empty⟩ := waits
    subst shape empty
    cases rest with
    | nil =>
      have stands : Stands records state [] [] := ⟨describes, atGlobals, rfl, positive⟩
      exact stands.done sound trivial
    | cons next rest =>
      have settled : Settled [] := fun _ pending => by
        obtain ⟨scope, first, _⟩ := pending
        cases first
      have still : after next [] = [] := by
        unfold after
        split <;> rfl
      refine ⟨sound, [], settled, describes, resolved.1, atGlobals, still, positive, ?_, rfl⟩
      have later := resolved.2
      rwa [still] at later

/-- Frames that are left before their time put the environment back that was in force around them. -/
theorem leave_fits {frame : Frame} (sound : state.Sound records)
    (waits : StackFits records state.store state.current scopes (frame :: stack)) :
    (leave state frame).Sound records ∧
      ∃ outside, StackFits records (leave state frame).store (leave state frame).current outside
        stack := by
  cases frame with
  | restore previous =>
    obtain ⟨_, _, outside, _, waits⟩ := waits
    exact ⟨sound.withCurrent previous, outside, waits⟩
  | activation caller function line =>
    obtain ⟨_, _, outside, _, waits⟩ := waits
    exact ⟨sound.withCurrent caller, outside, waits⟩
  | define name =>
    obtain ⟨base, _, _, _, waits⟩ := waits
    exact ⟨sound, _, waits⟩
  | sequence rest => exact ⟨sound, _, waits.2.2⟩
  | program rest =>
    obtain ⟨atGlobals, shape, positive, _, empty⟩ := waits
    subst shape empty
    exact ⟨sound, [], atGlobals, rfl, positive⟩
  | _ => exact ⟨sound, scopes, waits.2⟩

theorem unwind_fits {value : Value} {frame : Frame} (fits : value.Fits records state.store)
    (sound : state.Sound records)
    (waits : StackFits records state.store state.current scopes (frame :: stack)) :
    (unwind value stack state frame).Fits records := by
  cases frame with
  | activation caller function line =>
    obtain ⟨_, _, outside, there, waits⟩ := waits
    have stands : Stands records (state.withCurrent caller) outside stack := ⟨there, waits⟩
    have around := sound.withCurrent caller
    exact stands.yields around (yields_finishCall around.holds function line value fits)
  | program rest =>
    have describes : Describes state.store state.current scopes := by
      obtain ⟨atGlobals, shape, positive, _⟩ := waits
      rw [atGlobals, shape]
      exact ⟨.globals positive, fun _ => nofun⟩
    exact resume_fits fits describes sound waits fun _ answers =>
      absurd answers not_answers_program
  | restore previous =>
    obtain ⟨left, below⟩ := leave_fits sound waits
    exact ⟨left, fits, below⟩
  | _ =>
    obtain ⟨left, below⟩ := leave_fits sound waits
    exact ⟨left, fits, below⟩

/-- A step keeps everything resolved if what a native answers is. -/
theorem Config.Fits.step {config : Config} (fits : config.Fits records)
    (answers : ∀ answer, config.Answers answer → answer.Fits records config.state.store) :
    (step config).Fits records := by
  obtain ⟨control, stack, state⟩ := config
  obtain ⟨sound, fits⟩ := fits
  cases control with
  | eval e =>
    obtain ⟨scopes, stands, resolved⟩ := fits
    exact eval_fits stands sound resolved
  | exec s =>
    obtain ⟨scopes, settled, describes, resolved, waits⟩ := fits
    exact exec_fits settled describes sound resolved waits
  | signal signal =>
    cases stack with
    | nil => exact ⟨sound, fits⟩
    | cons frame stack =>
      cases signal with
      | done value =>
        obtain ⟨value', scopes, describes, waits⟩ := fits
        exact resume_fits value' describes sound waits answers
      | returned value =>
        obtain ⟨value', scopes, waits⟩ := fits
        exact unwind_fits value' sound waits
      | failed fault =>
        obtain ⟨scopes, waits⟩ := fits
        obtain ⟨left, below⟩ := leave_fits sound waits
        exact ⟨left, below⟩

/-! ### What is held -/

theorem Frame.Fits.holds {store : Store} {frame : Frame} (fits : frame.Fits records store scopes) :
    frame.Holds (Function.Fits records store) (Function.FitsMethod records store) := by
  cases frame with
  | argument called paren evaluated pending => exact ⟨fits.1, fits.2.1⟩
  | right _ _ | field _ _ | constructing _ => exact fits
  | _ => trivial

theorem StackFits.holds {store : Store} {here : Environment}
    (fits : StackFits records store here scopes stack) : ∀ frame ∈ stack,
      frame.Holds (Function.Fits records store) (Function.FitsMethod records store) := by
  induction stack generalizing here scopes with
  | nil => exact List.forall_mem_nil _
  | cons frame stack ih =>
    refine List.forall_mem_cons.mpr ?_
    cases frame with
    | define name =>
      obtain ⟨_, _, _, _, rest⟩ := fits
      exact ⟨trivial, ih rest⟩
    | sequence rest => exact ⟨trivial, ih fits.2.2⟩
    | restore previous | activation previous _ _ =>
      obtain ⟨_, _, _, _, rest⟩ := fits
      exact ⟨trivial, ih rest⟩
    | program rest =>
      obtain ⟨_, _, _, _, empty⟩ := fits
      subst empty
      exact ⟨trivial, List.forall_mem_nil _⟩
    | _ => exact ⟨Frame.Fits.holds fits.1, ih fits.2⟩

theorem Config.Fits.holds {config : Config} (fits : config.Fits records) :
    config.Holds (Function.Fits records config.state.store)
      (Function.FitsMethod records config.state.store) := by
  obtain ⟨control, stack, state⟩ := config
  obtain ⟨sound, fits⟩ := fits
  refine ⟨sound.holds, ?_, ?_⟩
  · cases control with
    | eval _ | exec _ => trivial
    | signal signal =>
      cases signal with
      | done _ | returned _ => exact fits.1
      | failed _ => trivial
  · cases control with
    | eval _ =>
      obtain ⟨_, stands, _⟩ := fits
      exact stands.waits.holds
    | exec _ =>
      obtain ⟨_, _, _, _, waits⟩ := fits
      exact waits.holds
    | signal signal =>
      cases signal with
      | done _ =>
        obtain ⟨_, _, stands⟩ := fits
        exact stands.waits.holds
      | returned _ =>
        obtain ⟨_, _, waits⟩ := fits
        exact waits.holds
      | failed _ =>
        obtain ⟨_, waits⟩ := fits
        exact waits.holds

/-- Honest natives answer with what fits. -/
theorem Config.Fits.step_honest {config : Config} (fits : config.Fits records)
    (honest : ∀ act ∈ config.state.hosts, Honest act) : (Machine.step config).Fits records :=
  fits.step fun _ answers => answers.holds honest fits.holds

end Lox.Machine
