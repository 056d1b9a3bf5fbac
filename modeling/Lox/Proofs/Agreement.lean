import Mathlib
import Lox.Proofs.Hosts

/-! The scopes of the resolver are the environments of the machine: whatever has a distance on record
is bound in just the environment at that distance, whenever it is looked up. -/

namespace Lox.Machine

open Resolution

/-- The environment so many scopes out binds a name itself. -/
def State.BindsAt (state : State) (distance : Nat) (name : String) : Prop :=
  ∃ found, state.current.ancestor? distance = some found ∧ state.store.binds name found.scope

/-- The next step reads a variable, the receiver, or the name of a superclass. -/
inductive Config.Reads : Config → Reference → Prop
  | name {reference : Reference} {stack : List Frame} {state : State} :
      Config.Reads ⟨.eval (.variable reference), stack, state⟩ reference
  | receiver {reference : Reference} {stack : List Frame} {state : State} :
      Config.Reads ⟨.eval (.this reference), stack, state⟩ reference
  | superclass {name : Token} {reference : Reference} {methods : List FunctionDecl}
      {stack : List Frame} {state : State} :
      Config.Reads ⟨.exec (.classDecl name (some reference) methods), stack, state⟩ reference

/-- A name turned out to have no value. -/
def Config.Undefined (config : Config) : Prop :=
  ∃ name line, config.control = .signal (.failed (.undefinedVariable name line))

/-- A frame that stands inside of an expression. -/
def Frame.isOperand : Frame → Bool
  | .unary _ | .left .. | .right .. | .logical .. | .assign _ | .callee .. | .argument ..
  | .property _ | .target .. | .field .. | .constructing _ => true
  | _ => false

/-- What is being evaluated stands in the initializer of a variable with a given name. -/
def Initializing (name : String) : List Frame → Prop
  | [] => False
  | .define declared :: _ => declared.lexeme = name
  | frame :: stack => frame.isOperand ∧ Initializing name stack

/-- Names with a distance on record are where it says, but for a variable that is assigned to in its
own initializer. -/
structure Config.Agrees (config : Config) : Prop where
  reads : ∀ reference distance, config.Reads reference →
    config.state.distance? reference = some distance →
      config.state.BindsAt distance reference.name.lexeme ∧ ¬(step config).Undefined
  receiver : ∀ reference, config.control = .eval (.this reference) →
    reference.name.lexeme = thisName ∧ ∃ distance, config.state.distance? reference = some distance
  superclass : ∀ reference method, config.control = .eval (.super reference method) →
    reference.name.lexeme = superName ∧
      ∃ distance, config.state.distance? reference = some (distance + 1) ∧
        config.state.BindsAt (distance + 1) superName ∧ config.state.BindsAt distance thisName ∧
          ¬(step config).Undefined
  writes : ∀ target value stack distance, config.control = .signal (.done value) →
    config.stack = .assign target :: stack → config.state.distance? target = some distance →
      ¬Initializing target.name.lexeme stack →
        config.state.BindsAt distance target.name.lexeme ∧ ¬(step config).Undefined
  exception : ∀ target value stack distance, config.control = .signal (.done value) →
    config.stack = .assign target :: stack → config.state.distance? target = some distance →
      Initializing target.name.lexeme stack →
        ¬config.state.BindsAt distance target.name.lexeme ∧ (step config).Undefined

variable {records : Records} {state : State} {scopes : List (Bindings Bool)} {stack : List Frame}
  {distance : Nat} {name : String}

theorem State.bindsAt_iff : state.BindsAt distance name ↔
    ∃ address, state.current.scopes[distance]? = some address ∧ state.store.binds name address := by
  rw [← Environment.scope_ancestor?]
  constructor
  · intro bound
    obtain ⟨found, there, binds⟩ := bound
    exact ⟨found.scope, by rw [there]; rfl, binds⟩
  · intro bound
    obtain ⟨address, there, binds⟩ := bound
    obtain ⟨found, ancestor, same⟩ := Option.map_eq_some_iff.mp there
    exact ⟨found, ancestor, same ▸ binds⟩

theorem State.bindsAt_of_ready (describes : Describes state.store state.current scopes)
    (ready : Ready scopes distance name) : state.BindsAt distance name :=
  State.bindsAt_iff.mpr (describes.models.ready ready)

theorem State.BindsAt.getAt? (bound : state.BindsAt distance name) :
    ∃ value, state.store.getAt? state.current distance name = some value := by
  obtain ⟨found, there, binds⟩ := bound
  obtain ⟨value, held⟩ := Option.isSome_iff_exists.mp binds
  exact ⟨value, by rw [Store.getAt?, there]; exact held⟩

theorem State.slot?_isSome_iff {target : Reference}
    (recorded : state.distance? target = some distance) :
    (state.slot? target).isSome ↔ state.BindsAt distance target.name.lexeme := by
  rw [State.bindsAt_iff, State.slot?, recorded]
  dsimp only
  rw [Store.slotAt?_eq]
  cases state.current.scopes[distance]? with
  | none => simp
  | some address => by_cases bound : state.store.binds target.name.lexeme address <;> simp [bound]

/-- A scope has a pending name just while the initializer of that name is evaluated. -/
theorem StackFits.pending_iff {store : Store} {here : Environment}
    (waits : StackFits records store here scopes stack) (inside : scopes ≠ []) :
    Pending scopes name ↔ Initializing name stack := by
  induction stack generalizing scopes with
  | nil => exact absurd waits.2.1 inside
  | cons frame stack ih =>
    have statement (settled : Settled scopes) : Pending scopes name ↔ False :=
      ⟨settled name, False.elim⟩
    have operand (waits : StackFits records store here scopes stack) :
        Pending scopes name ↔ true = true ∧ Initializing name stack := by
      rw [ih waits inside]
      simp
    cases frame with
    | define declared =>
      obtain ⟨base, settled, undeclared, shape, _⟩ := waits
      subst shape
      cases base with
      | nil => exact absurd rfl inside
      | cons scope outer =>
        constructor
        · intro pending
          obtain ⟨found, first, unready⟩ := pending
          cases first
          rw [Bindings.find?_insert] at unready
          split at unready
          · rename_i same
            exact same.symm
          · exact absurd ⟨scope, rfl, unready⟩ (settled name)
        · intro same
          refine ⟨_, rfl, ?_⟩
          rw [Bindings.find?_insert, if_pos]
          exact same.symm
    | print | returning => simpa [Initializing, Frame.isOperand] using statement waits.1
    | branch _ _ | test _ _ | again _ _ =>
      simpa [Initializing, Frame.isOperand] using statement waits.1.1
    | sequence _ | restore _ | activation _ _ _ =>
      simpa [Initializing, Frame.isOperand] using statement waits.1
    | program _ => exact absurd waits.2.1 inside
    | _ => exact operand waits.2

theorem readName_defined {reference : Reference}
    (recorded : state.distance? reference = some distance)
    (bound : state.BindsAt distance reference.name.lexeme) :
    ¬(readName reference stack state).Undefined := by
  obtain ⟨value, held⟩ := bound.getAt?
  intro undefined
  obtain ⟨name, line, same⟩ := undefined
  rw [readName, State.lookup?, recorded] at same
  dsimp only at same
  rw [held] at same
  cases same

theorem distanceIn_of_pending (pending : Pending scopes name) :
    distanceIn scopes name = some 0 := by
  obtain ⟨scope, first, unready⟩ := pending
  cases scopes with
  | nil => cases first
  | cons innermost outer =>
    cases first
    rw [distanceIn_cons, if_pos]
    rw [Bindings.contains, unready]
    rfl

theorem State.Sound.distance? (sound : state.Sound records) {reference : Reference}
    (recorded : state.distance? reference = some distance) :
    records.distance? reference.id = some distance := by
  rw [← sound.recorded]
  exact recorded

theorem Stands.reads_agree {reference : Reference} (stands : Stands records state scopes stack)
    (sound : state.Sound records) (reads : Resolution.Reads records scopes reference)
    (recorded : state.distance? reference = some distance) :
    state.BindsAt distance reference.name.lexeme :=
  State.bindsAt_of_ready stands.describes (reads.ready distance (sound.distance? recorded))

theorem Config.Fits.reads_agree {config : Config} (fits : config.Fits records)
    {reference : Reference} (reads : config.Reads reference)
    (recorded : config.state.distance? reference = some distance) :
    config.state.BindsAt distance reference.name.lexeme ∧ ¬(Machine.step config).Undefined := by
  obtain ⟨sound, fits⟩ := fits
  cases reads with
  | name =>
    obtain ⟨scopes, stands, reads⟩ := fits
    have bound := stands.reads_agree sound reads recorded
    exact ⟨bound, readName_defined recorded bound⟩
  | receiver =>
    obtain ⟨scopes, stands, reads⟩ := fits
    obtain ⟨found, there, ready⟩ := reads.ready
    have same : found = distance :=
      Option.some.inj (there.symm.trans (sound.distance? recorded))
    have bound := State.bindsAt_of_ready stands.describes ready
    rw [same, ← reads.word] at bound
    exact ⟨bound, readName_defined recorded bound⟩
  | superclass =>
    obtain ⟨scopes, settled, describes, resolved, waits⟩ := fits
    have reads : Resolution.Reads records scopes reference := resolved.2.1
    have bound := State.bindsAt_of_ready describes
      (reads.ready distance (sound.distance? recorded))
    refine ⟨bound, ?_⟩
    obtain ⟨value, held⟩ := bound.getAt?
    rintro ⟨name, line, same⟩
    simp only [Machine.step, exec, declareClass, State.lookup?, recorded, held] at same
    split at same
    · rename_i impossible
      cases impossible
    · cases same
    · cases same

/-- The superclass is fetched from the scope around the receiver's. -/
theorem Config.Fits.superclass_agrees {config : Config} (fits : config.Fits records)
    {reference : Reference} {method : Token}
    (reads : config.control = .eval (.super reference method)) :
    reference.name.lexeme = superName ∧
      ∃ distance, config.state.distance? reference = some (distance + 1) ∧
        config.state.BindsAt (distance + 1) superName ∧ config.state.BindsAt distance thisName ∧
          ¬(Machine.step config).Undefined := by
  obtain ⟨control, stack, state⟩ := config
  obtain ⟨sound, fits⟩ := fits
  cases reads
  obtain ⟨scopes, stands, reads⟩ := fits
  have reads : ReadsSuper records scopes reference := reads
  obtain ⟨distance, there, above, receiver⟩ := reads.ready
  have recorded : state.distance? reference = some (distance + 1) := by
    rw [← sound.recorded] at there
    exact there
  have superBound := State.bindsAt_of_ready stands.describes above
  have thisBound := State.bindsAt_of_ready stands.describes receiver
  refine ⟨reads.word, distance, recorded, superBound, thisBound, ?_⟩
  obtain ⟨superclass, found⟩ := superBound.getAt?
  obtain ⟨instance_, made⟩ := thisBound.getAt?
  rintro ⟨name, line, same⟩
  simp only [Machine.step, eval, superMethod, recorded, reads.word, found, Nat.add_sub_cancel,
    made] at same
  split at same
  · rename_i impossible
    cases impossible
  · split at same
    · rename_i impossible
      cases impossible
    · split at same
      · cases same
      · cases same
    · cases same
  · cases same

theorem Config.Fits.writes_agree {config : Config} (fits : config.Fits records)
    {target : Reference} {value : Value} {stack : List Frame}
    (control : config.control = .signal (.done value))
    (waiting : config.stack = .assign target :: stack)
    (recorded : config.state.distance? target = some distance) :
    (config.state.BindsAt distance target.name.lexeme ↔
        ¬Initializing target.name.lexeme stack) ∧
      ((Machine.step config).Undefined ↔
        ¬config.state.BindsAt distance target.name.lexeme) := by
  obtain ⟨_, _, state⟩ := config
  cases control
  cases waiting
  obtain ⟨sound, _, scopes, describes, writes, waits⟩ := fits
  have writes : Writes records scopes target := writes
  have found := sound.distance? recorded
  constructor
  · have inside : scopes ≠ [] := by
      intro empty
      have nowhere := writes.recorded
      rw [found, empty] at nowhere
      cases nowhere
    rw [← waits.pending_iff inside]
    rcases writes.ready distance found with ready | ⟨here, pending⟩
    · refine iff_of_true (State.bindsAt_of_ready describes ready) ?_
      intro pending
      have here := (writes.recorded.symm.trans found).symm.trans (distanceIn_of_pending pending)
      cases here
      obtain ⟨scope, first, unready⟩ := pending
      obtain ⟨same, there, value⟩ := ready
      rw [first] at there
      cases there
      rw [unready] at value
      cases value
    · refine iff_of_false ?_ (fun settled => settled pending)
      intro bound
      obtain ⟨scope, first, unready⟩ := pending
      subst here
      obtain ⟨address, there, binds⟩ := State.bindsAt_iff.mp bound
      cases there
      have ready := describes.complete scope first _ binds
      rw [unready] at ready
      cases ready
  · rw [← State.slot?_isSome_iff recorded]
    cases slot : state.slot? target with
    | some scope =>
      refine iff_of_false ?_ (by simp)
      rintro ⟨name, line, same⟩
      simp only [Machine.step, deliver, resume, writeName, slot] at same
      cases same
    | none =>
      refine iff_of_true ?_ (by simp)
      refine ⟨target.name.lexeme, target.name.line, ?_⟩
      simp only [Machine.step, deliver, resume, writeName, slot]
      rfl

theorem Config.Fits.agrees {config : Config} (fits : config.Fits records) : config.Agrees where
  reads _ _ reads recorded := fits.reads_agree reads recorded
  receiver reference control := by
    obtain ⟨_, stack, state⟩ := config
    obtain ⟨sound, fits⟩ := fits
    cases control
    obtain ⟨scopes, _, reads⟩ := fits
    have reads : ReadsThis records scopes reference := reads
    obtain ⟨distance, there, _⟩ := reads.ready
    rw [← sound.recorded] at there
    exact ⟨reads.word, distance, there⟩
  superclass _ _ control := fits.superclass_agrees control
  writes target value stack distance control waiting recorded settled := by
    obtain ⟨bound, undefined⟩ := fits.writes_agree control waiting recorded
    have here := bound.mpr settled
    exact ⟨here, fun fails => undefined.mp fails here⟩
  exception target value stack distance control waiting recorded initializing := by
    obtain ⟨bound, undefined⟩ := fits.writes_agree control waiting recorded
    have nowhere : ¬config.state.BindsAt distance target.name.lexeme :=
      fun here => bound.mp here initializing
    exact ⟨nowhere, undefined.mpr nowhere⟩

/-- In every execution of a session whose hosts hand in functions as functions and methods as methods,
names with a distance on record are where it says. -/
theorem reachable_agrees {session : Session} {config : Config} {kept : List Value}
    (reached : Stage.Reachable .strict ⟨.busy session config, kept⟩) : config.Agrees := by
  obtain ⟨records, _, fits, _⟩ := reached.fits.moment
  exact fits.agrees

theorem reachable_agrees_in_block : ∃ session config kept reference,
    Stage.Reachable .strict ⟨.busy session config, kept⟩ ∧
      config.control = .eval (.variable reference) ∧ config.Agrees := by
  have accepted : ((Session.start (fun _ => 0) false).prepare "\x7bvar a;a;\x7d").2.isSome := by cbv
  have began : Later Honest _ _ := later_begin accepted
  have reached : Reachable Honest _ := ⟨_, _, began.trans (later_advance _ 6 _)⟩
  refine ⟨_, _, _, ⟨0, ⟨.identifier, "a", 1⟩⟩, reached.staged .strict, ?_,
    reachable_agrees (reached.staged .strict)⟩
  cbv

/-! ### A method without its receiver -/

namespace Unbinding

def source : String := "class A\x7bm()\x7bprint this;\x7d\x7d unbound(A)();"

def a : Token := ⟨.identifier, "A", 1⟩

def paren : Token := ⟨.symbol .rightParen, ")", 1⟩

def native : Reference := ⟨1, ⟨.identifier, "unbound", 1⟩⟩

def receiver : Reference := ⟨0, ⟨.keyword .this, "this", 1⟩⟩

def method : FunctionDecl := ⟨⟨.identifier, "m", 1⟩, [], [.print (.this receiver)]⟩

def program : List Stmt :=
  [.classDecl a none [method],
    .expression (.call (.call (.variable native) paren [.variable ⟨2, a⟩]) paren [])]

def ready : Session := (Session.start (fun _ => 0) false).defineNative "unbound" 1 unbound

set_option maxRecDepth 4000 in
theorem prepared : ∃ running, ready.prepare source = (running, some program) ∧
    running.machine = { ready.machine with distances := running.machine.distances } ∧
    ∀ id : Nat, running.machine.distances[id]? = [(0, 1)].lookup id := by
  have accepted : (ready.prepare source).2 = some program := by cbv
  have recorded : resolve program = .ok [(0, 1)] := by cbv
  exact Session.prepare_first (fun _ => Std.HashMap.getElem?_empty) accepted recorded

def c : Class := ⟨⟨1, "A", Bindings.empty.insert "m" ⟨0, method, globals, false⟩⟩, []⟩

def taking : Value := .native ⟨1, "unbound", 1⟩

def outside : List Frame := [.callee paren [], .program []]

variable (d : Distances)

def beginning : Config := interpreting program { ready.machine with distances := d }

/-- The class is there. -/
def before : State := (advance 6 (beginning d)).state

/-- The receiver is looked for in the method. -/
def inside : Config :=
  advance 4 (.done (.klass c) (.argument taking paren [] [] :: outside) (before d))

variable {d}

theorem names (global : d[1]? = none) : step (advance 6 (beginning d)) =
    .done taking (.callee paren [.variable ⟨2, a⟩] :: outside) (before d) := by
  have absent : (before d).distance? native = none := global
  have found : (before d).store.get? globals "unbound" = some taking := by cbv
  exact step_variable rfl ((State.lookup?_global absent).trans found)

theorem passes (global : d[2]? = none) :
    step ⟨.eval (.variable ⟨2, a⟩), .argument taking paren [] [] :: outside, before d⟩ =
      .done (.klass c) (.argument taking paren [] [] :: outside) (before d) := by
  have absent : (before d).distance? ⟨2, a⟩ = none := global
  have found : (before d).store.get? globals "A" = some (.klass c) := by cbv
  exact step_variable rfl ((State.lookup?_global absent).trans found)

theorem looks : (inside d).control = .eval (.this receiver) ∧
    (inside d).state.current.scopes = [1, 0] ∧
    (inside d).state.store.binds thisName 0 = false := by
  refine ⟨rfl, ?_, ?_⟩ <;> cbv

end Unbinding

section Unbinding

open Unbinding

/-- A method that a native has taken out of its class lacks the scope of its receiver. -/
theorem unbound_disagrees : ∃ session config,
    Reachable (· = unbound) (.busy session config) ∧ ¬config.Agrees := by
  obtain ⟨running, prepared, machine, distances⟩ := prepared
  let d := running.machine.distances
  have started : Later (· = unbound) (.idle (Session.start (fun _ => 0) false)) (.idle ready) :=
    .next (.refl _) (.native rfl)
  have begun : Later (· = unbound) _ (.busy running (interpreting program running.machine)) :=
    started.next (.begin prepared)
  rw [machine] at begun
  have named : Later (· = unbound) _ (.busy running _) :=
    names (distances 1) ▸ (begun.trans (later_advance running 6 _)).next (.step rfl)
  have passed : Later (· = unbound) _ (.busy running _) :=
    passes (distances 2) ▸ (named.next (.step rfl)).next (.step rfl)
  have there : Later (· = unbound) _ (.busy running (inside d)) :=
    passed.trans (later_advance running 4 _)
  refine ⟨running, inside d, ⟨_, _, there⟩, fun agrees => ?_⟩
  obtain ⟨_, scopes, unbound⟩ := looks (d := d)
  obtain ⟨bound, _⟩ := agrees.reads receiver 1 .receiver (distances 0)
  obtain ⟨address, there, binds⟩ := State.bindsAt_iff.mp bound
  rw [scopes] at there
  cases there
  exact Bool.false_ne_true (unbound.symm.trans binds)

end Unbinding

end Lox.Machine
