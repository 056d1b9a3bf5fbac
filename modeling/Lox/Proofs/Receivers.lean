import Mathlib
import Lox.Proofs.Accounts
import Lox.Proofs.Floors
import Lox.Proofs.Keywords
import Lox.Proofs.Permanent

/-! Receivers. A bound method keeps its instance for all calls to come, an initializer that ends
well yields the instance it was bound to, and a class that is called yields one it has just made. -/

namespace Lox

open Machine Resolution

/-- The uses of `this` in a method, those in the methods of further classes apart. -/
def FunctionDecl.receivers (depth : Nat) (f : FunctionDecl) : List Use :=
  f.keywords thisName depth

namespace Stage

/-- From a stage on, an environment holds one binding. -/
def Keeps (conduct : Conduct) (stage : Stage) (address : Nat) (name : String) (value : Value) :
    Prop :=
  ∀ last, Later conduct stage last → ∀ other,
    last.moment.machine.store.lookup? address other = if other = name then some value else none

/-- What comes of a call while there are more frames than were below it: steps of the program, and
what hosts do beside them. -/
inductive Above (conduct : Conduct) (stack : List Frame) : Stage → Stage → Prop
  | refl (stage : Stage) : Above conduct stack stage stage
  | next {first last : Stage} {session : Session} {config : Config} {kept : List Value} :
      Above conduct stack first ⟨.busy session config, kept⟩ →
      stack.length < config.stack.length → Next conduct ⟨.busy session config, kept⟩ last →
        Above conduct stack first last

/-- A method is bound to an instance: by the next step, or by a host that has found it in a class. -/
inductive Binds (conduct : Conduct) : Stage → Stage → Function → Instance → Prop
  | step {session : Session} {config : Config} {kept : List Value} {f : Function} {i : Instance} :
      config.Binds f i →
      Binds conduct ⟨.busy session config, kept⟩ ⟨.busy session (step config), kept⟩ f i
  | host {session : Session} {config : Config} {kept : List Value} {c : Class} {name : String}
      {method : Function} {i : Instance} :
      config.Offers conduct kept (.klass c) → c.findMethod? name = some method →
      config.Offers conduct kept (.object i) →
      Binds conduct ⟨.busy session config, kept⟩
        ⟨.busy session { config with state := (config.state.bindMethod method i).2 },
          .function (config.state.bindMethod method i).1 :: kept⟩
        (config.state.bindMethod method i).1 i

/-- From a stage on, a function is bound to an instance, whatever loose hosts do. -/
structure Receives (stage : Stage) (f : Function) (i : Instance) : Prop where
  /-- The environment around its body holds the instance and nothing else. -/
  kept : stage.Keeps .loose f.closure.scope thisName (.object i)
  /-- Its body starts where that environment is the nearest to bind the receiver. -/
  called : ∀ session config kept arguments line stack,
    Later .loose stage ⟨.busy session config, kept⟩ →
      config.Calls (.function f) arguments line stack →
        (step config).state.store.slot? (step config).state.current thisName =
          some f.closure.scope
  /-- Wherever that environment is the nearest, a closure or a block further in, the receiver read
  by the method is the instance. -/
  reads : ∀ session config kept reference, Later .loose stage ⟨.busy session config, kept⟩ →
    config.control = .eval (.this reference) →
      (∃ use ∈ f.declaration.receivers 0, use.reference = reference) →
        config.state.store.slot? config.state.current thisName = some f.closure.scope →
          step config = .done (.object i) config.stack config.state
  /-- An initializer whose body ends well gives the instance, whatever the body ended with. -/
  yields : f.isInitializer → ∀ session arguments line stack state kept value after more,
    Later .loose stage ⟨.busy session (enterFunction f arguments line stack state), kept⟩ →
      Above .loose stack ⟨.busy session (enterFunction f arguments line stack state), kept⟩
        ⟨.busy session (.done value stack after), more⟩ → value = .object i

end Stage

variable {conduct : Conduct} {openings : Openings} {session : Session} {config : Config}
  {f : Function} {i : Instance} {kept : List Value}

/-! ### Calls that end -/

namespace Stage

variable {first middle last : Stage} {stack : List Frame}

theorem Above.later (above : Above conduct stack first last) : Later conduct first last := by
  induction above with
  | refl => exact .refl _
  | next _ _ move ih => exact .next ih move

theorem Above.trans (earlier : Above conduct stack first middle)
    (later : Above conduct stack middle last) : Above conduct stack first last := by
  induction later with
  | refl => exact earlier
  | next _ longer move ih => exact .next ih longer move

/-- Natives that draw on their arguments are hosts that do nothing beside the program. -/
theorem Above.advance (draws : ∀ act ∈ config.state.hosts, Draws conduct act) (steps : Nat)
    (longer : ∀ count < steps, stack.length < (advance count config).stack.length) :
    Above conduct stack ⟨.busy session config, kept⟩
      ⟨.busy session (Machine.advance steps config), kept⟩ := by
  induction steps generalizing config with
  | zero => exact .refl _
  | succ steps ih =>
    have here : stack.length < config.stack.length := longer 0 (Nat.succ_pos _)
    have going : config.finished? = none := by
      obtain ⟨control, frames, state⟩ := config
      cases frames with
      | nil => cases here
      | cons frame frames => cases control <;> rfl
    have answered : Answered conduct ⟨.busy session config, kept⟩ :=
      @Moment.answered conduct (.busy session config) draws kept
    have move : Next conduct ⟨.busy session config, kept⟩ ⟨.busy session (step config), kept⟩ :=
      .moves (.step going) answered
    rw [advance_of_going going]
    refine (Above.next (.refl _) here move).trans (ih ?_ fun count below => ?_)
    · rw [hosts_step]
      exact draws
    · rw [← advance_of_going going]
      exact longer (count + 1) (Nat.succ_lt_succ below)

theorem Above.over (above : Above conduct stack ⟨.busy session config, kept⟩ last)
    (short : config.stack.length ≤ stack.length) : last = ⟨.busy session config, kept⟩ := by
  induction above with
  | refl => rfl
  | next _ longer _ ih =>
    cases ih
    exact absurd longer (Nat.not_lt.mpr short)

/-- A call that has a frame of its own ends where something arrives at that frame. -/
theorem Above.ends {inner : Config} {frame : Frame}
    (above : Above conduct stack ⟨.busy session (inner.over (frame :: stack)), kept⟩ last)
    (leaves : ∀ signal state, (step ⟨.signal signal, frame :: stack, state⟩).stack = stack) :
    (∃ inner more, last = ⟨.busy session (Config.over inner (frame :: stack)), more⟩) ∨
      ∃ signal state more,
        Above conduct stack ⟨.busy session (inner.over (frame :: stack)), kept⟩
          ⟨.busy session ⟨.signal signal, frame :: stack, state⟩, more⟩ ∧
        last = ⟨.busy session (step ⟨.signal signal, frame :: stack, state⟩), more⟩ := by
  induction above with
  | refl => exact .inl ⟨inner, kept, rfl⟩
  | @next last running config more above longer move ih =>
    rcases ih with ⟨inner', more', same⟩ | ⟨signal, state, more', _, same⟩
    · cases same
      cases move with
      | @acts _ _ _ values state _ => exact .inl ⟨{ inner' with state }, values, rfl⟩
      | moves move _ =>
        cases move with
        | step going =>
          cases ended : inner'.finished? with
          | none =>
            rw [step_over ended]
            exact .inl ⟨_, _, rfl⟩
          | some ending =>
            obtain ⟨signal, state⟩ := ending
            obtain rfl := eq_of_finished ended
            exact .inr ⟨signal, state, _, above, rfl⟩
        | settle ended =>
          obtain ⟨control, inside, state⟩ := inner'
          cases control with
          | eval _ | exec _ => cases ended
          | signal _ => cases inside <;> cases ended
    · cases same
      rw [leaves] at longer
      exact absurd longer (Nat.lt_irrefl _)

/-- What a call gives that has a frame of its own, it gives from that frame. -/
theorem Above.gives {inner : Config} {frame : Frame} {value : Value} {after : State}
    {more : List Value}
    (above : Above conduct stack ⟨.busy session (inner.over (frame :: stack)), kept⟩
      ⟨.busy session (.done value stack after), more⟩)
    (leaves : ∀ signal state, (step ⟨.signal signal, frame :: stack, state⟩).stack = stack) :
    ∃ signal state,
      Later conduct ⟨.busy session (inner.over (frame :: stack)), kept⟩
        ⟨.busy session ⟨.signal signal, frame :: stack, state⟩, more⟩ ∧
      step ⟨.signal signal, frame :: stack, state⟩ = .done value stack after := by
  rcases above.ends leaves with ⟨inner', more', same⟩ | ⟨signal, state, more', reached, same⟩
  · simp only [Stage.mk.injEq, Moment.busy.injEq, true_and] at same
    have shape := congrArg (·.stack.length) same.1
    simp only [Config.over, Config.done, List.length_append, List.length_cons] at shape
    omega
  · simp only [Stage.mk.injEq, Moment.busy.injEq, true_and] at same
    obtain ⟨same, rfl⟩ := same
    exact ⟨signal, state, reached.later, same.symm⟩

end Stage

namespace Machine

variable {state : State} {stack : List Frame} {value : Value} {line : Nat}

theorem finishCall_initializer (flagged : f.isInitializer)
    (bound : state.store.lookup? f.closure.scope thisName = some (.object i)) :
    finishCall f line value stack state = .done (.object i) stack state := by
  have receiver : state.store.getAt? f.closure 0 thisName = some (.object i) := bound
  rw [finishCall, if_pos flagged, receiver]

theorem leaves_activation {caller : Environment} (signal : Signal) (state : State) :
    (step ⟨.signal signal, .activation caller f line :: stack, state⟩).stack = stack := by
  have finished (value : Value) : (finishCall f line value stack (state.withCurrent caller)).stack =
      stack := by
    unfold finishCall
    split
    · split <;> rfl
    · rfl
  cases signal with
  | done value => exact finished .nil
  | returned value => exact finished value
  | failed fault => rfl

/-- The end of the body of an initializer that ends well. -/
theorem gives_activation {signal : Signal} {caller : Environment} {after : State}
    (flagged : f.isInitializer)
    (bound : state.store.lookup? f.closure.scope thisName = some (.object i))
    (gives : step ⟨.signal signal, .activation caller f line :: stack, state⟩ =
      .done value stack after) : value = .object i := by
  have outside : (state.withCurrent caller).store.lookup? f.closure.scope thisName =
      some (.object i) := bound
  cases signal with
  | done result | returned result =>
    simp only [step, deliver, resume, unwind] at gives
    rw [finishCall_initializer flagged outside] at gives
    cases gives
    rfl
  | failed fault => cases gives

end Machine

/-- The walk has found the uses of `this` in a method in the scope of its receiver. -/
theorem Seated.receivers_told {records : Records} {addresses : List Nat}
    {declaration : FunctionDecl}
    (seated : Seated conduct records openings addresses (.method declaration)) :
    Told records (declaration.receivers 0) := by
  obtain ⟨scopes, _, resolved⟩ := seated.resolved
  have keyword : ¬Ordinary thisName := fun ordinary => ordinary.notThis rfl
  refine declaration.keywords_told keyword ?_ seated.proper resolved
  rw [distanceIn_cons, if_pos (by decide)]

/-- A bound method is called in an environment whose receiver is its own. -/
theorem Moment.Seated.called (seated : (Moment.busy session config).Seated conduct openings)
    {method : Option FunctionDecl}
    (there : openings[f.closure.scope]? = some (.receiver i method)) {arguments : List Value}
    {line : Nat} {stack : List Frame} (calls : config.Calls (.function f) arguments line stack) :
    (step config).state.store.slot? (step config).state.current thisName =
      some f.closure.scope := by
  obtain ⟨seating, function, given⟩ := calls.seated (seated.config session config rfl)
  have entered := seating.enterFunction function given line
  have tells := entered.seating.seated.tells
  have body := tells openings.length .body List.getElem?_concat_length
  have receiver := tells f.closure.scope (.receiver i method) (getElem?_grow there _)
  have unbound := unbound_this body (by simp) (by simp)
  have bound := binds_receiver receiver
  rw [calls.step]
  rw [← seating.seated.size] at unbound
  refine (List.find?_cons_of_neg ?_).trans (List.find?_cons_of_pos bound)
  exact Bool.eq_false_iff.mp unbound

/-- What a method reads as `this` is what the nearest environment that binds it was made for, if that
was made for the method. -/
theorem Moment.Seated.reads (seated : (Moment.busy session config).Seated conduct openings)
    {reference : Reference} {address : Nat} {method : FunctionDecl}
    (control : config.control = .eval (.this reference))
    (nearest : config.state.store.slot? config.state.current thisName = some address)
    (opened : openings[address]? = some (.receiver i (some method)))
    (distinct : (identifiers (method.uses 0)).Nodup)
    (told : Told (Moment.busy session config).records (method.receivers 0))
    (own : ∃ use ∈ method.receivers 0, use.reference = reference) :
    step config = .done (.object i) config.stack config.state := by
  have whole := seated.config session config rfl
  obtain ⟨_, stack, state⟩ := config
  cases control
  obtain ⟨scopes, lodged, reads⟩ := (List.forall_mem_singleton.mp whole.control).resolved
  have reads : ReadsThis _ scopes reference := reads
  have tells := whole.seating.seated.tells
  obtain ⟨depth, used, placed⟩ := lodged.receives tells nearest opened
  obtain ⟨use, member, same⟩ := own
  obtain ⟨_, recorded⟩ := told.distance distinct (method.keywords_sublist 0).subset member same
    (used (List.mem_singleton.mpr rfl))
  have there : state.current.scopes[depth]? = some address :=
    placed (reads.nearest.symm.trans recorded)
  have bound : state.store.lookup? address thisName = some (.object i) :=
    (tells address _ opened thisName).trans (if_pos rfl)
  have distance : state.distance? reference = some depth := recorded
  have read : state.lookup? reference = some (.object i) := by
    rw [State.lookup?, distance, reads.word]
    dsimp only
    rw [Store.getAt?_eq, there]
    exact bound
  simp only [step, eval, readName, read]

namespace Stage

variable {stage last : Stage}

theorem Seated.keeps (seated : stage.Seated conduct openings) {address : Nat}
    {method : Option FunctionDecl} (there : openings[address]? = some (.receiver i method)) :
    stage.Keeps conduct address thisName (.object i) :=
  fun _ later => later.tells seated there

/-- The environment of the receiver is still as it was when the body of a call has ended. -/
theorem initializer_yields (flagged : f.isInitializer) {arguments : List Value} {line : Nat}
    {stack : List Frame} {state after : State} {value : Value} {more : List Value}
    (kept' : Keeps conduct ⟨.busy session (enterFunction f arguments line stack state), kept⟩
      f.closure.scope thisName (.object i))
    (above : Above conduct stack ⟨.busy session (enterFunction f arguments line stack state), kept⟩
      ⟨.busy session (.done value stack after), more⟩) : value = .object i := by
  let inner : Config := .done .nil [.sequence f.declaration.body]
    (state.enter f.closure (parameterBindings f.declaration.params arguments))
  have above : Above conduct stack
      ⟨.busy session (inner.over (.activation state.current f line :: stack)), kept⟩
      ⟨.busy session (.done value stack after), more⟩ := above
  obtain ⟨signal, middle, reached, gives⟩ := above.gives leaves_activation
  exact gives_activation flagged ((kept' _ reached thisName).trans (if_pos rfl)) gives

/-- What is bound where the receivers are kept stays bound there. -/
theorem Seated.receives (seated : stage.Seated .loose openings)
    (there : openings[f.closure.scope]? = some (.receiver i (some f.declaration)))
    (distinct : (identifiers (f.declaration.uses 0)).Nodup)
    (told : Told stage.moment.records (f.declaration.receivers 0)) : stage.Receives f i where
  kept := seated.keeps there
  called session config kept arguments line stack later calls := by
    obtain ⟨more, now⟩ := later.seated seated
    exact now.moment.called (getElem?_grow there more) calls
  reads session config kept reference later control own nearest := by
    obtain ⟨more, now⟩ := later.seated seated
    exact now.moment.reads control nearest (getElem?_grow there more) distinct
      (told.later later.extends) own
  yields flagged session arguments line stack state kept value after more later above :=
    initializer_yields flagged (fun last further => seated.keeps there last (later.trans further))
      above

theorem Seated.bindMethod (seated : Seated conduct openings ⟨.busy session config, kept⟩)
    {method : Option FunctionDecl}
    (bound : Seating conduct (Moment.busy session config).records
        (openings ++ [Opening.receiver i method]) (config.state.bindMethod f i).2 config.stack ∧
      (config.state.bindMethod f i).1.Seated conduct (Moment.busy session config).records
        (openings ++ [Opening.receiver i method])) :
    Seated conduct (openings ++ [Opening.receiver i method])
        ⟨.busy session { config with state := (config.state.bindMethod f i).2 },
          .function (config.state.bindMethod f i).1 :: kept⟩ ∧
      (openings ++ [Opening.receiver i method])[(config.state.bindMethod f i).1.closure.scope]? =
        some (Opening.receiver i method) := by
  have whole := seated.moment.config session config rfl
  obtain ⟨there, function⟩ := bound
  refine ⟨seated.beside (State.besides_bindMethod _ _ _) (whole.aside there rfl) ?_,
    whole.seating.seated.place_bindMethod f i _ []⟩
  refine List.forall_mem_cons.mpr ⟨function, fun value member => ?_⟩
  exact Value.Seated.grow (seated.kept value member) _

theorem Seated.binds (seated : stage.Seated .loose openings) (binds : Binds .loose stage last f i) :
    last.Receives f i := by
  cases binds with
  | @step session config kept f i binds =>
    have whole := seated.moment.config session config rfl
    obtain ⟨more, stepped, there, addresses, method⟩ := whole.binds binds
    refine (seated.stepped more stepped).receives there method.distinct_method ?_
    rw [Moment.records_step]
    exact method.receivers_told
  | @host session config kept c name method i within found receiver =>
    have whole := seated.moment.config session config rfl
    have held := (whole.offers seated.kept within).findMethod? found
    have given := whole.offers seated.kept receiver
    obtain ⟨after, there⟩ := seated.bindMethod (whole.seating.bindMethod held given)
    exact after.receives there held.distinct_method held.receivers_told

end Stage

namespace Constructing

def source : String := "class A\x7binit()\x7b\x7d\x7d A();"

def a : Token := ⟨.identifier, "A", 1⟩

def paren : Token := ⟨.symbol .rightParen, ")", 1⟩

def init : FunctionDecl := ⟨⟨.identifier, "init", 1⟩, [], []⟩

def program : List Stmt :=
  [.classDecl a none [init], .expression (.call (.variable ⟨0, a⟩) paren [])]

def first : Session := .start (fun _ => 0) false

theorem prepared : ∃ running, first.prepare source = (running, some program) ∧
    running.machine = first.machine := by
  have accepted : (first.prepare source).2 = some program := by cbv
  have unrecorded : resolve program = .ok [] := by cbv
  obtain ⟨running, prepared, machine⟩ := Session.prepare_accepted accepted unrecorded
  exact ⟨running, prepared, machine.trans (State.record_nil _)⟩

def method : Function := ⟨0, init, globals, true⟩

def c : Class := ⟨⟨1, "A", Bindings.empty.insert "init" method⟩, []⟩

/-- The class is there. -/
def before : State := (advance 5 (interpreting program first.machine)).state

def calling : Config := .done (.klass c) [.callee paren [], .program []] before

theorem reads : step (advance 5 (interpreting program first.machine)) = calling := by
  have absent : before.distance? ⟨0, a⟩ = none :=
    (Std.HashMap.getElem?_empty : (∅ : Distances)[0]? = none)
  have found : before.store.get? globals "A" = some (.klass c) := by cbv
  exact step_variable rfl ((State.lookup?_global absent).trans found)

theorem makes : (before.instantiate c).1 = ⟨0, c⟩ := by
  cbv

theorem ends : advance 3 (step calling) =
    .done (.object ⟨0, c⟩) [.program []] (advance 3 (step calling)).state := by
  rfl

theorem longer : ∀ count < 3,
    [Frame.program []].length < (advance count (step calling)).stack.length := by
  decide

end Constructing

section Constructing

open Constructing

end Constructing

/-! ### A tree of a host's own -/

namespace Forging

/-- The method of the text reads its receiver. The one the native answers with assigns to it, under
the same number. -/
def source : String := "class A\x7bm()\x7bthis;\x7d\x7dforge()().m();"

def word (lexeme : String) : Token := ⟨.identifier, lexeme, 1⟩

def paren : Token := ⟨.symbol .rightParen, ")", 1⟩

def receiver : Reference := ⟨0, ⟨.keyword .this, "this", 1⟩⟩

def calling : Expr :=
  .call (.get (.call (.call (.variable ⟨1, word "forge"⟩) paren []) paren []) (word "m")) paren []

def program : List Stmt :=
  [.classDecl (word "A") none [⟨word "m", [], [.expression (.this receiver)]⟩], .expression calling]

def method : Function :=
  ⟨0, ⟨word "m", [], [.expression (.assign receiver (.literal .nil))]⟩, globals, false⟩

def c : Class := ⟨⟨1, "A", Bindings.empty.insert "m" method⟩, []⟩

def forge : HostFunction := fun _ _ => .ok (.klass c)

def ready : Session := (Session.start (fun _ => 0) false).defineNative "forge" 0 forge

set_option maxRecDepth 4000 in
theorem prepared : ∃ running, ready.prepare source = (running, some program) ∧
    running.machine = { ready.machine with distances := running.machine.distances } ∧
    ∀ id : Nat, running.machine.distances[id]? = [(0, 1)].lookup id := by
  have accepted : (ready.prepare source).2 = some program := by cbv
  have recorded : resolve program = .ok [(0, 1)] := by cbv
  exact Session.prepare_first (fun _ => Std.HashMap.getElem?_empty) accepted recorded

def outside : List Frame := [.callee paren [], .program []]

variable (d : Distances)

/-- The class of the text is made, and the native is read. -/
def before : State := (advance 3 (interpreting program { ready.machine with distances := d })).state

/-- An instance of the forged class is there. -/
def binding : Config :=
  .done (.object ⟨0, c⟩) (.property (word "m") :: outside)
    { before d with hostCalls := 1, store := ((before d).store.instantiate c).2 }

/-- Its method is called. -/
def writing : State := (advance 5 (step (binding d))).state

def inside : List Frame :=
  [.sequence [], .activation globals ((binding d).state.bindMethod method ⟨0, c⟩).1 1, .program []]

variable {d}

theorem names (global : d[1]? = none) :
    step (advance 8 (interpreting program { ready.machine with distances := d })) =
      .done (.native ⟨1, "forge", 0⟩) (.callee paren [] :: .callee paren [] :: .property (word "m") ::
        outside) (before d) := by
  have there : advance 8 (interpreting program { ready.machine with distances := d }) =
      ⟨.eval (.variable ⟨1, word "forge"⟩), .callee paren [] :: .callee paren [] ::
        .property (word "m") :: outside, before d⟩ := by rfl
  have absent : (before d).distance? ⟨1, word "forge"⟩ = none := global
  have found : (before d).store.get? globals "forge" = some (.native ⟨1, "forge", 0⟩) := by cbv
  rw [there]
  exact step_variable rfl ((State.lookup?_global absent).trans found)

theorem makes : advance 2 (.done (.native ⟨1, "forge", 0⟩) (.callee paren [] :: .callee paren [] ::
    .property (word "m") :: outside) (before d)) = binding d := by
  rfl

theorem calls : advance 5 (step (binding d)) =
    .done .nil (.assign receiver :: inside d) (writing d) := by
  rfl

theorem writes (recorded : d[0]? = some 1) :
    step (.done .nil (.assign receiver :: inside d) (writing d)) =
      .done .nil (inside d) ((writing d).write 1 thisName .nil) := by
  have slot : (writing d).slot? receiver = some 1 := by
    rw [State.slot?, show (writing d).distance? receiver = some 1 from recorded]
    rfl
  exact step_assign slot

end Forging

section Forging

open Forging

end Forging

end Lox
