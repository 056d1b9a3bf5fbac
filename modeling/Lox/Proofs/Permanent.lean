import Lox.Proofs.Openings
import Lox.Proofs.Restored

/-! What sessions leave as it is. The environments of receivers and superclasses keep what they were
made with through all texts, so the nearest one that binds `this` tells what `this` is. -/

namespace Lox

open Machine Resolution

variable {conduct : Conduct} {records newer : Records} {openings : Openings}

/-! ### Sessions -/

structure Moment.Seated (conduct : Conduct) (openings : Openings) (moment : Moment) : Prop where
  rooted : openings[0]? = some .globals
  home : moment.home = globals
  unused : moment.Unused
  machine : moment.machine.Seated conduct moment.records openings
  config : ∀ session config, moment = .busy session config →
    config.Seated conduct moment.records openings

variable {hosts : HostFunction → Prop} {first last moment : Moment} {session : Session}
  {config : Config}

theorem Moment.Seated.idle (rooted : openings[0]? = some .globals)
    (home : (Moment.idle session).home = globals) (unused : (Moment.idle session).Unused)
    (seated : session.machine.Seated conduct (Moment.idle session).records openings) :
    (Moment.idle session).Seated conduct openings :=
  ⟨rooted, home, unused, seated, by simp⟩

theorem Moment.Seated.busy (rooted : openings[0]? = some .globals)
    (home : (Moment.busy session config).home = globals)
    (unused : (Moment.busy session config).Unused)
    (seated : config.Seated conduct (Moment.busy session config).records openings) :
    (Moment.busy session config).Seated conduct openings := by
  refine ⟨rooted, home, unused, seated.seating.seated, ?_⟩
  intro other further same
  cases same
  exact seated

theorem Machine.State.Seated.later {state : State} (seated : state.Seated conduct records openings)
    (grown : records.Extends newer) : state.Seated conduct newer openings where
  size := seated.size
  holds := seated.holds.imp (fun _ seated => Lox.Seated.later seated grown)
    (fun _ seated => Lox.Seated.later seated grown)
  tells := seated.tells

theorem Moment.seated_start (clock : Nat → Float) (broken : Bool) :
    (Moment.idle (.start clock broken)).Seated conduct [.globals] := by
  have bare : (State.bare clock broken).Seated conduct (Moment.idle (.start clock broken)).records
      [.globals] := by
    refine ⟨rfl, ⟨?_, fun _ _ _ => nofun⟩, ?_⟩
    · intro address name value found
      cases address with
      | zero => cases found
      | succ address => cases found
    · intro address opening there
      cases address with
      | zero =>
        cases there
        trivial
      | succ address => cases there
  have native : (Value.native ⟨0, "clock", 0⟩).Seated conduct
      (Moment.idle (.start clock broken)).records [.globals] := trivial
  have written : ((State.bare clock broken).write 0 "clock" (.native ⟨0, "clock", 0⟩)).Seated
      conduct (Moment.idle (.start clock broken)).records [.globals] := bare.write native (.inl rfl)
  exact .idle rfl rfl (fun _ _ => Std.HashMap.getElem?_empty)
    ⟨written.size, written.holds, written.tells⟩

/-- The statements of an accepted text, in the global environment. -/
theorem Session.Prepared.seated {after : Session} {source : String} {table : List (Nat × Nat)}
    {program : List Stmt} (prepared : session.Prepared after source table (some program))
    (unused : (Moment.idle session).Unused) (rooted : openings[0]? = some .globals) :
    ∀ code ∈ program.map Code.stmt,
      Lox.Seated conduct (Moment.idle after).records openings [0] code := by
  obtain ⟨read, _⟩ := prepared.accepted program rfl
  have resolved := prepared.resolved unused
  intro code member
  obtain ⟨s, listed, rfl⟩ := List.mem_map.mp member
  refine ⟨stmtsProper_mem read.proper listed, ?_, ?_⟩
  · exact ((stmtUses_mem 0 listed).map Use.id).nodup (read.fresh 0).1
  · exact stmtsResolved_mem (.globals rooted) read.proper resolved listed

theorem Next.seated (move : Next hosts first last) (seated : first.Seated conduct openings)
    (answers : ∀ session config, first = .busy session config → ∀ value, config.Answers value →
      value.Seated conduct first.records openings) :
    ∃ more, last.Seated conduct (openings ++ more) := by
  have grown := move.extends
  have home := move.home
  have unused := move.unused seated.unused
  obtain ⟨rooted, same, before, machine, running⟩ := seated
  rw [same] at home
  have stored := machine.later grown
  cases move with
  | @native session name arity act _ =>
    refine ⟨[], ?_⟩
    rw [List.append_nil]
    have native : (Value.native ⟨session.machine.hosts.size, name, arity⟩).Seated conduct
        (Moment.idle session).records openings := trivial
    have written : (session.machine.write 0 name
        (.native ⟨session.machine.hosts.size, name, arity⟩)).Seated conduct
        (Moment.idle session).records openings := machine.write native (.inl rooted)
    exact .idle rooted home unused ⟨written.size, written.holds, written.tells⟩
  | @refuse session after source refused =>
    obtain ⟨table, prepared⟩ := Session.prepared_of_prepare refused
    refine ⟨[], ?_⟩
    rw [List.append_nil]
    refine .idle rooted home unused ?_
    rw [prepared.machine]
    exact ⟨stored.size, stored.holds, stored.tells⟩
  | @begin session after source program accepted =>
    obtain ⟨table, prepared⟩ := Session.prepared_of_prepare accepted
    have codes := @Session.Prepared.seated conduct _ _ _ _ _ _ prepared before rooted
    refine ⟨[], ?_⟩
    rw [List.append_nil]
    have held : after.machine.Seated conduct (Moment.idle after).records openings := by
      have store : after.machine.store = session.machine.store := by rw [prepared.machine]; rfl
      exact ⟨store ▸ stored.size, store ▸ stored.holds, store ▸ stored.tells⟩
    have atGlobals : after.machine.current = globals := home
    have here : after.machine.current.Open openings := by
      rw [atGlobals]
      refine ⟨?_, .inl rooted⟩
      intro address member
      rw [List.mem_singleton.mp member]
      exact (List.getElem?_eq_some_iff.mp rooted).1
    rw [show [0] = globals.scopes from rfl, ← atGlobals] at codes
    exact .busy rooted home unused
      ⟨⟨held, here, codes, trivial, trivial⟩, List.forall_mem_nil _, trivial⟩
  | @step session config going =>
    obtain ⟨more, after⟩ := (running session config rfl).step (answers session config rfl)
    rw [← Moment.records_step] at after
    exact ⟨more, .busy (getElem?_grow rooted more) home unused after⟩
  | @settle session config ending ended =>
    refine ⟨[], ?_⟩
    rw [List.append_nil]
    refine .idle rooted home unused ?_
    rw [(session.settle_same ending).1, Config.state_finished? ended]
    exact stored

/-- A moment of a session with hosts of a kind, and what they have kept by then. -/
structure Stage.Seated (conduct : Conduct) (openings : Openings) (stage : Stage) : Prop where
  moment : stage.moment.Seated conduct openings
  kept : ∀ value ∈ stage.kept, value.Seated conduct stage.moment.records openings

theorem Value.Seated.later {value : Value} (seated : value.Seated conduct records openings)
    (grown : records.Extends newer) : value.Seated conduct newer openings :=
  seated.imp (fun _ seated => Lox.Seated.later seated grown)
    (fun _ seated => Lox.Seated.later seated grown)

namespace Stage

variable {first last stage : Stage} {kept : List Value}

/-- A step of the program, where it is known what it makes. -/
theorem Seated.stepped (seated : Seated conduct openings ⟨.busy session config, kept⟩)
    (more : Openings)
    (stepped : (step config).Seated conduct (Moment.busy session config).records
      (openings ++ more)) :
    Seated conduct (openings ++ more) ⟨.busy session (step config), kept⟩ := by
  obtain ⟨⟨rooted, home, unused, _, _⟩, held⟩ := seated
  have same := Moment.records_step session config
  rw [← same] at stepped
  refine ⟨.busy (getElem?_grow rooted more) ((home_step config).trans home) ?_ stepped, ?_⟩
  · rw [Moment.Unused, same]
    exact unused
  · rw [same]
    exact fun value member => (held value member).grow more

/-- What is done beside the program, where it is known what is made. -/
theorem Seated.beside (seated : Seated conduct openings ⟨.busy session config, kept⟩)
    {state : State} {values : List Value} {more : Openings}
    (besides : config.state.Besides state)
    (after : Config.Seated conduct (Moment.busy session config).records (openings ++ more)
      { config with state })
    (held : ∀ value ∈ values,
      value.Seated conduct (Moment.busy session config).records (openings ++ more)) :
    Seated conduct (openings ++ more) ⟨.busy session { config with state }, values⟩ := by
  obtain ⟨rooted, home, unused, _, _⟩ := seated.moment
  have same : (Moment.busy session { config with state }).records =
      (Moment.busy session config).records := by
    simp only [Moment.records, Moment.machine, besides.distances]
    rfl
  rw [← same] at after held
  refine ⟨.busy (getElem?_grow rooted more) ?_ ?_ after, held⟩
  · simp only [Moment.home, Config.home, besides.current]
    exact home
  · rw [Moment.Unused, same]
    exact unused

theorem Next.seated (move : Next conduct first last) (seated : first.Seated conduct openings) :
    ∃ more, last.Seated conduct (openings ++ more) := by
  have grown := move.extends
  obtain ⟨moment, held⟩ := seated
  cases move with
  | moves move answered =>
    obtain ⟨more, after⟩ := move.seated moment fun session config busy value answers =>
      (moment.config session config busy).offers held (answered session config busy value answers)
    exact ⟨more, after, fun value member => ((held value member).later grown).grow more⟩
  | @acts session config kept more state acts =>
    obtain ⟨extra, after, values⟩ := (moment.config session config rfl).acts moment.rooted held acts
    exact ⟨extra, Seated.beside ⟨moment, held⟩ acts.besides after values⟩

theorem Later.seated (later : Later conduct first last) (seated : first.Seated conduct openings) :
    ∃ more, last.Seated conduct (openings ++ more) := by
  induction later with
  | refl => exact ⟨[], by rwa [List.append_nil]⟩
  | next _ move ih =>
    obtain ⟨more, middle⟩ := ih
    obtain ⟨further, seated⟩ := move.seated middle
    exact ⟨more ++ further, by rwa [← List.append_assoc]⟩

theorem Reachable.seated (reached : Reachable conduct stage) :
    ∃ openings, stage.Seated conduct openings := by
  obtain ⟨clock, broken, path⟩ := reached
  obtain ⟨more, seated⟩ := path.seated ⟨Moment.seated_start clock broken, List.forall_mem_nil _⟩
  exact ⟨_, seated⟩

/-- What an environment was made with is what it is told to hold at every later stage. -/
theorem Later.tells (later : Later conduct first last) (seated : first.Seated conduct openings)
    {address : Nat} {opening : Opening} (there : openings[address]? = some opening) :
    opening.Tells (last.moment.machine.store.lookup? address) := by
  obtain ⟨more, after⟩ := later.seated seated
  exact after.moment.machine.tells address opening (getElem?_grow there more)

end Stage

/-! ### The nearest receiver -/

section Nearest

variable {store : Store} {address : Nat} {name : String}

theorem binds_receiver {i : Instance} {method : Option FunctionDecl}
    (tells : (Opening.receiver i method).Tells (store.lookup? address)) :
    store.binds thisName address := by
  rw [Store.binds, tells, if_pos rfl]
  rfl

theorem unbound_this {opening : Opening} (tells : opening.Tells (store.lookup? address))
    (inside : opening ≠ .globals) (other : ∀ i method, opening ≠ .receiver i method) :
    store.binds thisName address = false := by
  cases opening with
  | globals => exact absurd rfl inside
  | receiver i method => exact absurd rfl (other i method)
  | superclass above methods =>
    rw [Store.binds, tells, if_neg (by decide)]
    rfl
  | body =>
    cases found : store.lookup? address thisName with
    | some value => exact absurd rfl (tells thisName value found).notThis
    | none =>
      rw [Store.binds, found]
      rfl

variable {addresses : List Nat} {scopes : List (Bindings Bool)} {uses : Nat → List Use}
  {distance : Nat}

/-- Where no host is loose, there stands the nearest environment that binds `this` where the walk
found it. -/
theorem Lodged.nearest (lodged : Lodged .strict openings addresses scopes uses)
    (tells : ∀ (address : Nat) (opening : Opening), openings[address]? = some opening →
      opening.Tells (store.lookup? address))
    (found : distanceIn scopes thisName = some distance) :
    ∃ i method address, addresses[distance]? = some address ∧
      openings[address]? = some (.receiver i method) ∧
        addresses.find? (store.binds thisName) = some address := by
  generalize strict : Conduct.strict = conduct at lodged
  induction lodged generalizing distance with
  | globals _ => cases found
  | @receiver i method address outer scope scopes uses there this _ _ _ _ =>
    rw [distanceIn_cons, if_pos this] at found
    cases found
    have bound := binds_receiver (tells address _ there)
    exact ⟨i, some method, address, rfl, there, List.find?_cons_of_pos bound⟩
  | body there noThis _ _ ih | superclass there noThis _ _ _ ih =>
    rw [distanceIn_cons, noThis] at found
    obtain ⟨further, outside, rfl⟩ := Option.map_eq_some_iff.mp found
    obtain ⟨i, method, place, at', opened, nearest⟩ := ih outside
    have unbound := unbound_this (tells _ _ there) (by simp) (by simp)
    refine ⟨i, method, place, at', opened, ?_⟩
    rw [List.find?_cons, unbound]
    exact nearest
  | unbound loose | rebound loose => cases strict.trans loose

/-- Inside of the nearest environment that binds `this`, made for a method, stands what is used in the
method. If the walk found `this` as far out as the method stands, it is found there. -/
theorem Lodged.receives (lodged : Lodged conduct openings addresses scopes uses)
    (tells : ∀ (address : Nat) (opening : Opening), openings[address]? = some opening →
      opening.Tells (store.lookup? address))
    (nearest : addresses.find? (store.binds thisName) = some address) {i : Instance}
    {method : FunctionDecl} (opened : openings[address]? = some (.receiver i (some method))) :
    ∃ depth, uses depth ⊆ method.uses 0 ∧
      (distanceIn scopes thisName = some depth → addresses[depth]? = some address) := by
  induction lodged with
  | globals there =>
    obtain rfl := List.mem_singleton.mp (List.mem_of_find?_eq_some nearest)
    cases there.symm.trans opened
  | body there noThis _ _ ih | superclass there noThis _ _ _ ih =>
    rw [List.find?_cons, unbound_this (tells _ _ there) (by simp) (by simp)] at nearest
    obtain ⟨depth, used, placed⟩ := ih nearest
    refine ⟨depth + 1, used, fun found => ?_⟩
    rw [distanceIn_cons, noThis] at found
    obtain ⟨further, outside, same⟩ := Option.map_eq_some_iff.mp found
    cases same
    exact placed outside
  | receiver there _ _ used _ _ =>
    rw [List.find?_cons_of_pos (binds_receiver (tells _ _ there))] at nearest
    cases nearest
    cases there.symm.trans opened
    exact ⟨0, used, fun _ => rfl⟩
  | unbound _ this _ _ ih =>
    obtain ⟨depth, used, _⟩ := ih nearest
    refine ⟨depth + 1, used, fun found => ?_⟩
    rw [distanceIn_cons, if_pos this] at found
    cases found
  | rebound _ there _ _ =>
    rw [List.find?_cons_of_pos (binds_receiver (tells _ _ there))] at nearest
    cases nearest
    cases there.symm.trans opened

end Nearest

namespace Machine

/-! ### Environments made aside -/

/-- The next step calls a value with as many arguments as it takes. -/
inductive Config.Calls : Config → Value → List Value → Nat → List Frame → Prop
  | plain {callee : Value} {paren : Token} {stack : List Frame} {state : State} :
      callee.arity? = some 0 →
      Config.Calls ⟨.signal (.done callee), .callee paren [] :: stack, state⟩ callee [] paren.line
        stack
  | given {callee value : Value} {paren : Token} {evaluated : List Value} {stack : List Frame}
      {state : State} : callee.arity? = some (evaluated.length + 1) →
      Config.Calls ⟨.signal (.done value), .argument callee paren evaluated [] :: stack, state⟩
        callee (value :: evaluated).reverse paren.line stack

/-- The next step binds a method to an instance: one that is read off it, one of its superclass, or
the initializer of an instance that is made. -/
inductive Config.Binds : Config → Function → Instance → Prop
  | property {i : Instance} {name : Token} {method : Function} {stack : List Frame}
      {state : State} : state.store.field? i name.lexeme = none →
      i.ofClass.findMethod? name.lexeme = some method →
      Config.Binds ⟨.signal (.done (.object i)), .property name :: stack, state⟩
        (state.bindMethod method i).1 i
  | super {reference : Reference} {name : Token} {distance : Nat} {above : Class} {i : Instance}
      {method : Function} {stack : List Frame} {state : State} :
      state.distance? reference = some distance →
      state.store.getAt? state.current distance reference.name.lexeme = some (.klass above) →
      state.store.getAt? state.current (distance - 1) thisName = some (.object i) →
      above.findMethod? name.lexeme = some method →
      Config.Binds ⟨.eval (.super reference name), stack, state⟩ (state.bindMethod method i).1 i
  | initializer {config : Config} {c : Class} {arguments : List Value} {line : Nat}
      {stack : List Frame} {method : Function} : config.Calls (.klass c) arguments line stack →
      c.initializer? = some method →
      config.Binds
        ((config.state.instantiate c).2.bindMethod method (config.state.instantiate c).1).1
        (config.state.instantiate c).1

/-- The next step makes a subclass with some methods, and binds its name to it. -/
inductive Config.Derives : Config → List FunctionDecl → Class → Class → Prop
  | made {name : Token} {superclass : Reference} {methods : List FunctionDecl} {c above : Class}
      {stack : List Frame} {state : State} : state.lookup? superclass = some (.klass above) →
      (step ⟨.exec (.classDecl name (some superclass) methods), stack, state⟩).state.store.lookup?
        state.current.scope name.lexeme = some (.klass c) →
      Config.Derives ⟨.exec (.classDecl name (some superclass) methods), stack, state⟩ methods c
        above

variable {callee : Value} {arguments : List Value} {line : Nat} {stack : List Frame}
  {f : Function} {i : Instance} {methods : List FunctionDecl} {c above : Class}

theorem Config.Calls.step (calls : config.Calls callee arguments line stack) :
    step config = apply callee arguments line stack config.state := by
  cases calls with
  | plain arity => simp [Machine.step, deliver, resume, nextArgument, call, arity]
  | given arity => simp [Machine.step, deliver, resume, nextArgument, call, arity]

theorem Config.Calls.seated (calls : config.Calls callee arguments line stack)
    (seated : config.Seated conduct records openings) :
    Seating conduct records openings config.state stack ∧ callee.Seated conduct records openings ∧
      ∀ value ∈ arguments, value.Seated conduct records openings := by
  obtain ⟨⟨stored, here, waits⟩, _, held⟩ := seated
  cases calls with
  | plain arity => exact ⟨⟨stored, here, waits.2.2⟩, held, by simp⟩
  | given arity =>
    obtain ⟨_, ⟨called, values⟩, waits⟩ := waits
    refine ⟨⟨stored, here, waits⟩, called, ?_⟩
    intro argument member
    rcases List.mem_cons.mp (List.mem_reverse.mp member) with same | member
    · exact same ▸ held
    · exact values argument member

theorem Config.Calls.going (calls : config.Calls callee arguments line stack) :
    config.finished? = none := by
  cases calls <;> rfl

theorem Config.Binds.going (binds : config.Binds f i) : config.finished? = none := by
  cases binds with
  | property | super => rfl
  | initializer calls => exact calls.going

theorem Config.Derives.going (derives : config.Derives methods c above) :
    config.finished? = none := by
  cases derives
  rfl

theorem State.Seated.place_bindMethod {state : State}
    (seated : state.Seated conduct records openings) (method : Function) (i : Instance)
    (opening : Opening) (more : Openings) :
    (openings ++ opening :: more)[(state.bindMethod method i).1.closure.scope]? =
      some opening := by
  have place : (state.bindMethod method i).1.closure.scope = openings.length := seated.size
  rw [place]
  simp

/-- The environment of the bound function is one for the receiver. -/
theorem Config.Seated.binds (seated : config.Seated conduct records openings)
    (binds : config.Binds f i) :
    ∃ more, (Machine.step config).Seated conduct records (openings ++ more) ∧
      (openings ++ more)[f.closure.scope]? = some (.receiver i (some f.declaration)) ∧
        ∃ addresses, Lox.Seated conduct records openings addresses (.method f.declaration) := by
  cases binds with
  | @property i name method stack state field found =>
    obtain ⟨⟨stored, here, waits⟩, _, held⟩ := seated
    have seating : Seating conduct records openings state stack := ⟨stored, here, waits.2.2⟩
    have within := Class.Holds.findMethod? held found
    have bound := seating.bound within held
    refine ⟨[.receiver i (some method.declaration)], ?_, stored.place_bindMethod method i _ [], _,
      within⟩
    simpa [Machine.step, deliver, resume, Machine.getProperty, State.property, field, found,
      Config.ofExcept] using bound
  | @super reference name distance above i method stack state recorded superclass receiver found =>
    obtain ⟨seating, _, _⟩ := seated
    have stored := seating.seated.holds
    have holds : (Value.klass above).Seated conduct records openings := stored.getAt? superclass
    have within := Class.Holds.findMethod? holds found
    have bound := seating.bound within (stored.getAt? receiver)
    refine ⟨[.receiver i (some method.declaration)], ?_,
      seating.seated.place_bindMethod method i _ [], _, within⟩
    simpa [Machine.step, Machine.eval, Machine.superMethod, recorded, superclass, receiver, found]
      using bound
  | @initializer _ c arguments line stack method calls initializer =>
    obtain ⟨seating, holds, given⟩ := calls.seated seated
    have made := (seating.instantiate c).seated
    have within : method.SeatedMethod conduct records openings :=
      Class.Holds.findMethod? holds initializer
    refine ⟨_, ?_, made.place_bindMethod method _ (.receiver _ (some method.declaration)) [.body],
      _, within⟩
    rw [calls.step]
    exact seating.construct_initializer holds initializer given line

/-- The methods of a class that is made close over the environment for its superclass. -/
theorem closure_declareClass {state : State} {name : Token}
    (inside : state.current.scope < state.store.scopes.size)
    (bound : (state.declareClass name (some above) methods).store.lookup? state.current.scope
      name.lexeme = some (.klass c)) :
    ∀ word method, c.own.methods.find? word = some method →
      method.closure = state.current.within state.store.scopes.size := by
  obtain ⟨born, own, declares, whole⟩ := state.declareClass_eq name (some above) methods
  let outside : State := { state.enterSuper (some above) with current := state.current, born }
  have larger : state.current.scope < outside.store.scopes.size :=
    Nat.lt_of_lt_of_le inside (state.store.keeps_enter state.current _).size
  have written := Store.lookup?_write outside.store state.current.scope state.current.scope
    name.lexeme name.lexeme (.klass ⟨own, above.layers⟩)
  rw [if_pos ⟨rfl, rfl, larger⟩] at written
  rw [whole] at bound
  cases written.symm.trans bound
  rw [declares]
  exact State.closeMethods_holds (by simp) fun _ _ _ => rfl

/-- The methods of a subclass close over an environment for the superclass. -/
theorem Config.Seated.derives (seated : config.Seated conduct records openings)
    (derives : config.Derives methods c above) :
    (Machine.step config).Seated conduct records (openings ++ [.superclass above methods]) ∧
      ∀ word method, c.own.methods.find? word = some method →
        method.closure = config.state.current.within config.state.store.scopes.size := by
  cases derives with
  | @made name superclass methods c above stack state found bound =>
    obtain ⟨seating, codes, _⟩ := seated
    have holds : (Value.klass above).Seated conduct records openings :=
      lookup?_holds seating.seated.holds found
    have stepped : Machine.step ⟨.exec (.classDecl name (some superclass) methods), stack, state⟩ =
        .done .nil stack (state.declareClass name (some above) methods) := by
      simp only [Machine.step, Machine.exec, Machine.declareClass, found]
    have inside : state.current.scope < state.store.scopes.size := by
      rw [seating.seated.size]
      exact seating.here.inside _ List.mem_cons_self
    rw [stepped] at bound ⊢
    exact ⟨seating.derivedClass (List.forall_mem_singleton.mp codes) holds,
      closure_declareClass inside bound⟩

end Machine

end Lox
