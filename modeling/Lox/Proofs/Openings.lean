import Lox.Proofs.Places
import Lox.Proofs.Seats

/-! What is in the environments of a run. Those made for a receiver or a superclass hold that one
name for ever, since statements run in none of them and no assignment has a keyword for a target. -/

namespace Lox

open Machine Resolution

variable {conduct : Conduct} {records : Records} {openings : Openings}

/-- What is bound in an environment. Anything may be in the global one. -/
def Opening.Tells (held : String → Option Value) : Opening → Prop
  | .globals => True
  | .body => ∀ name value, held name = some value → Ordinary name
  | .receiver i _ => ∀ name, held name = if name = thisName then some (.object i) else none
  | .superclass above _ =>
    ∀ name, held name = if name = superName then some (.klass above) else none

/-- An environment in which statements are executed. -/
structure Environment.Open (openings : Openings) (here : Environment) : Prop where
  inside : ∀ address ∈ here.scopes, address < openings.length
  plain : openings[here.scope]? = some .globals ∨ openings[here.scope]? = some .body

def Function.Seated (conduct : Conduct) (records : Records) (openings : Openings) (f : Function) :
    Prop :=
  Lox.Seated conduct records openings f.closure.scopes (.function f.declaration)

def Function.SeatedMethod (conduct : Conduct) (records : Records) (openings : Openings)
    (f : Function) : Prop :=
  Lox.Seated conduct records openings f.closure.scopes (.method f.declaration)

abbrev Value.Seated (conduct : Conduct) (records : Records) (openings : Openings) (value : Value) :
    Prop :=
  value.Holds (Function.Seated conduct records openings)
    (Function.SeatedMethod conduct records openings)

/-- Loose hosts hand in methods as functions. -/
theorem Function.SeatedMethod.unbound {f : Function} (loose : conduct = .loose)
    (seated : f.SeatedMethod conduct records openings) : f.Seated conduct records openings :=
  Lox.Seated.unbound seated loose

theorem getElem?_grow {address : Nat} {opening : Opening}
    (there : openings[address]? = some opening) (more : Openings) :
    (openings ++ more)[address]? = some opening := by
  rw [List.getElem?_append_left (List.getElem?_eq_some_iff.mp there).1]
  exact there

theorem Environment.Open.grow {here : Environment} (stands : here.Open openings)
    (more : Openings) : here.Open (openings ++ more) := by
  refine ⟨?_, stands.plain.imp (getElem?_grow · more) (getElem?_grow · more)⟩
  intro address member
  have below := stands.inside address member
  rw [List.length_append]
  exact Nat.lt_of_lt_of_le below (Nat.le_add_right _ _)

theorem Value.Seated.grow {value : Value} (seated : value.Seated conduct records openings)
    (more : Openings) : value.Seated conduct records (openings ++ more) :=
  seated.imp (fun _ seated => Lox.Seated.grow seated more)
    (fun _ seated => Lox.Seated.grow seated more)

namespace Machine

/-! ### Configurations -/

def Control.codes : Control → List Code
  | .eval e => [.expr e]
  | .exec s => [.stmt s]
  | .signal _ => []

def Frame.codes : Frame → List Code
  | .left _ operand | .logical _ operand | .target _ operand => [.expr operand]
  | .assign reference => [.target reference]
  | .callee _ arguments | .argument _ _ _ arguments => arguments.map .expr
  | .define name => [.word name]
  | .branch thenBranch elseBranch => .stmt thenBranch :: (elseBranch.map .stmt).toList
  | .test condition body | .again condition body => [.expr condition, .stmt body]
  | .sequence rest | .program rest => rest.map .stmt
  | _ => []

structure State.Seated (conduct : Conduct) (records : Records) (openings : Openings)
    (state : State) : Prop where
  size : state.store.scopes.size = openings.length
  holds : state.store.Holds (Function.Seated conduct records openings)
    (Function.SeatedMethod conduct records openings)
  tells : ∀ (address : Nat) (opening : Opening), openings[address]? = some opening →
    opening.Tells (state.store.lookup? address)

def StackSeated (conduct : Conduct) (records : Records) (openings : Openings) :
    Environment → List Frame → Prop
  | _, [] => True
  | _, .restore previous :: stack | _, .activation previous _ _ :: stack =>
    previous.Open openings ∧ StackSeated conduct records openings previous stack
  | here, frame :: stack =>
    (∀ code ∈ frame.codes, Lox.Seated conduct records openings here.scopes code) ∧
      frame.Holds (Function.Seated conduct records openings)
        (Function.SeatedMethod conduct records openings) ∧
      StackSeated conduct records openings here stack

/-- A state, and what waits in its environment. -/
structure Seating (conduct : Conduct) (records : Records) (openings : Openings) (state : State)
    (stack : List Frame) : Prop where
  seated : state.Seated conduct records openings
  here : state.current.Open openings
  waits : StackSeated conduct records openings state.current stack

structure Config.Seated (conduct : Conduct) (records : Records) (openings : Openings)
    (config : Config) : Prop where
  seating : Seating conduct records openings config.state config.stack
  control : ∀ code ∈ config.control.codes,
    Lox.Seated conduct records openings config.state.current.scopes code
  value : config.control.Holds (Function.Seated conduct records openings)
    (Function.SeatedMethod conduct records openings)

/-- Some environments more may have been made. -/
def Config.SeatedFrom (conduct : Conduct) (records : Records) (openings : Openings)
    (config : Config) : Prop :=
  ∃ more, config.Seated conduct records (openings ++ more)

theorem Config.SeatedFrom.still {config : Config}
    (seated : config.Seated conduct records openings) : config.SeatedFrom conduct records openings :=
  ⟨[], by rwa [List.append_nil]⟩

theorem StackSeated.grow {here : Environment} {stack : List Frame}
    (seated : StackSeated conduct records openings here stack) (more : Openings) :
    StackSeated conduct records (openings ++ more) here stack := by
  induction stack generalizing here with
  | nil => exact seated
  | cons frame stack ih =>
    cases frame with
    | restore previous | activation previous _ _ => exact ⟨seated.1.grow more, ih seated.2⟩
    | _ =>
      obtain ⟨codes, holds, rest⟩ := seated
      exact ⟨fun code member => (codes code member).grow more,
        holds.imp (fun _ seated => Lox.Seated.grow seated more)
          (fun _ seated => Lox.Seated.grow seated more), ih rest⟩

section Operations

variable {state : State} {stack : List Frame} {value : Value}

/-! ### Environments that are made -/

theorem State.Seated.enter {after : State} (seated : state.Seated conduct records openings)
    (opening : Opening) (outer : Environment) {bindings : Bindings Value}
    (held : ∀ name value, bindings.find? name = some value → value.Seated conduct records openings)
    (tells : opening.Tells bindings.find?)
    (store : after.store = (state.store.enter outer bindings).2) :
    after.Seated conduct records (openings ++ [opening]) where
  size := by
    rw [store]
    simp [Store.enter, seated.size]
  holds := by
    rw [store]
    have older := seated.holds.imp (fun _ seated => Lox.Seated.grow seated [opening])
      (fun _ seated => Lox.Seated.grow seated [opening])
    exact older.enter (fun name value found => (held name value found).grow [opening]) outer
  tells address other there := by
    have lookups (name : String) : after.store.lookup? address name =
        if address = openings.length then bindings.find? name
        else state.store.lookup? address name := by
      rw [store, Store.enter, Store.lookup?_push, seated.size]
    by_cases new : address = openings.length
    · subst new
      rw [List.getElem?_concat_length] at there
      obtain rfl := Option.some.inj there
      have same : after.store.lookup? openings.length = bindings.find? := by
        funext name
        rw [lookups, if_pos rfl]
      rw [same]
      exact tells
    · have below : address < openings.length := by
        have := (List.getElem?_eq_some_iff.mp there).1
        simp only [List.length_append, List.length_singleton] at this
        omega
      rw [List.getElem?_append_left below] at there
      have same : after.store.lookup? address = state.store.lookup? address := by
        funext name
        rw [lookups, if_neg new]
      rw [same]
      exact seated.tells address other there

/-- Where an environment is made aside, the one in force stays. -/
theorem Seating.aside {after : State} (seating : Seating conduct records openings state stack)
    {more : Openings} (seated : after.Seated conduct records (openings ++ more))
    (current : after.current = state.current) :
    Seating conduct records (openings ++ more) after stack := by
  refine ⟨seated, ?_, ?_⟩
  · rw [current]
    exact seating.here.grow more
  · rw [current]
    exact seating.waits.grow more

theorem tells_receiver (i : Instance) (method : Option FunctionDecl) :
    (Opening.receiver i method).Tells (Bindings.empty.insert thisName (.object i)).find? := by
  intro name
  rw [Bindings.find?_insert, Bindings.find?_empty]

/-- A function is bound in an environment for the receiver. -/
theorem Seating.receiver (seating : Seating conduct records openings state stack) (f : Function)
    {receiver : Instance} (given : (Value.object receiver).Seated conduct records openings)
    (method : Option FunctionDecl) :
    Seating conduct records (openings ++ [.receiver receiver method])
      (state.bindMethod f receiver).2 stack :=
  have after : (state.bindMethod f receiver).2.Seated conduct records
      (openings ++ [.receiver receiver method]) :=
    seating.seated.enter _ f.closure
      (fun _ _ found => Bindings.eq_of_find?_single found ▸ given) (tells_receiver receiver _) rfl
  seating.aside after rfl

theorem Seating.bindMethod (seating : Seating conduct records openings state stack)
    {method : Function} {receiver : Instance}
    (seated : method.SeatedMethod conduct records openings)
    (given : (Value.object receiver).Seated conduct records openings) :
    Seating conduct records (openings ++ [.receiver receiver (some method.declaration)])
        (state.bindMethod method receiver).2 stack ∧
      (state.bindMethod method receiver).1.Seated conduct records
        (openings ++ [.receiver receiver (some method.declaration)]) := by
  refine ⟨seating.receiver method given _, ?_⟩
  have bound := Lox.Seated.bound seated receiver
  rw [← seating.seated.size] at bound
  exact bound

/-- A loose host binds a function that need not be a method. -/
theorem Seating.rebind (seating : Seating conduct records openings state stack)
    (loose : conduct = .loose) {f : Function} {receiver : Instance}
    (seated : f.Seated conduct records openings)
    (given : (Value.object receiver).Seated conduct records openings) :
    Seating conduct records (openings ++ [.receiver receiver none])
        (state.bindMethod f receiver).2 stack ∧
      (state.bindMethod f receiver).1.Seated conduct records
        (openings ++ [.receiver receiver none]) := by
  refine ⟨seating.receiver f given _, ?_⟩
  have bound := Lox.Seated.rebound seated loose receiver
  rw [← seating.seated.size] at bound
  exact bound

/-! ### Results -/

theorem Seating.done (seating : Seating conduct records openings state stack)
    (held : value.Seated conduct records openings) :
    (Config.done value stack state).Seated conduct records openings :=
  ⟨seating, List.forall_mem_nil _, held⟩

theorem Seating.failed (seating : Seating conduct records openings state stack)
    (fault : RuntimeFault) : (Config.failed fault stack state).Seated conduct records openings :=
  ⟨seating, List.forall_mem_nil _, trivial⟩

/-- A method of an object, or of the superclass of one, is bound in an environment of its own. -/
theorem Seating.bound (seating : Seating conduct records openings state stack) {method : Function}
    {receiver : Instance} (seated : method.SeatedMethod conduct records openings)
    (given : (Value.object receiver).Seated conduct records openings) :
    (Config.done (.function (state.bindMethod method receiver).1) stack
      (state.bindMethod method receiver).2).Seated conduct records
        (openings ++ [.receiver receiver (some method.declaration)]) := by
  obtain ⟨there, function⟩ := seating.bindMethod seated given
  exact there.done function

theorem Seating.yields (seating : Seating conduct records openings state stack) {config : Config}
    (yields : Yields (Function.Seated conduct records openings)
      (Function.SeatedMethod conduct records openings) stack state config) :
    config.SeatedFrom conduct records openings := by
  cases yields with
  | failed fault => exact .still (seating.failed fault)
  | done held => exact .still (seating.done held)
  | bound seated given => exact ⟨_, seating.bound seated given⟩

theorem Seating.eval (seating : Seating conduct records openings state stack) {e : Expr}
    (seated : Lox.Seated conduct records openings state.current.scopes (.expr e)) :
    Config.Seated conduct records openings ⟨.eval e, stack, state⟩ :=
  ⟨seating, fun _ member => List.mem_singleton.mp member ▸ seated, trivial⟩

/-! ### Writes -/

/-- Anything may be written in the global environment, and ordinary names in those of bodies. -/
theorem State.Seated.write (seated : state.Seated conduct records openings)
    (held : value.Seated conduct records openings) {scope : Nat} {name : String}
    (plain : openings[scope]? = some .globals ∨ openings[scope]? = some .body ∧ Ordinary name) :
    (state.write scope name value).Seated conduct records openings where
  size := (Store.size_write _ _ _ _).trans seated.size
  holds := seated.holds.write held scope name
  tells address opening there := by
    have told := seated.tells address opening there
    by_cases here : address = scope
    · subst here
      rcases plain with global | ⟨body, ordinary⟩
      · rw [there] at global
        cases global
        trivial
      · rw [there] at body
        cases body
        intro other found bound
        have lookup := Store.lookup?_write state.store address address name other value
        rw [State.write, lookup] at bound
        split at bound
        · rename_i same
          exact same.2.1 ▸ ordinary
        · exact told other found bound
    · have same : (state.write scope name value).store.lookup? address =
          state.store.lookup? address := by
        funext other
        exact (Store.lookup?_write _ _ _ _ _ _).trans (if_neg fun both => here both.1)
      rw [same]
      exact told

/-- A name with an ordinary word for it is bound nowhere else. -/
theorem State.Seated.plain_of_binds (seated : state.Seated conduct records openings) {scope : Nat}
    {name : String} (ordinary : Ordinary name) (bound : state.store.binds name scope) :
    openings[scope]? = some .globals ∨ openings[scope]? = some .body ∧ Ordinary name := by
  have inside : scope < openings.length := by
    rw [← seated.size]
    refine Nat.lt_of_not_le fun outside => ?_
    rw [Store.binds, Store.lookup?_of_size_le outside] at bound
    cases bound
  have there : openings[scope]? = some openings[scope] := List.getElem?_eq_getElem inside
  have told := seated.tells scope _ there
  rw [Store.binds] at bound
  rw [there]
  cases opened : openings[scope] with
  | globals => exact .inl rfl
  | body => exact .inr ⟨rfl, ordinary⟩
  | receiver i =>
    rw [opened] at told
    rw [told, if_neg ordinary.notThis] at bound
    cases bound
  | superclass above methods =>
    rw [opened] at told
    rw [told, if_neg ordinary.notSuper] at bound
    cases bound

theorem Seating.withState {after : State} (seating : Seating conduct records openings state stack)
    (seated : after.Seated conduct records openings) (current : after.current = state.current) :
    Seating conduct records openings after stack := by
  refine ⟨seated, ?_, ?_⟩
  · rw [current]
    exact seating.here
  · rw [current]
    exact seating.waits

theorem Seating.define (seating : Seating conduct records openings state stack)
    (held : value.Seated conduct records openings) {name : String} (ordinary : Ordinary name) :
    Seating conduct records openings (state.define name value) stack :=
  seating.withState (seating.seated.write held (seating.here.plain.imp_right (⟨·, ordinary⟩))) rfl

/-! ### Calls -/

theorem Environment.Open.within {outer : Environment}
    (inside : ∀ address ∈ outer.scopes, address < openings.length) :
    (outer.within openings.length).Open (openings ++ [.body]) := by
  refine ⟨?_, .inr List.getElem?_concat_length⟩
  intro address member
  rw [List.length_append]
  rcases List.mem_cons.mp member with same | member
  · rw [same]
    exact Nat.lt_succ_self _
  · exact Nat.lt_succ_of_lt (inside address member)

theorem Seating.enterFunction (seating : Seating conduct records openings state stack)
    {function : Function} (seated : function.Seated conduct records openings)
    {arguments : List Value}
    (given : ∀ value ∈ arguments, value.Seated conduct records openings) (line : Nat) :
    (enterFunction function arguments line stack state).Seated conduct records
      (openings ++ [.body]) := by
  have tells : Opening.body.Tells
      (parameterBindings function.declaration.params arguments).find? := by
    intro name value found
    obtain ⟨param, member, rfl⟩ :=
      List.mem_map.mp (List.of_mem_zip (Bindings.find?_ofList _ name value found)).1
    exact Lox.Seated.ordinary_param seated member
  have after : (state.enter function.closure
      (parameterBindings function.declaration.params arguments)).Seated conduct records
        (openings ++ [.body]) :=
    seating.seated.enter .body function.closure
      (fun _ _ found => given _ (parameterBindings_given found)) tells rfl
  have here := Environment.Open.within (Lox.Seated.inside seated)
  have body : ∀ code ∈ function.declaration.body.map Code.stmt,
      Lox.Seated conduct records (openings ++ [.body]) (openings.length :: function.closure.scopes)
        code := by
    intro code member
    obtain ⟨s, listed, rfl⟩ := List.mem_map.mp member
    exact Lox.Seated.call seated listed
  rw [← seating.seated.size] at here body
  exact ⟨⟨after, here, body, trivial, seating.here.grow _, seating.waits.grow _⟩,
    List.forall_mem_nil _, trivial⟩

theorem Seating.callNative (seating : Seating conduct records openings state stack)
    {native : Native} {arguments : List Value} (arity : arguments.length = native.arity)
    (answers : ∀ value, state.Answers (.native native) arguments value →
      value.Seated conduct records openings) (line : Nat) :
    (callNative native arguments line stack state).SeatedFrom conduct records openings := by
  have after : Seating conduct records openings (state.callHost native arguments).2 stack :=
    seating.withState ⟨seating.seated.size, seating.seated.holds, seating.seated.tells⟩ rfl
  exact after.yields (yields_callNative arity answers line)

theorem Seating.instantiate (seating : Seating conduct records openings state stack) (c : Class) :
    Seating conduct records openings (state.instantiate c).2 stack :=
  seating.withState ⟨seating.seated.size, seating.seated.holds.instantiate c, seating.seated.tells⟩
    rfl

theorem Seating.construct_initializer (seating : Seating conduct records openings state stack)
    {c : Class} (holds : c.Holds (Function.SeatedMethod conduct records openings))
    {method : Function} (initializer : c.initializer? = some method) {arguments : List Value}
    (given : ∀ value ∈ arguments, value.Seated conduct records openings) (line : Nat) :
    (construct c arguments line stack state).Seated conduct records
      (openings ++ [.receiver (state.instantiate c).1 (some method.declaration), .body]) := by
  have made := seating.instantiate c
  have object : (Value.object (state.instantiate c).1).Seated conduct records openings := holds
  have seated : method.SeatedMethod conduct records openings := holds.findMethod? initializer
  obtain ⟨there, function⟩ := made.bindMethod seated object
  have waiting : Seating conduct records
      (openings ++ [.receiver (state.instantiate c).1 (some method.declaration)])
      ((state.instantiate c).2.bindMethod method (state.instantiate c).1).2
      (.constructing (state.instantiate c).1 :: stack) :=
    ⟨there.seated, there.here, List.forall_mem_nil _, object.grow _, there.waits⟩
  have entered := waiting.enterFunction function
    (fun value member => (given value member).grow _) line
  rw [List.append_assoc] at entered
  simp only [Machine.construct, initializer]
  exact entered

theorem Seating.construct (seating : Seating conduct records openings state stack) {c : Class}
    (holds : c.Holds (Function.SeatedMethod conduct records openings)) {arguments : List Value}
    (given : ∀ value ∈ arguments, value.Seated conduct records openings) (line : Nat) :
    (construct c arguments line stack state).SeatedFrom conduct records openings := by
  cases initializer : c.initializer? with
  | none =>
    simp only [Machine.construct, initializer]
    exact .still ((seating.instantiate c).done holds)
  | some method => exact ⟨_, seating.construct_initializer holds initializer given line⟩

theorem Seating.apply (seating : Seating conduct records openings state stack) {callee : Value}
    (seated : callee.Seated conduct records openings) {arguments : List Value}
    (given : ∀ value ∈ arguments, value.Seated conduct records openings)
    (answers : ∀ value, state.Answers callee arguments value →
      value.Seated conduct records openings)
    (arity : callee.arity? = some arguments.length) (line : Nat) :
    (apply callee arguments line stack state).SeatedFrom conduct records openings := by
  cases callee with
  | function function => exact ⟨_, seating.enterFunction seated given line⟩
  | native native => exact seating.callNative (Option.some.inj arity).symm answers line
  | klass c => exact seating.construct seated given line
  | nil | bool _ | number _ | string _ | object _ => cases arity

theorem Seating.call (seating : Seating conduct records openings state stack) {callee : Value}
    (seated : callee.Seated conduct records openings) (paren : Token) {arguments : List Value}
    (given : ∀ value ∈ arguments, value.Seated conduct records openings)
    (answers : ∀ value, state.Answers callee arguments value →
      value.Seated conduct records openings) :
    (call callee paren arguments stack state).SeatedFrom conduct records openings := by
  unfold Machine.call
  cases arity : callee.arity? with
  | none => exact .still (seating.failed _)
  | some count =>
    dsimp only
    split
    · rename_i same
      exact seating.apply seated given answers (by rw [arity, same]) paren.line
    · exact .still (seating.failed _)

theorem Seating.nextArgument (seating : Seating conduct records openings state stack)
    {callee : Value} (seated : callee.Seated conduct records openings) (paren : Token)
    {evaluated : List Value} (given : ∀ value ∈ evaluated, value.Seated conduct records openings)
    {pending : List Expr}
    (codes : ∀ code ∈ pending.map Code.expr,
      Lox.Seated conduct records openings state.current.scopes code)
    (answers : pending = [] → ∀ value, state.Answers callee evaluated.reverse value →
      value.Seated conduct records openings) :
    (nextArgument callee paren evaluated stack state pending).SeatedFrom conduct records
      openings := by
  cases pending with
  | nil =>
    refine seating.call seated paren ?_ (answers rfl)
    intro value member
    exact given value (List.mem_reverse.mp member)
  | cons first rest =>
    obtain ⟨next, later⟩ := List.forall_mem_cons.mp codes
    have waiting : Seating conduct records openings state
        (.argument callee paren evaluated rest :: stack) :=
      ⟨seating.seated, seating.here, later, ⟨seated, given⟩, seating.waits⟩
    exact .still (waiting.eval next)

/-! ### Names -/

/-- An assignment changes what is bound where it finds its name, which is an ordinary one. -/
theorem Seating.writeName (seating : Seating conduct records openings state stack)
    {target : Reference}
    (seated : Lox.Seated conduct records openings state.current.scopes (.target target))
    (held : value.Seated conduct records openings) :
    (writeName target value stack state).Seated conduct records openings := by
  have ordinary : Ordinary target.name.lexeme :=
    ordinary_of_named seated.proper fun _ genuine => genuine
  unfold Machine.writeName
  cases found : state.slot? target with
  | none => exact seating.failed _
  | some scope =>
    have plain := seating.seated.plain_of_binds ordinary (State.slot?_binds found)
    have written : Seating conduct records openings (state.write scope target.name.lexeme value)
        stack :=
      seating.withState (seating.seated.write held plain) rfl
    exact written.done held

/-! ### Declarations -/

theorem Seating.declareFunction (seating : Seating conduct records openings state stack)
    {declaration : FunctionDecl}
    (seated : Lox.Seated conduct records openings state.current.scopes
      (.stmt (.function declaration))) :
    (declareFunction declaration stack state).Seated conduct records openings := by
  have closed : Seating conduct records openings (state.close declaration false).2 stack :=
    seating.withState ⟨seating.seated.size, seating.seated.holds,
      seating.seated.tells⟩ rfl
  have function :
      (Value.function (state.close declaration false).1).Seated conduct records openings :=
    seated.part .made
  have ordinary : Ordinary declaration.name.lexeme :=
    ordinary_of_named (seated.part .named).proper fun _ genuine => genuine
  exact (closed.define function ordinary).done trivial

/-- The methods of a class are made where its superclass is bound, if it has one. -/
theorem Seating.declareClass (seating : Seating conduct records openings state stack) {name : Token}
    (ordinary : Ordinary name.lexeme) {above : Option Class}
    (holds : ∀ c, above = some c → c.Holds (Function.SeatedMethod conduct records openings))
    {methods : List FunctionDecl} {more : Openings}
    (entered : (state.enterSuper above).Seated conduct records (openings ++ more))
    (seated : ∀ declaration ∈ methods, Lox.Seated conduct records (openings ++ more)
      (state.enterSuper above).current.scopes (.method declaration)) :
    (Config.done .nil stack (state.declareClass name above methods)).Seated conduct records
      (openings ++ more) := by
  obtain ⟨born, own, declares, whole⟩ := state.declareClass_eq name above methods
  let outside : State := { state.enterSuper above with current := state.current, born }
  have stored : outside.Seated conduct records (openings ++ more) :=
    ⟨entered.size, entered.holds, entered.tells⟩
  let value : Value := .klass ⟨own, (above.map Class.layers).getD []⟩
  have made : value.Seated conduct records (openings ++ more) :=
    declared_holds declares (fun _ => seated) fun c same =>
      (holds c same).imp fun _ seated => Lox.Seated.grow seated more
  rw [whole]
  exact ((seating.aside stored rfl).define made ordinary).done trivial

theorem Seating.plainClass (seating : Seating conduct records openings state stack) {name : Token}
    {methods : List FunctionDecl}
    (seated : Lox.Seated conduct records openings state.current.scopes
      (.stmt (.classDecl name none methods))) :
    (Config.done .nil stack (state.declareClass name none methods)).Seated conduct records
      openings := by
  have ordinary : Ordinary name.lexeme :=
    ordinary_of_named (seated.part .classed).proper fun _ genuine => genuine
  have entered : (state.enterSuper none).Seated conduct records (openings ++ []) := by
    rw [List.append_nil]
    exact seating.seated
  have made : ∀ declaration ∈ methods, Lox.Seated conduct records (openings ++ [])
      (state.enterSuper none).current.scopes (.method declaration) := by
    rw [List.append_nil]
    exact fun _ member => Lox.Seated.plain_method seated member
  have declared : (Config.done .nil stack (state.declareClass name none methods)).Seated conduct
      records (openings ++ []) := seating.declareClass ordinary (by simp) entered made
  rwa [List.append_nil] at declared

theorem Seating.derivedClass (seating : Seating conduct records openings state stack) {name : Token}
    {superclass : Reference} {above : Class} {methods : List FunctionDecl}
    (seated : Lox.Seated conduct records openings state.current.scopes
      (.stmt (.classDecl name (some superclass) methods)))
    (holds : (Value.klass above).Seated conduct records openings) :
    (Config.done .nil stack (state.declareClass name (some above) methods)).Seated conduct records
      (openings ++ [.superclass above methods]) := by
  have ordinary : Ordinary name.lexeme :=
    ordinary_of_named (seated.part .classed).proper fun _ genuine => genuine
  have tells : (Opening.superclass above methods).Tells
      (Bindings.empty.insert superName (.klass above)).find? := by
    intro name
    rw [Bindings.find?_insert, Bindings.find?_empty]
  have entered : (state.enterSuper (some above)).Seated conduct records
      (openings ++ [.superclass above methods]) :=
    seating.seated.enter (.superclass above methods) state.current
      (fun _ _ found => Bindings.eq_of_find?_single found ▸ holds) tells rfl
  refine seating.declareClass ordinary ?_ entered ?_
  · intro c same
    cases same
    exact holds
  · intro declaration member
    have method := Lox.Seated.derived_method seated above member
    rw [← seating.seated.size] at method
    exact method

/-! ### Steps -/

theorem Seating.step_eval (seating : Seating conduct records openings state stack) {e : Expr}
    (seated : Lox.Seated conduct records openings state.current.scopes (.expr e)) :
    (Machine.eval e stack state).SeatedFrom conduct records openings := by
  have part {piece : Code} (stands : Code.Part (.expr e) piece) :
      ∀ code ∈ [piece], Lox.Seated conduct records openings state.current.scopes code :=
    List.forall_mem_singleton.mpr (seated.part stands)
  obtain ⟨stored, here, waits⟩ := seating
  cases e with
  | literal literal =>
    exact .still (Seating.done ⟨stored, here, waits⟩ (Value.holds_ofLiteral literal))
  | unary operator operand =>
    exact .still ⟨⟨stored, here, List.forall_mem_nil _, trivial, waits⟩, part .operand, trivial⟩
  | get operand name =>
    exact .still ⟨⟨stored, here, List.forall_mem_nil _, trivial, waits⟩, part .object, trivial⟩
  | binary first operator second =>
    exact .still ⟨⟨stored, here, part .right, trivial, waits⟩, part .left, trivial⟩
  | logical first operator second =>
    exact .still ⟨⟨stored, here, part .decided, trivial, waits⟩, part .deciding, trivial⟩
  | set first name second =>
    exact .still ⟨⟨stored, here, part .value, trivial, waits⟩, part .owner, trivial⟩
  | assign target value =>
    exact .still ⟨⟨stored, here, part .target, trivial, waits⟩, part .assigned, trivial⟩
  | call first paren arguments =>
    refine .still ⟨⟨stored, here, ?_, trivial, waits⟩, part .callee, trivial⟩
    intro code member
    obtain ⟨argument, listed, rfl⟩ := List.mem_map.mp member
    exact seated.part (.argument listed)
  | grouping inner => exact .still ⟨⟨stored, here, waits⟩, part .inner, trivial⟩
  | «variable» reference | this reference =>
    exact Seating.yields ⟨stored, here, waits⟩ (yields_readName stored.holds reference)
  | super reference method =>
    exact Seating.yields ⟨stored, here, waits⟩ (yields_superMethod stored.holds reference method)

theorem Seating.step_exec (seating : Seating conduct records openings state stack) {s : Stmt}
    (seated : Lox.Seated conduct records openings state.current.scopes (.stmt s)) :
    (Machine.exec s stack state).SeatedFrom conduct records openings := by
  have part {piece : Code} (stands : Code.Part (.stmt s) piece) :
      ∀ code ∈ [piece], Lox.Seated conduct records openings state.current.scopes code :=
    List.forall_mem_singleton.mpr (seated.part stands)
  cases s with
  | expression e => exact .still ⟨seating, part .expression, trivial⟩
  | print e =>
    exact .still ⟨⟨seating.seated, seating.here, List.forall_mem_nil _, trivial, seating.waits⟩,
      part .printed, trivial⟩
  | var name initializer =>
    have ordinary : Ordinary name.lexeme :=
      ordinary_of_named (seated.part .declared).proper fun _ genuine => genuine
    cases initializer with
    | none =>
      have nil : Value.nil.Seated conduct records openings := trivial
      exact .still ((seating.define nil ordinary).done trivial)
    | some e =>
      exact .still ⟨⟨seating.seated, seating.here, part .declared, trivial, seating.waits⟩,
        part .initial, trivial⟩
  | block body =>
    have after : (state.enter state.current .empty).Seated conduct records (openings ++ [.body]) :=
      seating.seated.enter .body state.current (by simp) (by simp [Opening.Tells]) rfl
    have here := Environment.Open.within seating.here.inside
    have codes : ∀ code ∈ body.map Code.stmt,
        Lox.Seated conduct records (openings ++ [.body]) (openings.length :: state.current.scopes)
          code := by
      intro code member
      obtain ⟨s, listed, rfl⟩ := List.mem_map.mp member
      exact Lox.Seated.block seated listed
    rw [← seating.seated.size] at here codes
    exact ⟨[.body], ⟨after, here, codes, trivial, seating.here.grow _, seating.waits.grow _⟩,
      List.forall_mem_nil _, trivial⟩
  | conditional condition thenBranch elseBranch =>
    refine .still ⟨⟨seating.seated, seating.here, ?_, trivial, seating.waits⟩, part .condition,
      trivial⟩
    intro code member
    rcases List.mem_cons.mp member with rfl | other
    · exact seated.part .thenBranch
    · cases elseBranch with
      | none => cases other
      | some elseBranch =>
        rw [List.mem_singleton.mp other]
        exact seated.part .elseBranch
  | loop condition body =>
    refine .still ⟨⟨seating.seated, seating.here, ?_, trivial, seating.waits⟩, part .test, trivial⟩
    exact List.forall_mem_cons.mpr ⟨seated.part .test, part .body⟩
  | function declaration => exact .still (seating.declareFunction seated)
  | ret keyword value =>
    cases value with
    | none => exact .still ⟨seating, List.forall_mem_nil _, trivial⟩
    | some value =>
      exact .still ⟨⟨seating.seated, seating.here, List.forall_mem_nil _, trivial, seating.waits⟩,
        part .result, trivial⟩
  | classDecl name superclass methods =>
    unfold Machine.exec Machine.declareClass
    dsimp only
    cases superclass with
    | none => exact .still (seating.plainClass seated)
    | some reference =>
      dsimp only
      split
      · exact .still (seating.failed _)
      · rename_i above found
        exact ⟨_, seating.derivedClass seated (lookup?_holds seating.seated.holds found)⟩
      · exact .still (seating.failed _)

theorem Seating.resume {frame : Frame}
    (seating : Seating conduct records openings state (frame :: stack))
    (held : value.Seated conduct records openings)
    (answers : ∀ answer, Config.Answers ⟨.signal (.done value), frame :: stack, state⟩ answer →
      answer.Seated conduct records openings) :
    (resume value stack state frame).SeatedFrom conduct records openings := by
  obtain ⟨stored, here, waits⟩ := seating
  cases frame with
  | unary operator =>
    exact Seating.yields ⟨stored, here, waits.2.2⟩ (yields_applyUnary operator value)
  | left operator operand =>
    obtain ⟨codes, _, waits⟩ := waits
    exact .still ⟨⟨stored, here, List.forall_mem_nil _, held, waits⟩, codes, trivial⟩
  | right first operator =>
    exact Seating.yields ⟨stored, here, waits.2.2⟩ (yields_applyBinary operator first value)
  | logical operator operand =>
    obtain ⟨codes, _, waits⟩ := waits
    simp only [Machine.resume]
    split
    · exact .still (Seating.done ⟨stored, here, waits⟩ held)
    · exact .still ⟨⟨stored, here, waits⟩, codes, trivial⟩
  | assign target =>
    obtain ⟨codes, _, waits⟩ := waits
    have seated := List.forall_mem_singleton.mp codes
    exact .still (Seating.writeName ⟨stored, here, waits⟩ seated held)
  | callee paren arguments =>
    refine Seating.nextArgument ⟨stored, here, waits.2.2⟩ held paren (by simp) waits.1 ?_
    rintro rfl answer answered
    exact answers answer ⟨_, _, _, _, .plain, answered⟩
  | argument called paren evaluated pending =>
    obtain ⟨codes, ⟨callee, values⟩, waits⟩ := waits
    refine Seating.nextArgument ⟨stored, here, waits⟩ callee paren
      (List.forall_mem_cons.mpr ⟨held, values⟩) codes ?_
    rintro rfl answer answered
    exact answers answer ⟨_, _, _, _, .given, answered⟩
  | property name =>
    exact Seating.yields ⟨stored, here, waits.2.2⟩ (yields_getProperty stored.holds held name)
  | target name expr =>
    obtain ⟨codes, _, waits⟩ := waits
    simp only [Machine.resume]
    split
    · exact .still ⟨⟨stored, here, List.forall_mem_nil _, held, waits⟩, codes, trivial⟩
    · exact .still (Seating.failed ⟨stored, here, waits⟩ _)
  | field object name =>
    have located : Seating conduct records openings state stack := ⟨stored, here, waits.2.2⟩
    have after : Seating conduct records openings (state.setField object name.lexeme value) stack :=
      located.withState ⟨stored.size, stored.holds.setField held object name.lexeme,
        stored.tells⟩ rfl
    exact .still (after.done held)
  | print =>
    have nil : Value.nil.Seated conduct records openings := trivial
    have printed : Seating conduct records openings (state.print value.text) stack :=
      ⟨⟨stored.size, stored.holds, stored.tells⟩, here, waits.2.2⟩
    exact .still (printed.done nil)
  | define name =>
    obtain ⟨codes, _, waits⟩ := waits
    have ordinary : Ordinary name.lexeme :=
      ordinary_of_named (List.forall_mem_singleton.mp codes).proper fun _ genuine => genuine
    have located : Seating conduct records openings state stack := ⟨stored, here, waits⟩
    exact .still ((located.define held ordinary).done trivial)
  | branch thenBranch elseBranch =>
    obtain ⟨codes, _, waits⟩ := waits
    obtain ⟨first, second⟩ := List.forall_mem_cons.mp codes
    simp only [Machine.resume]
    split
    · exact .still ⟨⟨stored, here, waits⟩, List.forall_mem_singleton.mpr first, trivial⟩
    · cases elseBranch with
      | none => exact .still (Seating.done ⟨stored, here, waits⟩ trivial)
      | some elseBranch => exact .still ⟨⟨stored, here, waits⟩, second, trivial⟩
  | test condition body =>
    obtain ⟨codes, _, waits⟩ := waits
    simp only [Machine.resume]
    split
    · have second := (List.forall_mem_cons.mp codes).2
      exact .still ⟨⟨stored, here, codes, trivial, waits⟩, second, trivial⟩
    · exact .still (Seating.done ⟨stored, here, waits⟩ trivial)
  | again condition body =>
    obtain ⟨codes, _, waits⟩ := waits
    exact .still ⟨⟨stored, here, codes, trivial, waits⟩,
      List.forall_mem_singleton.mpr (List.forall_mem_cons.mp codes).1, trivial⟩
  | returning => exact .still ⟨⟨stored, here, waits.2.2⟩, List.forall_mem_nil _, held⟩
  | sequence rest | program rest =>
    obtain ⟨codes, _, waits⟩ := waits
    cases rest with
    | nil => exact .still (Seating.done ⟨stored, here, waits⟩ trivial)
    | cons next rest =>
      obtain ⟨first, later⟩ := List.forall_mem_cons.mp codes
      exact .still ⟨⟨stored, here, later, trivial, waits⟩, List.forall_mem_singleton.mpr first,
        trivial⟩
  | restore previous =>
    obtain ⟨there, waits⟩ := waits
    have outside : Seating conduct records openings (state.withCurrent previous) stack :=
      ⟨⟨stored.size, stored.holds, stored.tells⟩, there, waits⟩
    exact .still (outside.done trivial)
  | activation caller function line =>
    obtain ⟨there, waits⟩ := waits
    have outside : Seating conduct records openings (state.withCurrent caller) stack :=
      ⟨⟨stored.size, stored.holds, stored.tells⟩, there, waits⟩
    exact outside.yields (yields_finishCall outside.seated.holds function line .nil trivial)
  | constructing made => exact .still (Seating.done ⟨stored, here, waits.2.2⟩ waits.2.1)

theorem Seating.leave {frame : Frame}
    (seating : Seating conduct records openings state (frame :: stack)) :
    Seating conduct records openings (leave state frame) stack := by
  obtain ⟨stored, here, waits⟩ := seating
  cases frame with
  | restore previous | activation previous function line =>
    exact ⟨⟨stored.size, stored.holds, stored.tells⟩, waits.1, waits.2⟩
  | _ => exact ⟨stored, here, waits.2.2⟩

theorem Seating.unwind {frame : Frame}
    (seating : Seating conduct records openings state (frame :: stack))
    (held : value.Seated conduct records openings) :
    (unwind value stack state frame).SeatedFrom conduct records openings := by
  have left := seating.leave
  cases frame with
  | activation caller function line =>
    exact left.yields (yields_finishCall left.seated.holds function line value held)
  | program rest => exact seating.resume held fun _ answers => absurd answers not_answers_program
  | _ => exact .still ⟨left, List.forall_mem_nil _, held⟩

/-- A step makes some environments more, and leaves to the others what they were made for. -/
theorem Config.Seated.step {config : Config} (seated : config.Seated conduct records openings)
    (answers : ∀ answer, config.Answers answer → answer.Seated conduct records openings) :
    (step config).SeatedFrom conduct records openings := by
  obtain ⟨control, stack, state⟩ := config
  obtain ⟨seating, codes, held⟩ := seated
  cases control with
  | eval e => exact seating.step_eval (List.forall_mem_singleton.mp codes)
  | exec s => exact seating.step_exec (List.forall_mem_singleton.mp codes)
  | signal signal =>
    cases stack with
    | nil => exact .still ⟨seating, codes, held⟩
    | cons frame stack =>
      cases signal with
      | done value => exact seating.resume held answers
      | returned value => exact seating.unwind held
      | failed fault => exact .still (seating.leave.failed fault)

/-! ### Hosts -/

theorem StackSeated.holds {here : Environment} {stack : List Frame}
    (seated : StackSeated conduct records openings here stack) :
    ∀ frame ∈ stack, frame.Holds (Function.Seated conduct records openings)
      (Function.SeatedMethod conduct records openings) := by
  induction stack generalizing here with
  | nil => exact List.forall_mem_nil _
  | cons frame stack ih =>
    cases frame with
    | restore previous | activation previous _ _ =>
      exact List.forall_mem_cons.mpr ⟨trivial, ih seated.2⟩
    | _ => exact List.forall_mem_cons.mpr ⟨seated.2.1, ih seated.2.2⟩

theorem Config.Seated.holds {config : Config} (seated : config.Seated conduct records openings) :
    config.Holds (Function.Seated conduct records openings)
      (Function.SeatedMethod conduct records openings) :=
  ⟨seated.seating.seated.holds, seated.value, seated.seating.waits.holds⟩

/-- What a host hands in is seated as all is that the program holds. -/
theorem Config.Seated.offers {config : Config} {kept : List Value}
    (seated : config.Seated conduct records openings)
    (held : ∀ value ∈ kept, value.Seated conduct records openings)
    (offers : config.Offers conduct kept value) : value.Seated conduct records openings :=
  offers _ _ (fun loose _ => Function.SeatedMethod.unbound loose) seated.holds held

/-- What is done beside a program makes environments at most. -/
theorem Config.Seated.aside {config : Config} {after : State} {more : Openings}
    (seated : config.Seated conduct records openings)
    (there : Seating conduct records (openings ++ more) after config.stack)
    (current : after.current = config.state.current) :
    Config.Seated conduct records (openings ++ more) { config with state := after } := by
  refine ⟨there, ?_, seated.value.imp ?_ ?_⟩
  · dsimp only
    rw [current]
    exact fun code member => (seated.control code member).grow more
  · exact fun _ seated => Lox.Seated.grow seated more
  · exact fun _ seated => Lox.Seated.grow seated more

theorem Config.Seated.acts {config : Config} {kept more : List Value} {state : State}
    (seated : config.Seated conduct records openings) (rooted : openings[0]? = some .globals)
    (held : ∀ value ∈ kept, value.Seated conduct records openings)
    (acts : Acts conduct config kept state more) :
    ∃ extra, Config.Seated conduct records (openings ++ extra) { config with state } ∧
      ∀ value ∈ more, value.Seated conduct records (openings ++ extra) := by
  have offered {value : Value} (offers : config.Offers conduct kept value) :
      value.Seated conduct records openings := seated.offers held offers
  have seating := seated.seating
  have still {state : State} {more : List Value}
      (there : Seating conduct records openings state config.stack)
      (current : state.current = config.state.current)
      (held : ∀ value ∈ more, value.Seated conduct records openings) :
      ∃ extra, Config.Seated conduct records (openings ++ extra) { config with state } ∧
        ∀ value ∈ more, value.Seated conduct records (openings ++ extra) := by
    rw [← List.append_nil openings] at there held
    exact ⟨[], seated.aside there current, held⟩
  cases acts with
  | turns hosts =>
    exact still (seating.withState
      ⟨seating.seated.size, seating.seated.holds, seating.seated.tells⟩ rfl) rfl held
  | keeps offers => exact still seating rfl (List.forall_mem_cons.mpr ⟨offered offers, held⟩)
  | defines name offers =>
    exact still (seating.withState (seating.seated.write (offered offers) (.inl rooted)) rfl) rfl
      held
  | sets i name offers =>
    exact still (seating.withState ⟨seating.seated.size,
      seating.seated.holds.setField (offered offers) i name, seating.seated.tells⟩ rfl) rfl held
  | makes c => exact still (seating.instantiate c) rfl held
  | binds within found receiver =>
    obtain ⟨there, function⟩ :=
      seating.bindMethod ((offered within).findMethod? found) (offered receiver)
    refine ⟨_, seated.aside there rfl, List.forall_mem_cons.mpr ⟨function, ?_⟩⟩
    exact fun value member => (held value member).grow _
  | rebinds loose given receiver =>
    obtain ⟨there, function⟩ := seating.rebind loose (offered given) (offered receiver)
    refine ⟨_, seated.aside there rfl, List.forall_mem_cons.mpr ⟨function, ?_⟩⟩
    exact fun value member => (held value member).grow _

end Operations

end Machine
end Lox
