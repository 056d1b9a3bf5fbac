import Lox.Proofs.Preservation

/-! Which body each scope of a run was opened for. A ledger has an entry for every address, and code
that runs inside of a scope is part of the body in its entry. -/

namespace Lox

open Machine Resolution

/-- The bodies of blocks and calls, by address. The other scopes have none. -/
abbrev Ledger := List (Option (List Stmt))

/-- Code with given uses, in an environment with given scopes. What it uses from within a scope is
used in the body of that scope. -/
structure Placed (ledger : Ledger) (addresses : List Nat) (uses : Nat → List Use) : Prop where
  inside : ∀ address ∈ addresses, address < ledger.length
  within : ∀ depth address body, addresses[depth]? = some address →
    ledger[address]? = some (some body) → ∀ use ∈ uses depth, use ∈ stmtUses 0 body

def Function.Placed (ledger : Ledger) (f : Function) : Prop :=
  Lox.Placed ledger f.closure.scopes (FunctionDecl.uses · f.declaration)

/-- A method stands one scope further in than where it was made. -/
def Function.PlacedMethod (ledger : Ledger) (f : Function) : Prop :=
  Lox.Placed ledger f.closure.scopes fun depth => f.declaration.uses (depth + 1)

abbrev Value.Placed (ledger : Ledger) (value : Value) : Prop :=
  value.Holds (Function.Placed ledger) (Function.PlacedMethod ledger)

namespace Placed

variable {ledger : Ledger} {addresses : List Nat} {uses fewer : Nat → List Use}

theorem sub (placed : Placed ledger addresses uses) (subset : ∀ depth, fewer depth ⊆ uses depth) :
    Placed ledger addresses fewer :=
  ⟨placed.inside, fun depth address body there entry use member =>
    placed.within depth address body there entry use (subset depth member)⟩

theorem left {other : Nat → List Use}
    (placed : Placed ledger addresses fun depth => uses depth ++ other depth) :
    Placed ledger addresses uses :=
  placed.sub fun _ => List.subset_append_left _ _

theorem right {other : Nat → List Use}
    (placed : Placed ledger addresses fun depth => other depth ++ uses depth) :
    Placed ledger addresses uses :=
  placed.sub fun _ => List.subset_append_right _ _

theorem grow (placed : Placed ledger addresses uses) (more : Ledger) :
    Placed (ledger ++ more) addresses uses := by
  refine ⟨?_, ?_⟩
  · intro address member
    have := placed.inside address member
    simp only [List.length_append]
    omega
  · intro depth address body there entry
    have below := placed.inside address (List.mem_of_getElem? there)
    rw [List.getElem?_append_left below] at entry
    exact placed.within depth address body there entry

/-- A scope is opened around code that was looked at from one scope further out until then. -/
theorem enter (placed : Placed ledger addresses fun depth => uses (depth + 1))
    (entry : Option (List Stmt)) (fits : ∀ body, entry = some body → uses 0 ⊆ stmtUses 0 body) :
    Placed (ledger ++ [entry]) (ledger.length :: addresses) uses := by
  have older := placed.grow [entry]
  refine ⟨?_, ?_⟩
  · intro address member
    rcases List.mem_cons.mp member with same | member
    · simp [same]
    · exact older.inside address member
  · intro depth address body there found
    cases depth with
    | zero =>
      cases there
      rw [List.getElem?_append_right (Nat.le_refl _), Nat.sub_self] at found
      exact fits body (Option.some.inj found)
    | succ depth => exact older.within depth address body there found

end Placed

variable {ledger : Ledger}

theorem Function.Placed.grow {f : Function} (placed : f.Placed ledger) (more : Ledger) :
    f.Placed (ledger ++ more) :=
  Lox.Placed.grow placed more

theorem Function.PlacedMethod.grow {f : Function} (placed : f.PlacedMethod ledger)
    (more : Ledger) : f.PlacedMethod (ledger ++ more) :=
  Lox.Placed.grow placed more

theorem Value.Placed.grow {value : Value} (placed : value.Placed ledger) (more : Ledger) :
    value.Placed (ledger ++ more) :=
  placed.imp (fun _ placed => placed.grow more) (fun _ placed => placed.grow more)

theorem Class.grow {c : Class} (holds : c.Holds (Function.PlacedMethod ledger))
    (more : Ledger) : c.Holds (Function.PlacedMethod (ledger ++ more)) :=
  holds.imp fun _ placed => placed.grow more

namespace Machine

/-! ### Configurations -/

def Control.uses (depth : Nat) : Control → List Use
  | .eval e => e.uses depth
  | .exec s => s.uses depth
  | .signal _ => []

def Frame.uses (depth : Nat) : Frame → List Use
  | .left _ operand | .logical _ operand => operand.uses depth
  | .assign reference => [⟨depth, true, reference⟩]
  | .callee _ arguments => exprUses depth arguments
  | .argument _ _ _ pending => exprUses depth pending
  | .target _ value => value.uses depth
  | .branch thenBranch elseBranch => thenBranch.uses depth ++ branchUses depth elseBranch
  | .test condition body | .again condition body => condition.uses depth ++ body.uses depth
  | .sequence rest | .program rest => stmtUses depth rest
  | _ => []

def StackPlaced (ledger : Ledger) : List Nat → List Frame → Prop
  | _, [] => True
  | _, .restore previous :: stack | _, .activation previous _ _ :: stack =>
    Placed ledger previous.scopes (fun _ => []) ∧ StackPlaced ledger previous.scopes stack
  | addresses, frame :: stack =>
    Placed ledger addresses (Frame.uses · frame) ∧
      frame.Holds (Function.Placed ledger) (Function.PlacedMethod ledger) ∧
      StackPlaced ledger addresses stack

structure State.Placed (ledger : Ledger) (state : State) : Prop where
  size : state.store.scopes.size = ledger.length
  holds : state.store.Holds (Function.Placed ledger) (Function.PlacedMethod ledger)

/-- A state and the frames that wait in its environment. -/
structure Located (ledger : Ledger) (state : State) (stack : List Frame) : Prop where
  placed : state.Placed ledger
  inside : ∀ address ∈ state.current.scopes, address < ledger.length
  waits : StackPlaced ledger state.current.scopes stack

structure Config.Placed (ledger : Ledger) (config : Config) : Prop where
  located : Located ledger config.state config.stack
  control : Lox.Placed ledger config.state.current.scopes (Control.uses · config.control)
  value : config.control.Holds (Function.Placed ledger) (Function.PlacedMethod ledger)

/-- The statements that come next are those the scope in force was opened for, and if they are those
of a function its parameters are bound. -/
structure Config.Opened (ledger : Ledger) (config : Config) : Prop where
  body : ∀ body stack, config.stack = .sequence body :: stack →
    ledger[config.state.current.scope]? = some (some body)
  parameters : ∀ body caller function line stack,
    config.stack = .sequence body :: .activation caller function line :: stack →
      ∀ param ∈ function.declaration.params,
        config.state.store.binds param.lexeme config.state.current.scope

/-- Some scopes more may have been opened, and then perhaps the one in force. -/
def Config.PlacedFrom (ledger : Ledger) (config : Config) : Prop :=
  ∃ more, config.Placed (ledger ++ more) ∧
    (ledger.length ≤ config.state.current.scope → config.Opened (ledger ++ more))

theorem StackPlaced.grow {addresses : List Nat} {stack : List Frame}
    (placed : StackPlaced ledger addresses stack) (more : Ledger) :
    StackPlaced (ledger ++ more) addresses stack := by
  induction stack generalizing addresses with
  | nil => exact placed
  | cons frame stack ih =>
    cases frame with
    | restore previous => exact ⟨placed.1.grow more, ih placed.2⟩
    | activation previous _ _ => exact ⟨placed.1.grow more, ih placed.2⟩
    | _ =>
      obtain ⟨here, holds, rest⟩ := placed
      exact ⟨here.grow more, holds.imp (fun _ placed => placed.grow more)
        (fun _ placed => placed.grow more), ih rest⟩

theorem StackPlaced.holds {addresses : List Nat} {stack : List Frame}
    (placed : StackPlaced ledger addresses stack) :
    ∀ frame ∈ stack, frame.Holds (Function.Placed ledger) (Function.PlacedMethod ledger) := by
  induction stack generalizing addresses with
  | nil => exact List.forall_mem_nil _
  | cons frame stack ih =>
    cases frame with
    | restore previous | activation previous _ _ =>
      exact List.forall_mem_cons.mpr ⟨trivial, ih placed.2⟩
    | _ => exact List.forall_mem_cons.mpr ⟨placed.2.1, ih placed.2.2⟩

/-- What is held in a store stays placed when a scope is opened. -/
theorem State.Placed.enter {state after : State} (placed : state.Placed ledger)
    (entry : Option (List Stmt)) (outer : Environment) {bindings : Bindings Value}
    (held : ∀ name value, bindings.find? name = some value → value.Placed ledger)
    (store : after.store = (state.store.enter outer bindings).2) :
    after.Placed (ledger ++ [entry]) := by
  refine ⟨?_, ?_⟩
  · rw [store]
    simp [Store.enter, placed.size]
  · rw [store]
    have older := placed.holds.imp (fun _ placed => Function.Placed.grow placed [entry])
      (fun _ placed => Function.PlacedMethod.grow placed [entry])
    refine older.enter ?_ outer
    intro name value found
    exact (held name value found).grow [entry]

/-! ### Operations -/

section Operations

variable {state : State} {stack : List Frame} {value : Value}

/-- A configuration in which no scope was opened. -/
theorem Config.PlacedFrom.still {config : Config} (placed : config.Placed ledger) :
    config.PlacedFrom ledger := by
  have below := placed.located.inside _ List.mem_cons_self
  refine ⟨[], by rwa [List.append_nil], ?_⟩
  intro above
  exact absurd below (Nat.not_lt.mpr above)

theorem Located.nothing (located : Located ledger state stack) :
    Placed ledger state.current.scopes fun _ => [] :=
  ⟨located.inside, by simp⟩

theorem Located.done (located : Located ledger state stack) (held : value.Placed ledger) :
    (Config.done value stack state).PlacedFrom ledger :=
  Config.PlacedFrom.still ⟨located, located.nothing, held⟩

theorem Located.failed (located : Located ledger state stack) (fault : RuntimeFault) :
    (Config.failed fault stack state).PlacedFrom ledger :=
  Config.PlacedFrom.still ⟨located, located.nothing, trivial⟩

theorem Located.eval (located : Located ledger state stack) {e : Expr}
    (uses : Placed ledger state.current.scopes (Expr.uses · e)) :
    Config.PlacedFrom ledger ⟨.eval e, stack, state⟩ :=
  Config.PlacedFrom.still ⟨located, uses, trivial⟩

/-- Changes that leave the environment in force and the number of scopes as they are. -/
theorem Located.withStore (located : Located ledger state stack) {store : Store}
    (size : store.scopes.size = state.store.scopes.size)
    (holds : store.Holds (Function.Placed ledger) (Function.PlacedMethod ledger)) :
    Located ledger { state with store } stack :=
  ⟨⟨size.trans located.placed.size, holds⟩, located.inside,
    located.waits⟩

theorem Located.write (located : Located ledger state stack) (held : value.Placed ledger)
    (scope : Nat) (name : String) : Located ledger (state.write scope name value) stack :=
  located.withStore (Store.size_write _ _ _ _) (located.placed.holds.write held scope name)

theorem Located.define (located : Located ledger state stack) (held : value.Placed ledger)
    (name : String) : Located ledger (state.define name value) stack :=
  located.write held state.current.scope name

/-- Where a scope is opened aside, the environment in force stays. -/
theorem Located.aside {after : State} (located : Located ledger state stack)
    (current : after.current = state.current) (placed : after.Placed (ledger ++ [none])) :
    Located (ledger ++ [none]) after stack := by
  refine ⟨placed, ?_, ?_⟩
  · intro address member
    rw [current] at member
    have below := located.inside address member
    simp only [List.length_append]
    omega
  · rw [current]
    exact located.waits.grow [none]

/-- Only a scope aside was opened. -/
theorem Config.PlacedFrom.aside {config : Config} (located : Located ledger state stack)
    (current : config.state.current = state.current)
    (placed : config.Placed (ledger ++ [none])) : config.PlacedFrom ledger := by
  have below := located.inside _ List.mem_cons_self
  rw [← current] at below
  exact ⟨[none], placed, fun above => absurd below (Nat.not_lt.mpr above)⟩

theorem Located.bindMethod (located : Located ledger state stack) {method : Function}
    {receiver : Instance} (placed : method.PlacedMethod ledger)
    (given : (Value.object receiver).Placed ledger) :
    Located (ledger ++ [none]) (state.bindMethod method receiver).2 stack ∧
      (state.bindMethod method receiver).1.Placed (ledger ++ [none]) := by
  constructor
  · exact located.aside rfl (located.placed.enter none method.closure
      (fun _ _ found => Bindings.eq_of_find?_single found ▸ given) rfl)
  · have entered := @Placed.enter ledger method.closure.scopes
      (FunctionDecl.uses · method.declaration) placed none (by simp)
    rw [← located.placed.size] at entered
    exact entered

theorem Located.yields (located : Located ledger state stack) {config : Config}
    (yields : Yields (Function.Placed ledger) (Function.PlacedMethod ledger) stack state config) :
    config.PlacedFrom ledger := by
  cases yields with
  | failed fault => exact located.failed fault
  | done held => exact located.done held
  | bound placed given =>
    obtain ⟨there, function⟩ := located.bindMethod placed given
    exact Config.PlacedFrom.aside located rfl ⟨there, there.nothing, function⟩

/-! ### Calls -/

/-- The body of a function is what its scope is opened for. -/
theorem Located.enterFunction (located : Located ledger state stack) {function : Function}
    (placed : function.Placed ledger) {arguments : List Value}
    (given : ∀ value ∈ arguments, value.Placed ledger)
    (arity : arguments.length = function.arity) (line : Nat) :
    ∃ entry, (enterFunction function arguments line stack state).Placed (ledger ++ [entry]) ∧
      (enterFunction function arguments line stack state).Opened (ledger ++ [entry]) := by
  obtain ⟨identity, ⟨name, params, body⟩, closure, isInitializer⟩ := function
  have entered := @Placed.enter ledger closure.scopes (stmtUses · body) placed (some body)
    (fun other same => by cases same; exact fun _ member => member)
  rw [← located.placed.size] at entered
  have after : (state.enter closure (parameterBindings params arguments)).Placed
      (ledger ++ [some body]) :=
    located.placed.enter (some body) closure
      (fun _ _ found => given _ (parameterBindings_given found)) rfl
  have waits := located.waits.grow [some body]
  refine ⟨some body, ⟨⟨after, entered.inside, entered, trivial, ?_, waits⟩, ?_, trivial⟩, ?_, ?_⟩
  · exact located.nothing.grow [some body]
  · exact entered.sub fun _ => by simp [Control.uses, Config.done, Machine.enterFunction]
  · intro other rest same
    cases same
    have size := located.placed.size
    simp [Machine.enterFunction, Config.done, State.enter, Store.enter, Environment.within, size]
  · intro other caller function line' rest same param member
    cases same
    have bound := (Store.binds_enter state.store closure (parameterBindings params arguments)
      state.store.scopes.size param.lexeme).trans (if_pos rfl)
    refine bound.trans ?_
    rw [← contains_parameterBindings arity, find?_paramScope,
      if_pos (List.mem_map_of_mem member)]

theorem Located.callNative (located : Located ledger state stack) {native : Native}
    {arguments : List Value} (arity : arguments.length = native.arity)
    (answers : ∀ value, state.Answers (.native native) arguments value → value.Placed ledger)
    (line : Nat) : (callNative native arguments line stack state).PlacedFrom ledger := by
  have after : Located ledger (state.callHost native arguments).2 stack :=
    ⟨⟨located.placed.size, located.placed.holds⟩, located.inside, located.waits⟩
  exact after.yields (yields_callNative arity answers line)

theorem Located.construct (located : Located ledger state stack) {c : Class}
    (holds : c.Holds (Function.PlacedMethod ledger)) {arguments : List Value}
    (given : ∀ value ∈ arguments, value.Placed ledger) (arity : arguments.length = c.arity)
    (line : Nat) : (construct c arguments line stack state).PlacedFrom ledger := by
  have made : Located ledger (state.instantiate c).2 stack :=
    located.withStore rfl (located.placed.holds.instantiate c)
  have object : (Value.object (state.instantiate c).1).Placed ledger := holds
  unfold Machine.construct
  dsimp only
  cases initializer : c.initializer? with
  | none => exact made.done object
  | some method =>
    have placed : method.PlacedMethod ledger := holds.findMethod? initializer
    obtain ⟨there, function⟩ := made.bindMethod placed object
    have waiting : Located (ledger ++ [none])
        ((state.instantiate c).2.bindMethod method (state.instantiate c).1).2
        (.constructing (state.instantiate c).1 :: stack) :=
      ⟨there.placed, there.inside, there.nothing, object.grow [none], there.waits⟩
    have values : ∀ value ∈ arguments, value.Placed (ledger ++ [none]) :=
      fun value member => (given value member).grow [none]
    have same : arguments.length = method.arity := by
      rw [arity, Class.arity, initializer]
      rfl
    obtain ⟨entry, entered, opened⟩ := waiting.enterFunction function values same line
    refine ⟨[none, entry], ?_, ?_⟩
    · simpa using entered
    · intro _
      simpa using opened

theorem Located.apply (located : Located ledger state stack) {callee : Value}
    (placed : callee.Placed ledger) {arguments : List Value}
    (given : ∀ value ∈ arguments, value.Placed ledger)
    (answers : ∀ value, state.Answers callee arguments value → value.Placed ledger)
    (arity : callee.arity? = some arguments.length) (line : Nat) :
    (apply callee arguments line stack state).PlacedFrom ledger := by
  cases callee with
  | function function =>
    have same := (Option.some.inj arity).symm
    obtain ⟨entry, entered, opened⟩ := located.enterFunction placed given same line
    exact ⟨[entry], entered, fun _ => opened⟩
  | native native => exact located.callNative (Option.some.inj arity).symm answers line
  | klass c => exact located.construct placed given (Option.some.inj arity).symm line
  | nil | bool _ | number _ | string _ | object _ => cases arity

theorem Located.call (located : Located ledger state stack) {callee : Value}
    (placed : callee.Placed ledger) (paren : Token) {arguments : List Value}
    (given : ∀ value ∈ arguments, value.Placed ledger)
    (answers : ∀ value, state.Answers callee arguments value → value.Placed ledger) :
    (call callee paren arguments stack state).PlacedFrom ledger := by
  unfold Machine.call
  cases arity : callee.arity? with
  | none => exact located.failed _
  | some count =>
    dsimp only
    split
    · rename_i same
      exact located.apply placed given answers (by rw [arity, same]) paren.line
    · exact located.failed _

theorem Located.nextArgument (located : Located ledger state stack) {callee : Value}
    (placed : callee.Placed ledger) (paren : Token) {evaluated : List Value}
    (given : ∀ value ∈ evaluated, value.Placed ledger) {pending : List Expr}
    (uses : Placed ledger state.current.scopes (exprUses · pending))
    (answers : pending = [] → ∀ value, state.Answers callee evaluated.reverse value →
      value.Placed ledger) :
    (nextArgument callee paren evaluated stack state pending).PlacedFrom ledger := by
  cases pending with
  | nil =>
    refine located.call placed paren ?_ (answers rfl)
    intro value member
    exact given value (List.mem_reverse.mp member)
  | cons first rest =>
    have waiting : Located ledger state (.argument callee paren evaluated rest :: stack) :=
      ⟨located.placed, located.inside, uses.sub fun _ => List.subset_append_right _ _,
        ⟨placed, given⟩, located.waits⟩
    exact waiting.eval (uses.sub fun _ => List.subset_append_left _ _)

/-! ### Names -/

theorem Located.writeName (located : Located ledger state stack) (target : Reference)
    (held : value.Placed ledger) : (writeName target value stack state).PlacedFrom ledger := by
  unfold Machine.writeName
  cases found : state.slot? target with
  | none => exact located.failed _
  | some scope => exact (located.write held scope _).done held

/-! ### Declarations -/

theorem Located.declareFunction (located : Located ledger state stack)
    {declaration : FunctionDecl}
    (uses : Placed ledger state.current.scopes (FunctionDecl.uses · declaration)) :
    (declareFunction declaration stack state).PlacedFrom ledger := by
  have closed : Located ledger (state.close declaration false).2 stack :=
    ⟨⟨located.placed.size, located.placed.holds⟩, located.inside,
      located.waits⟩
  have function : (Value.function (state.close declaration false).1).Placed ledger := uses
  exact (closed.define function _).done trivial

theorem Placed.method {addresses : List Nat} {depth : Nat} {methods : List FunctionDecl}
    (uses : Lox.Placed ledger addresses fun further => methodUses (further + depth) methods) :
    ∀ declaration ∈ methods,
      Lox.Placed ledger addresses fun further => declaration.uses (further + depth) :=
  fun _ member => uses.sub fun further => (methodUses_mem (further + depth) member).subset

/-- The scope around the methods of a subclass holds no statements. -/
theorem Located.enterSuper (located : Located ledger state stack)
    (superclass : Option Reference) {above : Option Class}
    (present : above.isSome = superclass.isSome)
    (holds : ∀ c, above = some c → c.Holds (Function.PlacedMethod ledger))
    {methods : List FunctionDecl}
    (uses : Placed ledger state.current.scopes fun depth =>
      methodUses (depth + classDepth superclass) methods) (born : Nat) :
    ∃ more, Located (ledger ++ more)
        { state.enterSuper above with current := state.current, born } stack ∧
      (∀ after : State, Located (ledger ++ more) after stack → after.current = state.current →
        (Config.done .nil stack after).PlacedFrom ledger) ∧
      Placed (ledger ++ more) (state.enterSuper above).current.scopes fun depth =>
        methodUses (depth + 1) methods := by
  cases above with
  | none =>
    cases superclass with
    | some _ => cases present
    | none =>
      refine ⟨[], ?_, ?_, ?_⟩
      · rw [List.append_nil]
        exact ⟨⟨located.placed.size, located.placed.holds⟩, located.inside,
          located.waits⟩
      · intro after there _
        rw [List.append_nil] at there
        exact there.done trivial
      · rw [List.append_nil]
        exact uses
  | some c =>
    cases superclass with
    | none => cases present
    | some _ =>
      have given : (Value.klass c).Placed ledger := holds c rfl
      refine ⟨[none], ?_, ?_, ?_⟩
      · exact located.aside rfl (located.placed.enter none state.current
          (fun _ _ found => Bindings.eq_of_find?_single found ▸ given) rfl)
      · intro after there current
        exact Config.PlacedFrom.aside located current ⟨there, there.nothing, trivial⟩
      · have entered := @Placed.enter ledger state.current.scopes
          (fun depth => methodUses (depth + 1) methods) uses none (by simp)
        rw [← located.placed.size] at entered
        exact entered

theorem Located.declareClass (located : Located ledger state stack) (name : Token)
    (superclass : Option Reference) {above : Option Class}
    (present : above.isSome = superclass.isSome)
    (holds : ∀ c, above = some c → c.Holds (Function.PlacedMethod ledger))
    {methods : List FunctionDecl}
    (uses : Placed ledger state.current.scopes fun depth =>
      methodUses (depth + classDepth superclass) methods) :
    (Config.done .nil stack (state.declareClass name above methods)).PlacedFrom ledger := by
  obtain ⟨born, own, declares, whole⟩ := state.declareClass_eq name above methods
  obtain ⟨more, there, done', around⟩ := located.enterSuper superclass present holds uses born
  let value : Value := .klass ⟨own, (above.map Class.layers).getD []⟩
  have placed : value.Placed (ledger ++ more) :=
    declared_holds declares (fun _ declaration member => Placed.method around declaration member)
      fun c same => Class.grow (holds c same) more
  rw [whole]
  exact done' _ (there.define placed name.lexeme) rfl

/-! ### Steps -/

theorem Located.step_eval (located : Located ledger state stack) {e : Expr}
    (uses : Placed ledger state.current.scopes (Expr.uses · e)) :
    (Machine.eval e stack state).PlacedFrom ledger := by
  have nothing := located.nothing
  obtain ⟨placed, inside, waits⟩ := located
  cases e with
  | literal literal =>
    exact Located.done ⟨placed, inside, waits⟩ (Value.holds_ofLiteral literal)
  | unary operator operand | get operand name =>
    exact .still ⟨⟨placed, inside, nothing, trivial, waits⟩, uses, trivial⟩
  | binary first operator second | logical first operator second | call first paren second
  | set first name second | assign target first =>
    exact .still ⟨⟨placed, inside, uses.right, trivial, waits⟩, uses.left, trivial⟩
  | grouping inner => exact .still ⟨⟨placed, inside, waits⟩, uses, trivial⟩
  | «variable» reference | this reference =>
    exact Located.yields ⟨placed, inside, waits⟩ (yields_readName placed.holds reference)
  | super reference method =>
    exact Located.yields ⟨placed, inside, waits⟩ (yields_superMethod placed.holds reference method)

theorem Located.step_exec (located : Located ledger state stack) {s : Stmt}
    (uses : Placed ledger state.current.scopes (Stmt.uses · s)) :
    (Machine.exec s stack state).PlacedFrom ledger := by
  have nothing := located.nothing
  cases s with
  | expression e => exact .still ⟨located, uses, trivial⟩
  | print e =>
    exact .still ⟨⟨located.placed, located.inside, nothing, trivial, located.waits⟩, uses, trivial⟩
  | var name initializer =>
    cases initializer with
    | none =>
      have nil : Value.nil.Placed ledger := trivial
      exact (located.define nil name.lexeme).done trivial
    | some initializer =>
      exact .still
        ⟨⟨located.placed, located.inside, nothing, trivial, located.waits⟩, uses, trivial⟩
  | block body =>
    have entered := @Placed.enter ledger state.current.scopes (stmtUses · body) uses (some body)
      (fun other same => by cases same; exact fun _ member => member)
    rw [← located.placed.size] at entered
    have after : (state.enter state.current .empty).Placed (ledger ++ [some body]) :=
      located.placed.enter (some body) state.current (by simp) rfl
    refine ⟨[some body], ⟨⟨after, entered.inside, entered, trivial, nothing.grow _,
      located.waits.grow _⟩, entered.sub fun _ => List.nil_subset _, trivial⟩, ?_⟩
    intro _
    refine ⟨?_, ?_⟩
    · intro other rest same
      cases same
      have size := located.placed.size
      simp [Machine.exec, Config.done, State.enter, Store.enter, Environment.within, size]
    · intro other caller function line rest same
      cases same
  | conditional condition thenBranch elseBranch =>
    have condition' : Placed ledger state.current.scopes (Expr.uses · condition) :=
      uses.sub fun _ => by simp [Stmt.uses]
    have branches : Placed ledger state.current.scopes fun depth =>
        thenBranch.uses depth ++ branchUses depth elseBranch :=
      uses.sub fun _ => by simp [Stmt.uses]
    exact .still
      ⟨⟨located.placed, located.inside, branches, trivial, located.waits⟩, condition', trivial⟩
  | loop condition body =>
    exact .still
      ⟨⟨located.placed, located.inside, uses, trivial, located.waits⟩, uses.left, trivial⟩
  | function declaration => exact located.declareFunction uses
  | ret keyword value =>
    cases value with
    | none => exact .still ⟨located, nothing, trivial⟩
    | some value =>
      exact .still
        ⟨⟨located.placed, located.inside, nothing, trivial, located.waits⟩, uses, trivial⟩
  | classDecl name superclass methods =>
    have methods' : Placed ledger state.current.scopes fun depth =>
        methodUses (depth + classDepth superclass) methods := uses.right
    unfold Machine.exec Machine.declareClass
    dsimp only
    cases superclass with
    | none => exact located.declareClass name none rfl (by simp) methods'
    | some reference =>
      dsimp only
      split
      · exact located.failed _
      · rename_i above found
        refine located.declareClass name (some reference) rfl ?_ methods'
        intro c same
        cases same
        exact lookup?_holds located.placed.holds found
      · exact located.failed _

theorem Located.resume {frame : Frame} (located : Located ledger state (frame :: stack))
    (held : value.Placed ledger)
    (answers : ∀ answer, Config.Answers ⟨.signal (.done value), frame :: stack, state⟩ answer →
      answer.Placed ledger) : (resume value stack state frame).PlacedFrom ledger := by
  have nothing := located.nothing
  obtain ⟨placed, inside, waits⟩ := located
  cases frame with
  | unary operator =>
    exact Located.yields ⟨placed, inside, waits.2.2⟩ (yields_applyUnary operator value)
  | left operator operand =>
    obtain ⟨uses, _, waits⟩ := waits
    exact .still ⟨⟨placed, inside, nothing, held, waits⟩, uses, trivial⟩
  | right first operator =>
    exact Located.yields ⟨placed, inside, waits.2.2⟩ (yields_applyBinary operator first value)
  | logical operator operand =>
    obtain ⟨uses, _, waits⟩ := waits
    simp only [Machine.resume]
    split
    · exact Located.done ⟨placed, inside, waits⟩ held
    · exact .still ⟨⟨placed, inside, waits⟩, uses, trivial⟩
  | assign target => exact Located.writeName ⟨placed, inside, waits.2.2⟩ target held
  | callee paren arguments =>
    refine Located.nextArgument ⟨placed, inside, waits.2.2⟩ held paren (by simp) waits.1 ?_
    rintro rfl answer answered
    exact answers answer ⟨_, _, _, _, .plain, answered⟩
  | argument called paren evaluated pending =>
    obtain ⟨uses, ⟨callee, values⟩, waits⟩ := waits
    refine Located.nextArgument ⟨placed, inside, waits⟩ callee paren
      (List.forall_mem_cons.mpr ⟨held, values⟩) uses ?_
    rintro rfl answer answered
    exact answers answer ⟨_, _, _, _, .given, answered⟩
  | property name =>
    exact Located.yields ⟨placed, inside, waits.2.2⟩ (yields_getProperty placed.holds held name)
  | target name expr =>
    obtain ⟨uses, _, waits⟩ := waits
    simp only [Machine.resume]
    split
    · exact .still ⟨⟨placed, inside, nothing, held, waits⟩, uses, trivial⟩
    · exact Located.failed ⟨placed, inside, waits⟩ _
  | field object name =>
    have located : Located ledger state stack := ⟨placed, inside, waits.2.2⟩
    have after : Located ledger (state.setField object name.lexeme value) stack :=
      located.withStore rfl (placed.holds.setField held object name.lexeme)
    exact after.done held
  | print =>
    have nil : Value.nil.Placed ledger := trivial
    exact Located.done ⟨⟨placed.size, placed.holds⟩, inside, waits.2.2⟩ nil
  | define name =>
    have located : Located ledger state stack := ⟨placed, inside, waits.2.2⟩
    exact (located.define held name.lexeme).done trivial
  | branch thenBranch elseBranch =>
    obtain ⟨uses, _, waits⟩ := waits
    simp only [Machine.resume]
    split
    · exact .still ⟨⟨placed, inside, waits⟩, uses.left, trivial⟩
    · cases elseBranch with
      | none => exact Located.done ⟨placed, inside, waits⟩ trivial
      | some elseBranch => exact .still ⟨⟨placed, inside, waits⟩, uses.right, trivial⟩
  | test condition body =>
    obtain ⟨uses, _, waits⟩ := waits
    simp only [Machine.resume]
    split
    · exact .still ⟨⟨placed, inside, uses, trivial, waits⟩, uses.right, trivial⟩
    · exact Located.done ⟨placed, inside, waits⟩ trivial
  | again condition body =>
    obtain ⟨uses, _, waits⟩ := waits
    exact .still ⟨⟨placed, inside, uses, trivial, waits⟩, uses.left, trivial⟩
  | returning => exact .still ⟨⟨placed, inside, waits.2.2⟩, nothing, held⟩
  | sequence rest =>
    obtain ⟨uses, _, waits⟩ := waits
    cases rest with
    | nil => exact Located.done ⟨placed, inside, waits⟩ trivial
    | cons next rest =>
      exact .still ⟨⟨placed, inside, uses.right, trivial, waits⟩, uses.left, trivial⟩
  | restore previous =>
    obtain ⟨there, waits⟩ := waits
    exact Located.done ⟨⟨placed.size, placed.holds⟩, there.inside, waits⟩ trivial
  | activation caller function line =>
    obtain ⟨there, waits⟩ := waits
    have outside : Located ledger (state.withCurrent caller) stack :=
      ⟨⟨placed.size, placed.holds⟩, there.inside, waits⟩
    exact outside.yields (yields_finishCall outside.placed.holds function line .nil trivial)
  | constructing made => exact Located.done ⟨placed, inside, waits.2.2⟩ waits.2.1
  | program rest =>
    obtain ⟨uses, _, waits⟩ := waits
    cases rest with
    | nil => exact Located.done ⟨placed, inside, waits⟩ trivial
    | cons next rest =>
      exact .still ⟨⟨placed, inside, uses.right, trivial, waits⟩, uses.left, trivial⟩

theorem Located.leave {frame : Frame} (located : Located ledger state (frame :: stack)) :
    Located ledger (leave state frame) stack := by
  obtain ⟨placed, inside, waits⟩ := located
  cases frame with
  | restore previous | activation previous function line =>
    exact ⟨⟨placed.size, placed.holds⟩, waits.1.inside, waits.2⟩
  | _ => exact ⟨placed, inside, waits.2.2⟩

theorem Located.unwind {frame : Frame} (located : Located ledger state (frame :: stack))
    (held : value.Placed ledger) : (unwind value stack state frame).PlacedFrom ledger := by
  have left := located.leave
  cases frame with
  | activation caller function line =>
    exact left.yields (yields_finishCall left.placed.holds function line value held)
  | program rest => exact located.resume held fun _ answers => absurd answers not_answers_program
  | _ => exact .still ⟨left, left.nothing, held⟩

theorem Config.Placed.step {config : Config} (placed : config.Placed ledger)
    (answers : ∀ answer, config.Answers answer → answer.Placed ledger) :
    (step config).PlacedFrom ledger := by
  obtain ⟨control, stack, state⟩ := config
  obtain ⟨located, uses, held⟩ := placed
  cases control with
  | eval e => exact located.step_eval uses
  | exec s => exact located.step_exec uses
  | signal signal =>
    cases stack with
    | nil => exact .still ⟨located, uses, held⟩
    | cons frame stack =>
      cases signal with
      | done value => exact located.resume held answers
      | returned value => exact located.unwind held
      | failed fault => exact located.leave.failed fault

end Operations

end Machine
end Lox
