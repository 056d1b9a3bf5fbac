import Mathlib
import Lox.Proofs.Alike
import Lox.Proofs.Floors
import Lox.Proofs.Permanent
import Lox.Proofs.Transitions

/-! Calls. The callee and the arguments come first, from left to right; then the number of arguments
is checked, and only a call that takes as many opens a scope, with one of them for each parameter. -/

namespace Lox

open Machine Resolution

/-! ### Parameters -/

namespace Bindings

variable {α : Type}

theorem put_fresh {name : String} {value : α} {entries : List (String × α)}
    (fresh : name ∉ entries.map Prod.fst) : put name value entries = entries ++ [(name, value)] := by
  induction entries with
  | nil => rfl
  | cons entry rest ih =>
    obtain ⟨key, old⟩ := entry
    obtain ⟨apart, later⟩ := not_or.mp (mt List.mem_cons.mpr fresh)
    rw [put, if_neg apart, ih later, List.cons_append]

/-- Names that are apart are bound in the order in which they stand. -/
theorem ofList_distinct {pairs : List (String × α)} (distinct : (pairs.map Prod.fst).Nodup) :
    ofList pairs = ⟨pairs⟩ := by
  have general : ∀ before : List (String × α), ((before ++ pairs).map Prod.fst).Nodup →
      pairs.foldl (fun (bindings : Bindings α) pair => bindings.insert pair.1 pair.2) ⟨before⟩ =
        ⟨before ++ pairs⟩ := by
    clear distinct
    induction pairs with
    | nil => simp
    | cons pair rest ih =>
      intro before distinct
      have fresh : pair.1 ∉ before.map Prod.fst := by
        rw [List.map_append, List.nodup_append] at distinct
        intro member
        exact distinct.2.2 _ member _ (by simp) rfl
      rw [List.foldl_cons, insert, put_fresh fresh, ih (before ++ [(pair.1, pair.2)])]
      · rw [List.append_assoc, List.singleton_append]
      · rwa [List.append_assoc, List.singleton_append]
  exact general [] distinct

theorem find?_of_distinct {pairs : List (String × α)} (distinct : (pairs.map Prod.fst).Nodup)
    (name : String) (value : α) :
    (⟨pairs⟩ : Bindings α).find? name = some value ↔ (name, value) ∈ pairs := by
  induction pairs with
  | nil => simp [find?]
  | cons pair rest ih =>
    obtain ⟨key, old⟩ := pair
    obtain ⟨fresh, later⟩ := List.nodup_cons.mp distinct
    have onwards := ih later
    simp only [find?] at onwards
    rw [find?, lookup_cons, List.mem_cons, Prod.mk.injEq]
    by_cases here : name = key
    · subst here
      have absent : (name, value) ∉ rest := by
        intro member
        have bound := List.mem_map_of_mem (f := Prod.fst) member
        exact fresh bound
      simp [absent, eq_comm]
    · simp [here, onwards]

end Bindings

/-- What a call binds: each parameter, to the argument in its place. -/
theorem Machine.find?_parameterBindings {params : List Token} {arguments : List Value}
    (distinct : (params.map Token.lexeme).Nodup) (arity : arguments.length = params.length) :
    (parameterBindings params arguments).names = params.map Token.lexeme ∧
      ∀ name value, (parameterBindings params arguments).find? name = some value ↔
        ∃ (index : Nat) (param : Token), params[index]? = some param ∧ param.lexeme = name ∧
          arguments[index]? = some value := by
  have first : ((params.map Token.lexeme).zip arguments).map Prod.fst = params.map Token.lexeme :=
    List.map_fst_zip (by simp [arity])
  have apart : (((params.map Token.lexeme).zip arguments).map Prod.fst).Nodup := by rwa [first]
  have whole : parameterBindings params arguments = ⟨(params.map Token.lexeme).zip arguments⟩ :=
    Bindings.ofList_distinct apart
  rw [whole]
  refine ⟨first, ?_⟩
  intro name value
  rw [Bindings.find?_of_distinct apart, List.mem_iff_getElem?]
  simp only [List.getElem?_zip_eq_some, List.getElem?_map, Option.map_eq_some_iff]
  constructor
  · intro ⟨index, ⟨param, there, same⟩, given⟩
    exact ⟨index, param, there, same, given⟩
  · intro ⟨index, param, there, same, given⟩
    exact ⟨index, ⟨param, there, same⟩, given⟩

theorem FunctionDecl.Resolved.distinct {records : Records} {scopes : List (Bindings Bool)}
    {declaration : FunctionDecl} (resolved : declaration.Resolved records scopes) :
    (declaration.params.map Token.lexeme).Nodup := by
  obtain ⟨name, params, body⟩ := declaration
  exact resolved.1

namespace Machine

variable {config : Config} {callee value : Value} {arguments evaluated : List Value} {line : Nat}
  {paren : Token} {stack : List Frame} {state middle after : State} {pending : List Expr}

/-! ### From left to right -/

/-- What an expression gives on its own, and the state it leaves. -/
def Evaluates (e : Expr) (state : State) (value : Value) (after : State) : Prop :=
  ∃ steps, run steps (evaluating e state) = some (.done value, after)

/-- Each expression is evaluated in the state that the one before it left. -/
inductive EvaluatesAll : List Expr → State → List Value → State → Prop
  | nil {state : State} : EvaluatesAll [] state [] state
  | cons {first : Expr} {rest : List Expr} {state middle after : State} {value : Value}
      {values : List Value} : Evaluates first state value middle →
      EvaluatesAll rest middle values after →
      EvaluatesAll (first :: rest) state (value :: values) after

theorem advance_add (first second : Nat) (config : Config) :
    advance (first + second) config = advance second (advance first config) := by
  induction first generalizing config with
  | zero => rw [Nat.zero_add, advance]
  | succ first ih =>
    rw [Nat.succ_add, advance, advance]
    cases ended : config.finished? with
    | none => exact ih (step config)
    | some ending =>
      cases second with
      | zero => rfl
      | succ second => simp only [advance, ended]

/-- An expression that gives a value gives it to the frame that waits for it. -/
theorem Evaluates.under {e : Expr} (evaluates : Evaluates e state value after) (frame : Frame)
    (stack : List Frame) : ∃ count, advance count ⟨.eval e, frame :: stack, state⟩ =
      .done value (frame :: stack) after := by
  obtain ⟨steps, ran⟩ := evaluates
  exact reaches_floor ran (frame :: stack)

theorem gathers_rest {values : List Value} (evaluates : EvaluatesAll pending middle values after) :
    ∃ count, (advance count ⟨.signal (.done value), .argument callee paren evaluated pending :: stack,
        middle⟩).Gathers callee paren ((value :: evaluated).reverse ++ values) stack ∧
      (advance count ⟨.signal (.done value), .argument callee paren evaluated pending :: stack,
        middle⟩).state = after := by
  induction evaluates generalizing value evaluated with
  | nil =>
    refine ⟨0, ?_, rfl⟩
    rw [List.append_nil]
    exact .given
  | @cons first rest state middle after next values evaluates _ ih =>
    obtain ⟨count, came⟩ :=
      evaluates.under (.argument callee paren (value :: evaluated) rest) stack
    obtain ⟨more, gathers, same⟩ := @ih next (value :: evaluated)
    have shape : (next :: value :: evaluated).reverse ++ values =
        (value :: evaluated).reverse ++ next :: values := by simp
    have whole : advance (1 + (count + more))
        ⟨.signal (.done value), .argument callee paren evaluated (first :: rest) :: stack, state⟩ =
          advance more (.done next
            (.argument callee paren (value :: evaluated) rest :: stack) middle) := by
      rw [advance_add, advance_add, ← came]
      rfl
    refine ⟨1 + (count + more), ?_, ?_⟩
    · rw [whole, ← shape]
      exact gathers
    · rw [whole]
      exact same

/-- A call comes to where its callee and its arguments have been evaluated in order, and to nothing
else before. -/
theorem gathers_call {function : Expr} {values : List Value}
    (first : Evaluates function state callee middle)
    (rest : EvaluatesAll pending middle values after) :
    ∃ count, (advance count ⟨.eval (.call function paren pending), stack, state⟩).Gathers callee
        paren values stack ∧
      (advance count ⟨.eval (.call function paren pending), stack, state⟩).state = after := by
  obtain ⟨count, came⟩ := first.under (.callee paren pending) stack
  have begun : advance (1 + count) ⟨.eval (.call function paren pending), stack, state⟩ =
      .done callee (.callee paren pending :: stack) middle := by
    rw [advance_add, ← came]
    rfl
  cases rest with
  | nil =>
    refine ⟨1 + count, ?_, ?_⟩
    · rw [begun]
      exact .plain
    · rw [begun]
      rfl
  | @cons e pending _ next _ value values evaluates later =>
    obtain ⟨more, there⟩ := evaluates.under (.argument callee paren [] pending) stack
    obtain ⟨last, gathers, same⟩ := @gathers_rest callee value [] paren stack _ _ pending values later
    have whole : advance (1 + count + (1 + (more + last)))
        ⟨.eval (.call function paren (e :: pending)), stack, state⟩ =
          advance last (.done value (.argument callee paren [] pending :: stack) next) := by
      rw [advance_add, begun, advance_add, advance_add, ← there]
      rfl
    refine ⟨1 + count + (1 + (more + last)), ?_, ?_⟩
    · rw [whole]
      exact gathers
    · rw [whole]
      exact same

/-! ### The check -/

theorem Config.Gathers.below (gathers : config.Gathers callee paren arguments stack) :
    config.below = stack := by
  cases gathers <;> rfl

theorem Config.Gathers.calls (gathers : config.Gathers callee paren arguments stack)
    (arity : callee.arity? = some arguments.length) :
    config.Calls callee arguments paren.line stack := by
  cases gathers with
  | plain => exact .plain arity
  | given => exact .given (by simpa using arity)

theorem Config.Gathers.refuses_uncallable (gathers : config.Gathers callee paren arguments stack)
    (uncallable : callee.arity? = none) :
    Machine.step config = .failed (.notCallable paren.line) stack config.state := by
  rw [gathers.step, call, uncallable]

theorem Config.Gathers.refuses_number (gathers : config.Gathers callee paren arguments stack)
    {arity : Nat} (takes : callee.arity? = some arity) (other : arguments.length ≠ arity) :
    Machine.step config =
      .failed (.arityMismatch arity arguments.length paren.line) stack config.state := by
  rw [gathers.step, call, takes]
  exact if_neg other

/-! ### The scope of a body -/

/-- A function the next step enters: the callee itself, or the initializer, own or inherited, of the
instance that a class makes. -/
inductive Config.Enters (config : Config) : Value → Function → Prop
  | function {f : Function} : config.Enters (.function f) f
  | initializer {c : Class} {method : Function} : c.initializer? = some method →
      config.Enters (.klass c)
        ((config.state.instantiate c).2.bindMethod method (config.state.instantiate c).1).1

/-- The body of a function comes next, in a scope that was not there before and binds the parameters
to the arguments, one to one. -/
structure Config.Begins (config : Config) (f : Function) (arguments : List Value)
    (before : State) : Prop where
  control : config.control = .signal (.done .nil)
  stack : ∃ caller line below,
    config.stack = .sequence f.declaration.body :: .activation caller f line :: below
  fresh : before.store.scopes.size ≤ config.state.current.scope
  around : config.state.current.outer = f.closure.scopes
  distinct : (f.declaration.params.map Token.lexeme).Nodup
  count : arguments.length = f.declaration.params.length
  names : config.state.store.names config.state.current = f.declaration.params.map Token.lexeme
  binds : ∀ name value,
    config.state.store.lookup? config.state.current.scope name = some value ↔
      ∃ (index : Nat) (param : Token), f.declaration.params[index]? = some param ∧
        param.lexeme = name ∧ arguments[index]? = some value

theorem begins_enterFunction {f : Function} {before : State}
    (distinct : (f.declaration.params.map Token.lexeme).Nodup)
    (arity : arguments.length = f.arity) (older : before.store.scopes.size ≤ state.store.scopes.size) :
    (enterFunction f arguments line stack state).Begins f arguments before := by
  obtain ⟨names, binds⟩ := find?_parameterBindings distinct arity
  refine ⟨rfl, ⟨_, _, _, rfl⟩, older, rfl, distinct, arity, ?_, ?_⟩
  · simpa [enterFunction, Config.done, State.enter, Store.enter, Store.names, Environment.within]
      using names
  · intro name value
    rw [← binds]
    simp [enterFunction, Config.done, State.enter, Store.enter, Store.lookup?, Environment.within]

theorem Config.Calls.fits {records : Records} (calls : config.Calls callee arguments line stack)
    (fits : config.Fits records) :
    callee.Fits records config.state.store ∧ callee.arity? = some arguments.length := by
  obtain ⟨_, held⟩ := fits
  cases calls with
  | plain arity => exact ⟨held.1, arity⟩
  | given arity =>
    obtain ⟨_, scopes, _, ⟨called, _, _⟩, _⟩ := held
    exact ⟨called, by simpa using arity⟩

/-- The parameters of an accepted function are apart, and a call takes one argument for each. -/
theorem Config.Calls.begins {records : Records} {f : Function}
    (calls : config.Calls callee arguments line stack) (fits : config.Fits records)
    (enters : config.Enters callee f) : (Machine.step config).Begins f arguments config.state := by
  obtain ⟨held, arity⟩ := calls.fits fits
  rw [calls.step]
  cases enters with
  | function =>
    obtain ⟨scopes, _, resolved⟩ := held
    exact begins_enterFunction resolved.distinct (Option.some.inj arity).symm (Nat.le_refl _)
  | @initializer c method initializer =>
    obtain ⟨scopes, _, resolved⟩ := Class.Holds.findMethod? held initializer
    have takes : method.arity = arguments.length := by
      rw [Value.arity?, Class.arity, initializer] at arity
      exact Option.some.inj arity
    rw [apply, construct]
    simp only [initializer]
    refine begins_enterFunction resolved.distinct takes.symm ?_
    exact (config.state.store.keeps_enter method.closure _).size

/-! ### Where bodies begin -/

def Frame.isActivation : Frame → Bool
  | .activation .. => true
  | _ => false

/-- How many calls there are one inside the other. -/
def depth (stack : List Frame) : Nat := stack.countP Frame.isActivation

theorem depth_below (config : Config) : depth config.below ≤ depth config.stack := by
  obtain ⟨control, stack, state⟩ := config
  cases control with
  | eval _ | exec _ => exact Nat.le_refl _
  | signal _ =>
    cases stack with
    | nil => exact Nat.le_refl _
    | cons frame stack =>
      rw [Config.below, depth, depth, List.countP_cons]
      exact Nat.le_add_right _ _

theorem depth_inner {frame : Frame} (inner : frame.Inner) (stack : List Frame) :
    depth (frame :: stack) = depth stack := by
  cases frame with
  | restore _ | activation _ _ _ => exact inner.elim
  | _ => rfl

/-- Only a call makes calls deeper. -/
theorem Transition.deeper {next : Config} (transition : Transition config next)
    (deeper : depth config.stack < depth next.stack) :
    ∃ callee paren arguments stack, config.Gathers callee paren arguments stack := by
  have level := Nat.lt_of_le_of_lt (depth_below config) deeper
  cases transition with
  | calls gathers => exact ⟨_, _, _, _, gathers⟩
  | under _ inner =>
    rw [depth_inner inner] at level
    exact absurd level (Nat.lt_irrefl _)
  | _ => exact absurd level (Nat.lt_irrefl _)

/-- A call that makes calls deeper is accepted, and enters a function. -/
theorem Config.Gathers.enters (gathers : config.Gathers callee paren arguments stack)
    (deeper : depth stack < depth (Machine.step config).stack) :
    ∃ f, config.Calls callee arguments paren.line stack ∧ config.Enters callee f := by
  cases takes : callee.arity? with
  | none =>
    rw [gathers.refuses_uncallable takes] at deeper
    exact absurd deeper (Nat.lt_irrefl _)
  | some arity =>
    by_cases same : arguments.length = arity
    · have calls := gathers.calls (same ▸ takes)
      rw [calls.step] at deeper
      cases callee with
      | function f => exact ⟨f, calls, .function⟩
      | native native =>
        rw [apply, callNative, Config.stack_ofExcept] at deeper
        exact absurd deeper (Nat.lt_irrefl _)
      | klass c =>
        cases initializer : c.initializer? with
        | some method => exact ⟨_, calls, .initializer initializer⟩
        | none =>
          simp only [apply, construct, initializer] at deeper
          exact absurd deeper (Nat.lt_irrefl _)
      | nil | bool _ | number _ | string _ | object _ => cases takes
    · rw [gathers.refuses_number takes same] at deeper
      exact absurd deeper (Nat.lt_irrefl _)

/-- Only a call opens a body. -/
theorem enters_of_deeper (deeper : depth config.stack < depth (step config).stack) :
    ∃ callee arguments line stack f,
      config.Calls callee arguments line stack ∧ config.Enters callee f := by
  obtain ⟨callee, paren, arguments, stack, gathers⟩ := (transition_step config).deeper deeper
  have below := gathers.below ▸ depth_below config
  obtain ⟨f, calls, enters⟩ := gathers.enters (Nat.lt_of_le_of_lt below deeper)
  exact ⟨callee, arguments, paren.line, stack, f, calls, enters⟩

/-! ### Sessions -/

/-- A call that takes another number of arguments fails with nothing done but their evaluation; every
body that is run begins with its parameters bound, each to its own argument. -/
theorem calls_bind {session : Session} (reached : Reachable Honest (.busy session config)) :
    (∀ function paren pending callee middle values after,
      config.control = .eval (.call function paren pending) →
      Evaluates function config.state callee middle → EvaluatesAll pending middle values after →
        ∃ count, (advance count config).Gathers callee paren values config.stack ∧
          (advance count config).state = after ∧
          (callee.arity? = none →
            step (advance count config) = .failed (.notCallable paren.line) config.stack after) ∧
          (∀ arity, callee.arity? = some arity → values.length ≠ arity →
            step (advance count config) =
              .failed (.arityMismatch arity values.length paren.line) config.stack after) ∧
          (callee.arity? = some values.length →
            (advance count config).Calls callee values paren.line config.stack)) ∧
    (∀ callee arguments line stack f, config.Calls callee arguments line stack →
      config.Enters callee f → (step config).Begins f arguments config.state) ∧
    (depth config.stack < depth (step config).stack → ∃ callee arguments line stack f,
      config.Calls callee arguments line stack ∧ config.Enters callee f ∧
        (step config).Begins f arguments config.state) := by
  obtain ⟨records, _, fits, _⟩ := reached.fits
  refine ⟨?_, ?_, ?_⟩
  · intro function paren pending callee middle values after control first rest
    obtain ⟨_, stack, state⟩ := config
    cases control
    obtain ⟨count, gathers, same⟩ := @gathers_call callee paren stack state _ _ pending function
      values first rest
    refine ⟨count, gathers, same, ?_, ?_, gathers.calls⟩
    · intro uncallable
      rw [gathers.refuses_uncallable uncallable, same]
    · intro arity takes other
      rw [gathers.refuses_number takes other, same]
  · intro callee arguments line stack f calls enters
    exact calls.begins fits enters
  · intro deeper
    obtain ⟨callee, arguments, line, stack, f, calls, enters⟩ := enters_of_deeper deeper
    exact ⟨callee, arguments, line, stack, f, calls, enters, calls.begins fits enters⟩

set_option maxRecDepth 2000 in
theorem calls_bind_of_one : ∃ (running : Session) (called calling : Config) (f : Function),
    Reachable Honest (.busy running called) ∧
    called.Calls (.function f) [.bool true] 1 called.stack.tail ∧
    (step called).state.store.names (step called).state.current = ["a"] ∧
    (step called).state.store.lookup? (step called).state.current.scope "a" = some (.bool true) ∧
    Reachable Honest (.busy running calling) ∧
    ∃ count, step (advance count calling) =
      .failed (.arityMismatch 1 0 1) [.program []] calling.state := by
  let first := Session.start (fun _ => 0) false
  let name : Token := ⟨.identifier, "f", 1⟩
  let paren : Token := ⟨.symbol .rightParen, ")", 1⟩
  let f : Function := ⟨0, ⟨name, [⟨.identifier, "a", 1⟩], []⟩, globals, false⟩
  let second : Stmt := .expression (.call (.variable ⟨1, name⟩) paren [])
  let program : List Stmt := [.function f.declaration,
    .expression (.call (.variable ⟨0, name⟩) paren [.literal .true]), second]
  have accepted : (first.prepare "fun f(a)\x7b\x7df(true);f();").2 = some program := by cbv
  have unrecorded : resolve program = .ok [] := rfl
  obtain ⟨running, prepared, machine⟩ := Session.prepare_accepted accepted unrecorded
  rw [State.record_nil] at machine
  let reading := advance 5 (interpreting program first.machine)
  have begun : Later Honest (.idle first) (.busy running (interpreting program first.machine)) :=
    machine ▸ .next (.refl _) (.begin prepared)
  have absent : reading.state.distance? ⟨0, name⟩ = none :=
    (Std.HashMap.getElem?_empty : (∅ : Distances)[0]? = none)
  have found : reading.state.store.get? globals "f" = some (.function f) := by cbv
  let callee : Config :=
    .done (.function f) [.callee paren [.literal .true], .program [second]] reading.state
  have read : step reading = callee :=
    step_variable rfl ((State.lookup?_global absent).trans found)
  let called := advance 2 callee
  let calling := advance 5 called
  have there : Later Honest (.idle first) (.busy running called) := by
    have before : Later Honest (.busy running reading) (.busy running callee) :=
      read ▸ .next (.refl _) (.step rfl)
    exact ((begun.trans (later_advance running 5 _)).trans before).trans (later_advance running 2 _)
  have calls : called.Calls (.function f) [.bool true] 1 [.program [second]] := .given rfl
  have control : calling.control = .eval (.call (.variable ⟨1, name⟩) paren []) := rfl
  have evaluates : Evaluates (.variable ⟨1, name⟩) calling.state (.function f) calling.state := by
    have global : calling.state.distance? ⟨1, name⟩ = none :=
      (Std.HashMap.getElem?_empty : (∅ : Distances)[1]? = none)
    have found : calling.state.store.get? globals "f" = some (.function f) := by cbv
    have stepped : step (evaluating (.variable ⟨1, name⟩) calling.state) =
        .done (.function f) [] calling.state :=
      step_variable rfl ((State.lookup?_global global).trans found)
    refine ⟨1, ?_⟩
    rw [run_of_going rfl, stepped]
    rfl
  have reached : Reachable Honest (.busy running called) := ⟨_, _, there⟩
  have further := reached.later (later_advance running 5 called)
  obtain ⟨_, bodies, _⟩ := calls_bind reached
  have begins := bodies _ _ _ _ f calls .function
  obtain ⟨calls_of, _, _⟩ := calls_bind further
  obtain ⟨count, _, _, _, refused, _⟩ :=
    calls_of _ paren [] _ _ [] _ control evaluates .nil
  exact ⟨running, called, calling, f, reached, calls, begins.names,
    (begins.binds "a" (.bool true)).mpr ⟨0, _, rfl, rfl, rfl⟩, further, count,
    refused 1 rfl (by decide)⟩

end Machine
end Lox
