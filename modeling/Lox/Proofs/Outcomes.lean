import Lox.Proofs.Chains

/-! What the operations of a step come to. Those that run no code are over at once, with a fault or
with a value, and what the value holds was held by the state or by what the operation was given. Only
a call may go on, in the body of a function. -/

namespace Lox

variable {function method : Function → Prop} {value : Value}

/-! ### What is held -/

theorem Value.Holds.any (value : Value) : value.Holds (fun _ => True) (fun _ => True) := by
  cases value with
  | klass _ | object _ => exact fun _ _ _ _ _ => trivial
  | _ => trivial

theorem Store.Holds.any (store : Store) : store.Holds (fun _ => True) (fun _ => True) :=
  ⟨fun _ _ value _ => .any value, fun _ _ value _ => .any value⟩

theorem Store.Holds.getAt? {store : Store} (holds : store.Holds function method)
    {here : Environment} {distance : Nat} {name : String}
    (found : store.getAt? here distance name = some value) : value.Holds function method := by
  rw [Store.getAt?_eq] at found
  obtain ⟨address, _, there⟩ := Option.bind_eq_some_iff.mp found
  exact holds.scopes _ _ _ there

theorem Bindings.eq_of_find?_single {α : Type} {name other : String} {bound found : α}
    (there : (Bindings.empty.insert name bound).find? other = some found) : found = bound := by
  rw [find?_insert] at there
  split at there
  · exact (Option.some.inj there).symm
  · cases there

namespace Machine

variable {state : State} {stack : List Frame} {config : Config} {arguments : List Value} {line : Nat}

theorem lookup?_holds (holds : state.store.Holds function method) {reference : Reference}
    (found : state.lookup? reference = some value) : value.Holds function method := by
  unfold State.lookup? at found
  split at found
  · exact holds.getAt? found
  · obtain ⟨address, _, there⟩ := Option.bind_eq_some_iff.mp found
    exact holds.scopes _ _ _ there

theorem parameterBindings_given {params : List Token} {name : String}
    (found : (parameterBindings params arguments).find? name = some value) : value ∈ arguments :=
  (List.of_mem_zip (Bindings.find?_ofList _ name value found)).2

/-! ### What a configuration holds -/

def Control.Holds (function method : Function → Prop) : Control → Prop
  | .signal (.done value) | .signal (.returned value) => value.Holds function method
  | _ => True

def Frame.Holds (function method : Function → Prop) : Frame → Prop
  | .right value _ => value.Holds function method
  | .argument called _ evaluated _ =>
    called.Holds function method ∧ ∀ value ∈ evaluated, value.Holds function method
  | .field object _ => (Value.object object).Holds function method
  | .constructing made => (Value.object made).Holds function method
  | _ => True

theorem Frame.Holds.imp {otherFunction otherMethod : Function → Prop} {frame : Frame}
    (holds : frame.Holds function method)
    (functions : ∀ f, function f → otherFunction f) (methods : ∀ f, method f → otherMethod f) :
    frame.Holds otherFunction otherMethod := by
  cases frame with
  | right value _ => exact Value.Holds.imp holds functions methods
  | argument called _ evaluated pending =>
    obtain ⟨callee, values⟩ := holds
    exact ⟨callee.imp functions methods,
      fun value member => (values value member).imp functions methods⟩
  | field object _ => exact Class.Holds.imp holds methods
  | constructing made => exact Class.Holds.imp holds methods
  | _ => exact holds

theorem Control.Holds.imp {otherFunction otherMethod : Function → Prop} {control : Control}
    (holds : control.Holds function method) (functions : ∀ f, function f → otherFunction f)
    (methods : ∀ f, method f → otherMethod f) : control.Holds otherFunction otherMethod := by
  cases control with
  | eval _ | exec _ => trivial
  | signal signal =>
    cases signal with
    | done _ | returned _ => exact Value.Holds.imp holds functions methods
    | failed _ => trivial

/-- All that a configuration holds. -/
structure Config.Holds (function method : Function → Prop) (config : Config) : Prop where
  store : config.state.store.Holds function method
  control : config.control.Holds function method
  stack : ∀ frame ∈ config.stack, frame.Holds function method

/-! ### Ends -/

/-- What an operation comes to that runs no code. -/
inductive Yields (function method : Function → Prop) (stack : List Frame) (state : State) :
    Config → Prop
  | failed (fault : RuntimeFault) : Yields function method stack state (.failed fault stack state)
  | done {value : Value} : value.Holds function method →
      Yields function method stack state (.done value stack state)
  /-- A method gets a scope of its own, in which it has its receiver. -/
  | bound {f : Function} {receiver : Instance} : method f →
      (Value.object receiver).Holds function method →
      Yields function method stack state
        (.done (.function (state.bindMethod f receiver).1) stack (state.bindMethod f receiver).2)

theorem Yields.ofExcept {result : Except RuntimeFault Value}
    (held : ∀ value, result = .ok value → value.Holds function method) :
    Yields function method stack state (.ofExcept result stack state) := by
  cases result with
  | ok value => exact .done (held value rfl)
  | error fault => exact .failed fault

@[simp] theorem Config.stack_ofExcept (result : Except RuntimeFault Value) :
    (Config.ofExcept result stack state).stack = stack := by
  cases result <;> rfl

@[simp] theorem Config.state_ofExcept (result : Except RuntimeFault Value) :
    (Config.ofExcept result stack state).state = state := by
  cases result <;> rfl

theorem yields_applyUnary (operator : Token) (operand : Value) :
    Yields function method stack state (.ofExcept (applyUnary operator operand) stack state) := by
  refine .ofExcept fun value given => ?_
  unfold applyUnary at given
  split at given <;> cases given <;> trivial

theorem onNumbers?_holds {symbol : Symbol} {apply : Float → Float → Value}
    (found : onNumbers? symbol = some apply) (a b : Float) :
    (apply a b).Holds function method := by
  unfold onNumbers? at found
  split at found <;> cases found <;> trivial

/-- Operators give plain data. -/
theorem yields_applyBinary (operator : Token) (first second : Value) :
    Yields function method stack state
      (.ofExcept (applyBinary operator first second) stack state) := by
  refine .ofExcept fun value given => ?_
  unfold applyBinary at given
  split at given
  · cases given
    trivial
  · cases given
    trivial
  · unfold applyPlus at given
    split at given <;> cases given <;> trivial
  · unfold applyNumeric at given
    split at given
    · rename_i apply a b found
      cases given
      exact onNumbers?_holds found a b
    · cases given
  · cases given

/-- A native is called with as many arguments as it takes, and answers. -/
def State.Answers (state : State) (callee : Value) (arguments : List Value) (value : Value) : Prop :=
  ∃ native, callee = .native native ∧ arguments.length = native.arity ∧
    (state.callHost native arguments).1 = .ok value

theorem yields_callNative {native : Native} (arity : arguments.length = native.arity)
    (answers : ∀ value, state.Answers (.native native) arguments value →
      value.Holds function method) (line : Nat) :
    Yields function method stack (state.callHost native arguments).2
      (callNative native arguments line stack state) := by
  refine .ofExcept fun value same => answers value ⟨native, rfl, arity, ?_⟩
  change (state.callHost native arguments).1.mapError _ = .ok value at same
  generalize (state.callHost native arguments).1 = result at same ⊢
  cases result <;> cases same
  rfl

/-- Only a native that is not there answers by itself. -/
theorem State.Answers.answered {callee : Value} (answers : state.Answers callee arguments value) :
    value = .nil ∨ ∃ act ∈ state.hosts, ∃ now, act now arguments = .ok value := by
  obtain ⟨native, _, _, answered⟩ := answers
  simp only [State.callHost] at answered
  split at answered
  · rename_i act host
    exact .inr ⟨act, Array.mem_of_getElem? host, _, answered⟩
  · cases answered
    exact .inl rfl

/-- An honest host function gives nothing back that it was not given. -/
theorem State.Answers.holds {callee : Value} (answers : state.Answers callee arguments value)
    (honest : ∀ act ∈ state.hosts, Honest act)
    (given : ∀ argument ∈ arguments, argument.Holds function method) :
    value.Holds function method := by
  rcases answers.answered with rfl | ⟨act, host, now, answered⟩
  · trivial
  · exact honest act host _ _ now arguments value given answered

section Held

variable (holds : state.store.Holds function method)
include holds

theorem yields_finishCall (f : Function) (line : Nat) (result : Value)
    (held : result.Holds function method) :
    Yields function method stack state (finishCall f line result stack state) := by
  unfold finishCall
  split
  · split
    · rename_i found
      exact .done (holds.getAt? found)
    · exact .failed _
  · exact .done held

theorem yields_readName (reference : Reference) :
    Yields function method stack state (readName reference stack state) := by
  unfold readName
  split
  · rename_i found
    exact .done (lookup?_holds holds found)
  · exact .failed _

theorem yields_getProperty {object : Value} (held : object.Holds function method) (name : Token) :
    Yields function method stack state (getProperty object name stack state) := by
  cases object with
  | object i =>
    unfold getProperty State.property
    dsimp only
    split
    · rename_i found
      exact .done (holds.fields _ _ _ found)
    · split
      · rename_i found
        exact .bound (Class.Holds.findMethod? held found) held
      · exact .failed _
  | nil | bool _ | number _ | string _ | function _ | native _ | klass _ => exact .failed _

theorem yields_superMethod (reference : Reference) (name : Token) :
    Yields function method stack state (superMethod reference name stack state) := by
  unfold superMethod
  dsimp only
  split
  · exact .failed _
  · split
    · exact .failed _
    · rename_i superclass
      split
      · exact .failed _
      · rename_i receiver
        split
        · exact .failed _
        · rename_i found
          have above : (Value.klass _).Holds function method := holds.getAt? superclass
          exact .bound (Class.Holds.findMethod? above found) (holds.getAt? receiver)
      · exact .failed _
    · exact .failed _

end Held

/-! ### Calls -/

/-- What a call comes to. -/
inductive Applied (arguments : List Value) (line : Nat) (stack : List Frame) (state : State) :
    Config → Prop
  | refused (fault : RuntimeFault) : Applied arguments line stack state (.failed fault stack state)
  | native (result : Except RuntimeFault Value) (called : Native) :
      Applied arguments line stack state
        (.ofExcept result stack (state.callHost called arguments).2)
  | entered (f : Function) :
      Applied arguments line stack state (enterFunction f arguments line stack state)
  | made (c : Class) : Applied arguments line stack state
      (.done (.object (state.instantiate c).1) stack (state.instantiate c).2)
  | initialized (c : Class) (f : Function) : Applied arguments line stack state
      (enterFunction ((state.instantiate c).2.bindMethod f (state.instantiate c).1).1 arguments line
        (.constructing (state.instantiate c).1 :: stack)
        ((state.instantiate c).2.bindMethod f (state.instantiate c).1).2)

theorem applied_apply (callee : Value) :
    Applied arguments line stack state (apply callee arguments line stack state) := by
  cases callee with
  | function f => exact .entered f
  | native called => exact .native _ called
  | klass c =>
    simp only [apply, construct]
    split
    · exact .initialized c _
    · exact .made c
  | nil | bool _ | number _ | string _ | object _ => exact .refused _

theorem applied_call (callee : Value) (paren : Token) :
    Applied arguments paren.line stack state (call callee paren arguments stack state) := by
  unfold call
  split
  · exact .refused _
  · split
    · exact applied_apply callee
    · exact .refused _

/-! ### Classes -/

/-- Closing methods makes functions in the environment in force, and changes nothing else. -/
theorem State.closeMethods_state (methods : List FunctionDecl) (state : State)
    (bindings : Bindings Function) :
    ∃ born, (state.closeMethods methods bindings).2 = { state with born } := by
  induction methods generalizing state bindings with
  | nil => exact ⟨state.born, rfl⟩
  | cons declaration rest ih => exact ih { state with born := state.born + 1 } _

theorem State.closeMethods_holds {methods : List FunctionDecl} {bindings : Bindings Function}
    (before : ∀ name f, bindings.find? name = some f → method f)
    (made : ∀ identity, ∀ declaration ∈ methods,
      method ⟨identity, declaration, state.current, declaration.isInitializer⟩)
    (name : String) (f : Function)
    (found : (state.closeMethods methods bindings).1.find? name = some f) : method f := by
  induction methods generalizing state bindings with
  | nil => exact before name f found
  | cons declaration rest ih =>
    refine @ih { state with born := state.born + 1 } _ ?_ ?_ found
    · intro name f found
      rw [Bindings.find?_insert] at found
      split at found
      · cases found
        exact made _ declaration List.mem_cons_self
      · exact before name f found
    · intro identity other member
      exact made identity other (List.mem_cons_of_mem _ member)

/-- A class is bound where its statement stands, once the scope around its methods is left. -/
theorem State.declareClass_eq (state : State) (name : Token) (above : Option Class)
    (methods : List FunctionDecl) :
    ∃ born own, own.methods = ((state.enterSuper above).closeMethods methods .empty).1 ∧
      state.declareClass name above methods =
        State.define { state.enterSuper above with current := state.current, born } name.lexeme
          (.klass ⟨own, (above.map Class.layers).getD []⟩) := by
  obtain ⟨born, same⟩ := closeMethods_state methods (state.enterSuper above) .empty
  refine ⟨born + 1, ⟨born, name.lexeme, _⟩, rfl, ?_⟩
  simp only [declareClass, same]

/-- A class has the methods that are declared in it, and those of the classes it inherits from. -/
theorem declared_holds {own : Layer} {above : Option Class} {methods : List FunctionDecl}
    (declares : own.methods = (state.closeMethods methods .empty).1)
    (made : ∀ identity, ∀ declaration ∈ methods,
      method ⟨identity, declaration, state.current, declaration.isInitializer⟩)
    (inherited : ∀ c, above = some c → c.Holds method) :
    Class.Holds method ⟨own, (above.map Class.layers).getD []⟩ := by
  intro layer member name f found
  rcases List.mem_cons.mp member with same | further
  · rw [same, declares] at found
    exact State.closeMethods_holds (by simp) made name f found
  · cases above with
    | none => cases further
    | some c => exact inherited c rfl layer further name f found

end Machine
end Lox
