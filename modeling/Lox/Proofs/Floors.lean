import Lox.Proofs.Moments

/-! Nothing is done with the frames below until what is above them is over, and no step looks at what
was printed. So a part of a program runs inside of the program just as it runs on its own. -/

namespace Lox.Machine

/-- The same with more frames below. -/
def Config.over (config : Config) (floor : List Frame) : Config :=
  { config with stack := config.stack ++ floor }

/-- The line that is printed by the next step. -/
def Config.line? : Config → Option String
  | ⟨.signal (.done value), .print :: _, _⟩ => some value.text
  | _ => none

def State.mapOutput (state : State) (change : Output → Output) : State :=
  { state with output := change state.output }

/-- The same with more frames below, and where something else was printed. -/
def Config.beside (config : Config) (floor : List Frame) (change : Output → Output) : Config :=
  ⟨config.control, config.stack ++ floor, config.state.mapOutput change⟩

section Steps

variable (state : State) {stack floor : List Frame} {change : Output → Output} {value : Value}

theorem ofExcept_beside (result : Except RuntimeFault Value) :
    Config.ofExcept result (stack ++ floor) (state.mapOutput change) =
      (Config.ofExcept result stack state).beside floor change := by
  cases result <;> rfl

theorem apply_beside (callee : Value) (arguments : List Value) (line : Nat) :
    apply callee arguments line (stack ++ floor) (state.mapOutput change) =
      (apply callee arguments line stack state).beside floor change := by
  cases callee with
  | native native => exact ofExcept_beside (state.callHost native arguments).2 _
  | klass c =>
    simp only [apply, construct]
    split <;> rfl
  | _ => rfl

theorem call_beside (callee : Value) (paren : Token) (arguments : List Value) :
    call callee paren arguments (stack ++ floor) (state.mapOutput change) =
      (call callee paren arguments stack state).beside floor change := by
  unfold call
  split
  · rfl
  · split
    · exact apply_beside state callee arguments paren.line
    · rfl

theorem nextArgument_beside (callee : Value) (paren : Token) (evaluated : List Value)
    (pending : List Expr) :
    nextArgument callee paren evaluated (stack ++ floor) (state.mapOutput change) pending =
      (nextArgument callee paren evaluated stack state pending).beside floor change := by
  cases pending with
  | nil => exact call_beside state callee paren _
  | cons first rest => rfl

theorem finishCall_beside (function : Function) (line : Nat) (result : Value) :
    finishCall function line result (stack ++ floor) (state.mapOutput change) =
      (finishCall function line result stack state).beside floor change := by
  simp only [finishCall, State.mapOutput]
  split
  · split <;> rfl
  · rfl

theorem getProperty_beside (object : Value) (name : Token) :
    getProperty object name (stack ++ floor) (state.mapOutput change) =
      (getProperty object name stack state).beside floor change := by
  cases object with
  | object i =>
    simp only [getProperty, State.property, State.mapOutput]
    split
    · rfl
    · split <;> rfl
  | _ => rfl

theorem superMethod_beside (reference : Reference) (method : Token) :
    superMethod reference method (stack ++ floor) (state.mapOutput change) =
      (superMethod reference method stack state).beside floor change := by
  simp only [superMethod, State.distance?, State.mapOutput]
  split
  · rfl
  · split
    · rfl
    · split
      · rfl
      · split <;> rfl
      · rfl
    · rfl

theorem lookup?_mapOutput (reference : Reference) :
    (state.mapOutput change).lookup? reference = state.lookup? reference := rfl

theorem readName_beside (reference : Reference) :
    readName reference (stack ++ floor) (state.mapOutput change) =
      (readName reference stack state).beside floor change := by
  simp only [readName, lookup?_mapOutput]
  split <;> rfl

theorem writeName_beside (target : Reference) :
    writeName target value (stack ++ floor) (state.mapOutput change) =
      (writeName target value stack state).beside floor change := by
  have slot : (state.mapOutput change).slot? target = state.slot? target := rfl
  simp only [writeName, slot]
  split <;> rfl

theorem closeMethods_mapOutput (methods : List FunctionDecl) (bindings : Bindings Function) :
    (state.mapOutput change).closeMethods methods bindings =
      ((state.closeMethods methods bindings).1,
        (state.closeMethods methods bindings).2.mapOutput change) := by
  induction methods generalizing state bindings with
  | nil => rfl
  | cons declaration rest ih => exact ih (state.close declaration declaration.isInitializer).2 _

theorem declareClass_mapOutput (name : Token) (superclass : Option Class)
    (methods : List FunctionDecl) :
    (state.mapOutput change).declareClass name superclass methods =
      (state.declareClass name superclass methods).mapOutput change := by
  have inside : (state.mapOutput change).enterSuper superclass =
      (state.enterSuper superclass).mapOutput change := by cases superclass <;> rfl
  simp only [State.declareClass, inside, closeMethods_mapOutput]
  rfl

theorem eval_beside (e : Expr) :
    eval e (stack ++ floor) (state.mapOutput change) =
      (eval e stack state).beside floor change := by
  cases e with
  | «variable» reference | this reference => exact readName_beside state reference
  | super reference method => exact superMethod_beside state reference method
  | _ => rfl

theorem exec_beside (s : Stmt) :
    exec s (stack ++ floor) (state.mapOutput change) =
      (exec s stack state).beside floor change := by
  cases s with
  | var _ initializer => cases initializer <;> rfl
  | ret _ result => cases result <;> rfl
  | classDecl name superclass methods =>
    simp only [exec, declareClass, declareClass_mapOutput, lookup?_mapOutput]
    split
    · rfl
    · split <;> rfl
  | _ => rfl

theorem proceed_beside (later : List Stmt → Frame) (rest : List Stmt) :
    proceed later (stack ++ floor) (state.mapOutput change) rest =
      (proceed later stack state rest).beside floor change := by
  cases rest <;> rfl

theorem resume_beside {frame : Frame} (silent : frame ≠ .print) :
    resume value (stack ++ floor) (state.mapOutput change) frame =
      (resume value stack state frame).beside floor change := by
  cases frame with
  | print => exact absurd rfl silent
  | unary _ | right _ _ => exact ofExcept_beside state _
  | assign target => exact writeName_beside state target
  | callee paren arguments => exact nextArgument_beside state value paren [] arguments
  | argument callee paren evaluated pending =>
    exact nextArgument_beside state callee paren _ pending
  | property name => exact getProperty_beside state value name
  | activation caller function line =>
    exact finishCall_beside (state.withCurrent caller) function line .nil
  | sequence rest | program rest => exact proceed_beside state _ rest
  | logical _ _ | target _ _ | test _ _ =>
    simp only [resume]
    split <;> rfl
  | branch _ elseBranch =>
    simp only [resume]
    split
    · rfl
    · split <;> rfl
  | _ => rfl

theorem unwind_beside (frame : Frame) :
    unwind value (stack ++ floor) (state.mapOutput change) frame =
      (unwind value stack state frame).beside floor change := by
  cases frame with
  | activation caller function line =>
    exact finishCall_beside (state.withCurrent caller) function line value
  | program rest => exact proceed_beside state _ rest
  | _ => rfl

end Steps

variable {state : State} {stack floor : List Frame}

/-- A step that prints nothing does the same over other frames and with another output. -/
theorem step_beside {config : Config} (going : config.finished? = none)
    (silent : config.line? = none) (floor : List Frame) (change : Output → Output) :
    step (config.beside floor change) = (step config).beside floor change := by
  obtain ⟨control, stack, state⟩ := config
  cases control with
  | eval e => exact eval_beside state e
  | exec s => exact exec_beside state s
  | signal signal =>
    cases stack with
    | nil => cases going
    | cons frame stack =>
      cases signal with
      | done value =>
        refine resume_beside state ?_
        rintro rfl
        cases silent
      | returned value => exact unwind_beside state frame
      | failed fault => cases frame <;> rfl

theorem eq_of_line {config : Config} {line : String} (prints : config.line? = some line) :
    ∃ value stack state,
      config = ⟨.signal (.done value), .print :: stack, state⟩ ∧ line = value.text := by
  unfold Config.line? at prints
  split at prints
  · cases prints
    exact ⟨_, _, _, rfl, rfl⟩
  · cases prints

theorem step_over {config : Config} (going : config.finished? = none) :
    step (config.over floor) = (step config).over floor := by
  cases prints : config.line? with
  | none => exact step_beside going prints floor id
  | some line =>
    obtain ⟨value, stack, state, rfl, _⟩ := eq_of_line prints
    rfl

theorem going_over {config : Config} (going : config.finished? = none) :
    (config.over floor).finished? = none := by
  obtain ⟨control, stack, state⟩ := config
  cases control with
  | eval _ | exec _ => rfl
  | signal _ =>
    cases stack with
    | nil => cases going
    | cons _ _ => rfl

/-- What runs on its own runs in the same way over other frames. -/
theorem advance_over (floor : List Frame) (steps : Nat) (config : Config) :
    ∃ count, advance count (config.over floor) = (advance steps config).over floor := by
  induction steps generalizing config with
  | zero => exact ⟨0, rfl⟩
  | succ steps ih =>
    cases ended : config.finished? with
    | some ending =>
      refine ⟨0, ?_⟩
      simp only [advance, ended]
    | none =>
      obtain ⟨count, same⟩ := ih (step config)
      refine ⟨count + 1, ?_⟩
      rw [advance_of_going ended, advance_of_going (going_over ended), step_over ended]
      exact same

/-- What ends on its own ends over other frames, which are then left. -/
theorem reaches_floor {config : Config} {steps : Nat} {signal : Signal} {after : State}
    (ran : run steps config = some (signal, after)) (floor : List Frame) :
    ∃ count, advance count (config.over floor) = ⟨.signal signal, floor, after⟩ := by
  obtain ⟨count, same⟩ := advance_over floor steps config
  rw [run_eq_advance] at ran
  rw [eq_of_finished ran] at same
  exact ⟨count, same⟩

/-- What ends over other frames has come to them before, and went on there. -/
theorem run_over {config : Config} {floor : List Frame} {steps : Nat} {result : Signal × State}
    (ran : run steps (config.over floor) = some result) :
    ∃ count later signal middle, run count config = some (signal, middle) ∧
      run later ⟨.signal signal, floor, middle⟩ = some result := by
  induction steps generalizing config with
  | zero =>
    cases ended : config.finished? with
    | some ending =>
      obtain ⟨signal, middle⟩ := ending
      obtain rfl := eq_of_finished ended
      exact ⟨0, 0, signal, middle, rfl, ran⟩
    | none => cases (going_over ended).symm.trans ran
  | succ steps ih =>
    cases ended : config.finished? with
    | some ending =>
      obtain ⟨signal, middle⟩ := ending
      obtain rfl := eq_of_finished ended
      exact ⟨0, steps + 1, signal, middle, rfl, ran⟩
    | none =>
      rw [run_of_going (going_over ended), step_over ended] at ran
      obtain ⟨count, later, signal, middle, first, second⟩ := ih ran
      exact ⟨count + 1, later, signal, middle, (run_of_going ended count).trans first, second⟩

end Lox.Machine
