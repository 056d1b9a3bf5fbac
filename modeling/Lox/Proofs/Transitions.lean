import Lox.Machine.Run
import Lox.Proofs.Outcomes

/-! What a step does, said once for all of them. Most steps look at another piece of the program, or hand
a value on, and change nothing; each of the others is told by where the machine stands before it. -/

namespace Lox.Machine

/-- The next step declares a name in the scope in force. -/
inductive Config.Declares : Config → String → Prop
  | initialized {value : Value} {name : Token} {stack : List Frame} {state : State} :
      Config.Declares ⟨.signal (.done value), .define name :: stack, state⟩ name.lexeme
  | blank {name : Token} {stack : List Frame} {state : State} :
      Config.Declares ⟨.exec (.var name none), stack, state⟩ name.lexeme
  | function {declaration : FunctionDecl} {stack : List Frame} {state : State} :
      Config.Declares ⟨.exec (.function declaration), stack, state⟩ declaration.name.lexeme
  | klass {name : Token} {superclass : Option Reference} {methods : List FunctionDecl}
      {stack : List Frame} {state : State} :
      Config.Declares ⟨.exec (.classDecl name superclass methods), stack, state⟩ name.lexeme

/-- The next step assigns to a name that it finds in a scope. -/
inductive Config.Assigns : Config → Reference → Nat → Prop
  | found {value : Value} {target : Reference} {stack : List Frame} {state : State}
      {scope : Nat} : state.slot? target = some scope →
      Config.Assigns ⟨.signal (.done value), .assign target :: stack, state⟩ target scope

/-- The callee and all the arguments are there, and the next step checks and calls. -/
inductive Config.Gathers : Config → Value → Token → List Value → List Frame → Prop
  | plain {callee : Value} {paren : Token} {stack : List Frame} {state : State} :
      Config.Gathers ⟨.signal (.done callee), .callee paren [] :: stack, state⟩ callee paren [] stack
  | given {callee value : Value} {paren : Token} {evaluated : List Value} {stack : List Frame}
      {state : State} :
      Config.Gathers ⟨.signal (.done value), .argument callee paren evaluated [] :: stack, state⟩
        callee paren (value :: evaluated).reverse stack

/-- The next step calls a native, and this is what the native answers. -/
def Config.Answers (config : Config) (value : Value) : Prop :=
  ∃ callee paren arguments stack, config.Gathers callee paren arguments stack ∧
    config.state.Answers callee arguments value

theorem not_answers_program {value answer : Value} {rest : List Stmt} {stack : List Frame}
    {state : State} :
    ¬Config.Answers ⟨.signal (.done value), .program rest :: stack, state⟩ answer := by
  rintro ⟨_, _, _, _, gathers, _⟩
  cases gathers

section Held

variable {config : Config} {callee value : Value} {paren : Token} {arguments : List Value}
  {stack : List Frame} {function method : Function → Prop}

theorem Config.Gathers.holds (gathers : config.Gathers callee paren arguments stack)
    (holds : config.Holds function method) :
    callee.Holds function method ∧ ∀ argument ∈ arguments, argument.Holds function method := by
  cases gathers with
  | plain => exact ⟨holds.control, List.forall_mem_nil _⟩
  | given =>
    obtain ⟨called, values⟩ := holds.stack _ List.mem_cons_self
    refine ⟨called, fun argument member => ?_⟩
    rcases List.mem_cons.mp (List.mem_reverse.mp member) with same | member
    · exact same ▸ holds.control
    · exact values argument member

theorem Config.Gathers.step (gathers : config.Gathers callee paren arguments stack) :
    Machine.step config = call callee paren arguments stack config.state := by
  cases gathers with
  | plain => rfl
  | given => rfl

/-- A native changes no environment. -/
theorem Config.Answers.current (answers : config.Answers value) :
    (Machine.step config).state.current = config.state.current := by
  obtain ⟨_, paren, arguments, stack, gathers, native, rfl, arity, _⟩ := answers
  rw [gathers.step, call, Value.arity?]
  dsimp only
  rw [if_pos arity]
  change (ofExcept _ _ (config.state.callHost native arguments).2).state.current = _
  rw [Config.state_ofExcept]
  rfl

theorem Config.Answers.holds (answers : config.Answers value)
    (honest : ∀ act ∈ config.state.hosts, Honest act) (holds : config.Holds function method) :
    value.Holds function method := by
  obtain ⟨callee, paren, arguments, stack, gathers, answered⟩ := answers
  exact answered.holds honest (gathers.holds holds).2

end Held

/-! ### Around a step -/

/-- What waits below the frame that gets a result next. -/
def Config.below : Config → List Frame
  | ⟨.signal _, _ :: stack, _⟩ => stack
  | ⟨_, stack, _⟩ => stack

/-- The state once that frame is gone. -/
def Config.left : Config → State
  | ⟨.signal _, frame :: _, state⟩ => leave state frame
  | ⟨_, _, state⟩ => state

theorem Config.store_left (config : Config) : config.left.store = config.state.store := by
  obtain ⟨control, stack, state⟩ := config
  cases control with
  | eval _ | exec _ => rfl
  | signal _ =>
    cases stack with
    | nil => rfl
    | cons frame stack => cases frame <;> rfl

/-- A frame that waits in the environment in force. The others put one back in force. -/
def Frame.Inner : Frame → Prop
  | .restore _ | .activation _ _ _ => False
  | _ => True

/-- What a step comes to. -/
inductive Transition : Config → Config → Prop
  /-- Nothing is changed. -/
  | moves {config : Config} (control : Control) :
      Transition config ⟨control, config.below, config.left⟩
  | under {config : Config} (control : Control) {frame : Frame} : frame.Inner →
      Transition config ⟨control, frame :: config.below, config.left⟩
  | binds {config : Config} (method : Function) (receiver : Instance) :
      Transition config (.done (.function (config.left.bindMethod method receiver).1) config.below
        (config.left.bindMethod method receiver).2)
  | calls {config : Config} {callee : Value} {paren : Token} {arguments : List Value}
      {stack : List Frame} : config.Gathers callee paren arguments stack →
      Transition config (call callee paren arguments stack config.state)
  | opens (body : List Stmt) (stack : List Frame) (state : State) :
      Transition ⟨.exec (.block body), stack, state⟩
        (.done .nil (.sequence body :: .restore state.current :: stack)
          (state.enter state.current .empty))
  | defines {config : Config} {name : String} (value : Value) : config.Declares name →
      Transition config (.done .nil config.below (config.left.define name value))
  | closes {config : Config} {declaration : FunctionDecl} :
      config.Declares declaration.name.lexeme →
      Transition config (declareFunction declaration config.below config.left)
  | builds {config : Config} {name : Token} (above : Option Class) (methods : List FunctionDecl) :
      config.Declares name.lexeme →
      Transition config (.done .nil config.below (config.left.declareClass name above methods))
  | assigns {config : Config} {target : Reference} {scope : Nat} (value : Value) :
      config.Assigns target scope →
      Transition config
        (.done value config.below (config.left.write scope target.name.lexeme value))
  | sets (value : Value) (i : Instance) (name : Token) (stack : List Frame) (state : State) :
      Transition ⟨.signal (.done value), .field i name :: stack, state⟩
        (.done value stack (state.setField i name.lexeme value))
  | prints {config : Config} (line : String) :
      Transition config (.done .nil config.below (config.left.print line))

variable {config after : Config} {state : State} {stack : List Frame} {value : Value}

theorem Yields.transition
    (yields : Yields (fun _ => True) (fun _ => True) config.below config.left after) :
    Transition config after := by
  cases yields with
  | failed fault => exact .moves _
  | done _ => exact .moves _
  | bound _ _ => exact .binds _ _

theorem transition_eval (e : Expr) : Transition ⟨.eval e, stack, state⟩ (eval e stack state) := by
  cases e with
  | literal _ | grouping _ => exact .moves _
  | «variable» reference | this reference =>
    exact (yields_readName (.any state.store) reference).transition
  | super reference method => exact (yields_superMethod (.any state.store) reference method).transition
  | unary _ _ | binary _ _ _ | logical _ _ _ | assign _ _ | call _ _ _ | get _ _ | set _ _ _ =>
    exact .under _ trivial

theorem transition_exec (s : Stmt) : Transition ⟨.exec s, stack, state⟩ (exec s stack state) := by
  cases s with
  | expression _ => exact .moves _
  | print _ | conditional _ _ _ | loop _ _ => exact .under _ trivial
  | var name initializer =>
    cases initializer with
    | none => exact .defines .nil .blank
    | some initializer => exact .under _ trivial
  | block body => exact .opens body stack state
  | function declaration => exact .closes .function
  | ret keyword value =>
    cases value with
    | none => exact .moves _
    | some value => exact .under _ trivial
  | classDecl name superclass methods =>
    simp only [exec, declareClass]
    split
    · exact .builds none methods .klass
    · split
      · exact .moves _
      · exact .builds _ methods .klass
      · exact .moves _

theorem transition_resume (frame : Frame) :
    Transition ⟨.signal (.done value), frame :: stack, state⟩ (resume value stack state frame) := by
  cases frame with
  | unary operator => exact (yields_applyUnary operator value).transition
  | right first operator => exact (yields_applyBinary operator first value).transition
  | left _ _ | again _ _ => exact .under _ trivial
  | returning | restore _ | constructing _ => exact .moves _
  | logical _ _ =>
    simp only [resume]
    split <;> exact .moves _
  | assign target =>
    simp only [resume, writeName]
    split
    · rename_i found
      exact .assigns value (.found found)
    · exact .moves _
  | callee paren arguments =>
    cases arguments with
    | nil => exact .calls .plain
    | cons first rest => exact .under _ trivial
  | argument callee paren evaluated pending =>
    cases pending with
    | nil => exact .calls .given
    | cons first rest => exact .under _ trivial
  | property name => exact (yields_getProperty (.any state.store) (.any value) name).transition
  | target _ _ =>
    simp only [resume]
    split
    · exact .under _ trivial
    · exact .moves _
  | field i name => exact .sets value i name stack state
  | print => exact .prints value.text
  | define name => exact .defines value .initialized
  | branch _ elseBranch =>
    simp only [resume]
    split
    · exact .moves _
    · cases elseBranch <;> exact .moves _
  | test _ _ =>
    simp only [resume]
    split
    · exact .under _ trivial
    · exact .moves _
  | sequence rest | program rest =>
    cases rest with
    | nil => exact .moves _
    | cons next rest => exact .under _ trivial
  | activation caller f line =>
    exact (yields_finishCall (.any (state.withCurrent caller).store) f line .nil (.any _)).transition

theorem transition_unwind (frame : Frame) :
    Transition ⟨.signal (.returned value), frame :: stack, state⟩
      (unwind value stack state frame) := by
  cases frame with
  | activation caller f line =>
    exact (yields_finishCall (.any (state.withCurrent caller).store) f line value (.any _)).transition
  | program rest =>
    cases rest with
    | nil => exact .moves _
    | cons next rest => exact .under _ trivial
  | _ => exact .moves _

theorem transition_step (config : Config) : Transition config (step config) := by
  obtain ⟨control, stack, state⟩ := config
  cases control with
  | eval e => exact transition_eval e
  | exec s => exact transition_exec s
  | signal signal =>
    cases stack with
    | nil => exact .moves _
    | cons frame stack =>
      cases signal with
      | done value => exact transition_resume frame
      | returned value => exact transition_unwind frame
      | failed fault => exact .moves _

/-! ### What no step changes -/

theorem fixed_applied {arguments : List Value} {line : Nat}
    (applied : Applied arguments line stack state after) :
    after.state.distances = state.distances ∧ after.state.hosts = state.hosts := by
  cases applied with
  | native result called => cases result <;> exact ⟨rfl, rfl⟩
  | _ => exact ⟨rfl, rfl⟩

theorem fixed_left (config : Config) :
    config.left.distances = config.state.distances ∧ config.left.hosts = config.state.hosts := by
  obtain ⟨control, stack, state⟩ := config
  cases control with
  | eval _ | exec _ => exact ⟨rfl, rfl⟩
  | signal _ =>
    cases stack with
    | nil => exact ⟨rfl, rfl⟩
    | cons frame stack => cases frame <;> exact ⟨rfl, rfl⟩

theorem Transition.fixed (transition : Transition config after) :
    after.state.distances = config.state.distances ∧ after.state.hosts = config.state.hosts := by
  have left := fixed_left config
  cases transition with
  | calls gathers => exact fixed_applied (applied_call _ _)
  | opens body stack state | sets value i name stack state => exact ⟨rfl, rfl⟩
  | @builds _ name above methods _ =>
    obtain ⟨born, own, _, whole⟩ := config.left.declareClass_eq name above methods
    rw [whole]
    cases above <;> exact left
  | _ => exact left

theorem distances_step (config : Config) :
    (step config).state.distances = config.state.distances :=
  (transition_step config).fixed.1

theorem hosts_step (config : Config) : (step config).state.hosts = config.state.hosts :=
  (transition_step config).fixed.2

theorem distances_advance (steps : Nat) (config : Config) :
    (advance steps config).state.distances = config.state.distances := by
  induction steps generalizing config with
  | zero => rfl
  | succ steps ih =>
    unfold advance
    split
    · rfl
    · exact (ih (step config)).trans (distances_step config)

/-! ### Globals -/

theorem State.lookup?_global {state : State} {reference : Reference}
    (absent : state.distance? reference = none) :
    state.lookup? reference = state.store.get? globals reference.name.lexeme := by
  rw [State.lookup?, absent]

theorem step_variable {reference : Reference} {value : Value}
    (control : config.control = .eval (.variable reference))
    (found : config.state.lookup? reference = some value) :
    step config = .done value config.stack config.state := by
  obtain ⟨_, stack, state⟩ := config
  cases control
  simp only [step, eval, readName, found]

theorem step_assign {target : Reference} {scope : Nat} {value : Value} {stack : List Frame}
    {state : State} (found : state.slot? target = some scope) :
    step (.done value (.assign target :: stack) state) =
      .done value stack (state.write scope target.name.lexeme value) := by
  change writeName target value stack state = _
  rw [writeName, found]

end Lox.Machine
