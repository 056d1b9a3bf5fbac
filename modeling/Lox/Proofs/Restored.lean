import Mathlib
import Lox.Proofs.Floors
import Lox.Proofs.Sessions
import Lox.Proofs.Writes

/-! The environment in force is put back on every way out of a block or a call. Frames know what
they put back, so what will be in force once they are gone never changes while a program runs. -/

namespace Lox

namespace Machine

/-- The environment in force once all frames are gone. -/
def home : List Frame → Environment → Environment
  | [], current => current
  | .restore previous :: stack, _ => home stack previous
  | .activation caller _ _ :: stack, _ => home stack caller
  | _ :: stack, current => home stack current

def Config.home (config : Config) : Environment := Machine.home config.stack config.state.current

variable {state : State} {stack : List Frame} {config after : Config}

theorem home_inner {frame : Frame} (inner : frame.Inner) (current : Environment) :
    home (frame :: stack) current = home stack current := by
  cases frame with
  | restore _ | activation _ _ _ => exact inner.elim
  | _ => rfl

theorem home_applied {arguments : List Value} {line : Nat}
    (applied : Applied arguments line stack state after) : after.home = home stack state.current := by
  cases applied with
  | native result called => cases result <;> rfl
  | _ => rfl

theorem Config.home_left (config : Config) :
    Machine.home config.below config.left.current = config.home := by
  obtain ⟨control, stack, state⟩ := config
  cases control with
  | eval _ | exec _ => rfl
  | signal _ =>
    cases stack with
    | nil => rfl
    | cons frame stack => cases frame <;> rfl

theorem Transition.home (transition : Transition config after) : after.home = config.home := by
  rw [← config.home_left]
  cases transition with
  | under _ inner => exact home_inner inner _
  | calls gathers =>
    cases gathers <;> exact home_applied (applied_call _ _)
  | _ => rfl

theorem home_step (config : Config) : (step config).home = config.home :=
  (transition_step config).home

theorem home_advance (steps : Nat) (config : Config) :
    (advance steps config).home = config.home := by
  induction steps generalizing config with
  | zero => rfl
  | succ steps ih =>
    unfold advance
    split
    · rfl
    · exact (ih (step config)).trans (home_step config)

/-- What starts in a state: an expression, a statement, the statements of a block in an environment
of any kind, or a call. -/
inductive Config.Starts (state : State) : Config → Prop
  | expression (e : Expr) : Config.Starts state (evaluating e state)
  | statement (s : Stmt) : Config.Starts state (executing s state)
  | block (body : List Stmt) (inside : Environment) :
    Config.Starts state
      (.done .nil [.sequence body, .restore state.current] (state.withCurrent inside))
  | call (callee : Value) (arguments : List Value) (line : Nat) :
    Config.Starts state (applying callee arguments line state)

theorem Config.Starts.home {config : Config} (starts : config.Starts state) :
    config.home = state.current := by
  cases starts with
  | expression _ | statement _ | block _ _ => rfl
  | call callee arguments line => exact home_applied (applied_apply callee)

end Machine

open Machine

/-! ### Sessions -/

variable {hosts : HostFunction → Prop} {first last moment : Moment}

/-- The environment in force once all is done that is under way. -/
def Moment.home : Moment → Environment
  | .idle session => session.machine.current
  | .busy _ config => config.home

theorem Next.home (move : Next hosts first last) : last.home = first.home := by
  cases move with
  | native _ => rfl
  | refuse prepared | begin prepared =>
    obtain ⟨table, same⟩ := prepare_machine prepared
    exact (congrArg State.current same :)
  | @step session config going => exact home_step config
  | @settle session config ending ended =>
    obtain ⟨signal, after⟩ := ending
    obtain rfl := eq_of_finished ended
    cases signal <;> rfl

theorem Reachable.home (reached : Reachable hosts moment) : moment.home = globals := by
  obtain ⟨clock, broken, path⟩ := reached
  induction path with
  | refl => rfl
  | next _ move ih => exact move.home.trans ih

theorem Reachable.rooted (reached : Reachable hosts moment) :
    0 < moment.machine.store.scopes.size := by
  obtain ⟨clock, broken, path⟩ := reached
  induction path with
  | refl => exact Nat.zero_lt_one
  | next _ move ih => exact Nat.lt_of_lt_of_le ih move.keeps.size

namespace Machine

variable {state : State} {config : Config} {name : String}

/-- Nothing but the program is around what comes next. -/
def Config.AtTop (config : Config) : Prop :=
  ∃ rest, config.stack = [.program rest] ∨ ∃ name, config.stack = [.define name, .program rest]

theorem Config.AtTop.current (top : config.AtTop) : config.state.current = config.home := by
  obtain ⟨control, stack, state⟩ := config
  obtain ⟨rest, shape⟩ := top
  rcases shape with rfl | ⟨name, rfl⟩ <;> rfl

theorem binds_define (inside : state.current.scope < state.store.scopes.size) (name : String)
    (value : Value) : (state.define name value).store.binds name state.current.scope := by
  rw [State.define, Store.define, Store.binds_write]
  simp [inside]

theorem binds_declareClass (inside : state.current.scope < state.store.scopes.size)
    (name : Token) (superclass : Option Class) (methods : List FunctionDecl) :
    (state.declareClass name superclass methods).store.binds name.lexeme state.current.scope := by
  obtain ⟨born, own, _, whole⟩ := state.declareClass_eq name superclass methods
  have larger := Nat.lt_of_lt_of_le inside (steady_enterSuper state superclass).size
  rw [whole]
  exact binds_define larger name.lexeme _

/-- A declaration that succeeds binds its name in the scope in force. -/
theorem Config.Declares.binds (declares : config.Declares name)
    (inside : config.state.current.scope < config.state.store.scopes.size) {value : Value}
    (succeeds : (step config).control = .signal (.done value)) :
    (step config).state.store.binds name config.state.current.scope := by
  cases declares with
  | initialized | blank | function => exact binds_define inside _ _
  | @klass name superclass methods stack state =>
    simp only [step, exec, declareClass] at succeeds ⊢
    split
    · exact binds_declareClass inside name none methods
    · split
      · rename_i absent
        simp only [absent] at succeeds
        cases succeeds
      · exact binds_declareClass inside name _ methods
      · rename_i other found
        simp only [found] at succeeds
        cases succeeds

theorem Config.Declares.unassigned (declares : config.Declares name) (target : Reference)
    (address : Nat) : ¬config.Assigns target address := by
  intro assigns
  cases assigns
  cases declares

end Machine

/-- Whatever an expression, a statement, a block or a call comes to, the environment in force is
then the one from before. So between two texts it is always the global one, and what is declared at
the top of a text is declared there and nowhere else. -/
theorem current_restored (hosts : HostFunction → Prop) :
    (∀ state config steps signal after, Config.Starts state config →
      Machine.run steps config = some (signal, after) →
        after.current = state.current ∧
          ∀ floor, ∃ count, advance count (config.over floor) = ⟨.signal signal, floor, after⟩) ∧
    (∀ session, Reachable hosts (.idle session) → session.machine.current = globals) ∧
    ∀ session config name value, Reachable hosts (.busy session config) → config.AtTop →
      config.Declares name → (step config).control = .signal (.done value) →
        (step config).state.store.binds name globals.scope ∧
          ∀ address < config.state.store.scopes.size, address ≠ globals.scope → ∀ other,
            (step config).state.store.lookup? address other =
              config.state.store.lookup? address other := by
  refine ⟨?_, fun session reached => reached.home, ?_⟩
  · intro state config steps signal after starts ran
    refine ⟨?_, reaches_floor ran⟩
    have same := home_advance steps config
    rw [run_eq_advance] at ran
    rw [eq_of_finished ran, starts.home] at same
    exact same
  · intro session config name value reached top declares succeeds
    have here : config.state.current = globals := top.current.trans reached.home
    have inside : config.state.current.scope < config.state.store.scopes.size := by
      rw [here]
      exact reached.rooted
    have binds := declares.binds inside succeeds
    rw [here] at binds
    refine ⟨binds, ?_⟩
    intro address below elsewhere other
    refine lookup?_step below ?_ ?_
    · rintro ⟨_, place⟩
      rw [here] at place
      exact elsewhere place.symm
    · intro target assigns
      exact absurd assigns (declares.unassigned target address)

theorem current_restored_after_faults : ∃ (called : Function) (state after : State)
    (next running : Session) (config : Config),
    Machine.run 20 (applying (.function called) [] 1 state) =
      some (.failed (.typeMismatch .number 1), after) ∧
    after.current = state.current ∧
    (Session.start (fun _ => 0) false).run 20 "\x7b\x7b-nil;\x7d\x7d" = some next ∧
    next.machine.current = globals ∧
    Later (fun _ => True) (.idle next) (.busy running config) ∧ config.Declares "a" ∧
    (step config).state.store.binds "a" globals.scope := by
  let fault : Stmt := .expression (.unary ⟨.symbol .minus, "-", 1⟩ (.literal .nil))
  let called : Function := ⟨0, ⟨⟨.identifier, "f", 1⟩, [], [.block [fault]]⟩, ⟨0, [0]⟩, false⟩
  let first := Session.start (fun _ => 0) false
  let a : Token := ⟨.identifier, "a", 1⟩
  have failing : (Machine.run 20 (applying (.function called) [] 1 first.machine)).map (·.1) =
      some (.failed (.typeMismatch .number 1)) := by cbv
  have aborted : (first.run 20 "\x7b\x7b-nil;\x7d\x7d").map
      (fun next => (next.prepare "var a;").2) = some (some [.var a none]) := by cbv
  obtain ⟨⟨signal, after⟩, ran, same⟩ := Option.map_eq_some_iff.mp failing
  obtain ⟨next, ended, accepted⟩ := Option.map_eq_some_iff.mp aborted
  obtain rfl : signal = _ := same
  rcases prepared : next.prepare "var a;" with ⟨running, program⟩
  rw [prepared] at accepted
  obtain rfl : program = _ := accepted
  have reached : Reachable (fun _ => True) (.idle next) := ⟨_, _, later_of_run ended⟩
  have begun : Later (fun _ => True) (.idle next)
      (.busy running (advance 1 (interpreting [.var a none] running.machine))) :=
    (Later.next (.refl _) (.begin prepared)).trans (later_advance running 1 _)
  obtain ⟨restored, between, top⟩ := current_restored fun _ => True
  refine ⟨called, first.machine, after, next, running, _, ran, ?_, ended, between next reached,
    begun, .blank, ?_⟩
  · exact (restored _ _ _ _ _ (.call (.function called) [] 1) ran).1
  · exact (top running _ "a" .nil (reached.later begun) ⟨[], .inl rfl⟩ .blank rfl).1

end Lox
