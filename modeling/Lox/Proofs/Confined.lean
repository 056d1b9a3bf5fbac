import Mathlib
import Lox.Proofs.Accounts
import Lox.Proofs.Restored

/-! Names come from declarations alone. What a program goes through on its way to a result is done in
scopes of its own, so a scope that was there before gets no name but one that is declared where the
program stands, and it loses none. -/

namespace Lox

open Machine

/-! ### What a statement may declare -/

section Within

variable (may : String → Prop)

mutual

/-- The names that a statement may declare in the scope it is executed in are all of one kind. -/
def Stmt.Within : Stmt → Prop
  | .var name _ => may name.lexeme
  | .function declaration => may declaration.name.lexeme
  | .classDecl name _ _ => may name.lexeme
  | .conditional _ thenBranch elseBranch => thenBranch.Within ∧ branchWithin elseBranch
  | .loop _ body => body.Within
  | .expression _ | .print _ | .block _ | .ret _ _ => True

def branchWithin : Option Stmt → Prop
  | none => True
  | some s => s.Within

end

namespace Machine

def Control.Within : Control → Prop
  | .exec s => s.Within may
  | .eval _ | .signal _ => True

/-- What a frame may still declare in the environment it waits in. -/
def Frame.Within : Frame → Prop
  | .define name => may name.lexeme
  | .sequence rest | .program rest => ∀ s ∈ rest, s.Within may
  | .branch thenBranch elseBranch => thenBranch.Within may ∧ branchWithin may elseBranch
  | .test _ body | .again _ body => body.Within may
  | _ => True

end Machine

variable {may}

mutual

theorem Stmt.Proper.within {good : Token → Prop} : (s : Stmt) → s.Proper good →
    (∀ name, s.declared? = some name → may name.lexeme) → s.Within may
  | .var name _, _, declares | .classDecl name _ _, _, declares => declares name rfl
  | .function declaration, _, declares => declares declaration.name rfl
  | .conditional _ thenBranch elseBranch, proper, _ => by
    obtain ⟨_, ⟨inside, undeclared⟩, otherwise⟩ := proper
    exact ⟨Stmt.Proper.within thenBranch inside (by simp [undeclared]),
      branchProper_within elseBranch otherwise⟩
  | .loop _ body, proper, _ => Stmt.Proper.within body proper.2.1 (by simp [proper.2.2])
  | .expression _, _, _ | .print _, _, _ | .block _, _, _ | .ret _ _, _, _ => trivial

theorem branchProper_within {good : Token → Prop} : (s : Option Stmt) → branchProper good s →
    branchWithin may s
  | none, _ => trivial
  | some s, proper => Stmt.Proper.within s proper.1 (by simp [proper.2])

end

end Within

/-- The first scopes keep their names, and each gets only certain ones. -/
structure Store.Gains (size : Nat) (may : Nat → String → Prop) (before after : Store) : Prop where
  keeps : ∀ address < size, ∀ name, before.binds name address → after.binds name address
  gains : ∀ address < size, ∀ name, after.binds name address →
    before.binds name address ∨ may address name

theorem Store.Gains.refl {size : Nat} {may : Nat → String → Prop} (store : Store) :
    store.Gains size may store :=
  ⟨fun _ _ _ bound => bound, fun _ _ _ bound => .inl bound⟩

namespace Machine

/-! ### What waits in old scopes -/

/-- The environment in force once a frame is gone. -/
def Frame.outside (here : Environment) : Frame → Environment
  | .restore previous => previous
  | .activation caller _ _ => caller
  | _ => here

/-- What waits in one of the first scopes may declare only certain names there. -/
def StackWithin (size : Nat) (may : Nat → String → Prop) : Environment → List Frame → Prop
  | _, [] => True
  | here, frame :: stack =>
    (here.scope < size → frame.Within (may here.scope)) ∧
      StackWithin size may (frame.outside here) stack

/-- Of the first scopes, each gets only certain names from here on. -/
structure Config.Within (size : Nat) (may : Nat → String → Prop) (config : Config) : Prop where
  room : size ≤ config.state.store.scopes.size
  control : config.state.current.scope < size →
    config.control.Within (may config.state.current.scope)
  stack : StackWithin size may config.state.current config.stack

variable {size : Nat} {may : Nat → String → Prop} {state : State} {stack : List Frame}
  {value : Value}

section Calls

variable (room : size ≤ state.store.scopes.size) (waits : StackWithin size may state.current stack)
include room waits

theorem within_signal (signal : Signal) :
    (⟨.signal signal, stack, state⟩ : Config).Within size may := ⟨room, fun _ => trivial, waits⟩

/-- The body of a function is executed in a scope that was not there before. -/
theorem within_enterFunction (function : Function) (arguments : List Value) (line : Nat) :
    (enterFunction function arguments line stack state).Within size may := by
  have fresh : ¬ state.store.scopes.size < size := Nat.not_lt.mpr room
  refine ⟨?_, fun _ => trivial, fun old => absurd old fresh, fun _ => trivial, waits⟩
  exact Nat.le_trans room (state.store.keeps_enter function.closure _).size

omit waits in
theorem room_bindMethod (method : Function) (receiver : Instance) :
    size ≤ (state.bindMethod method receiver).2.store.scopes.size :=
  Nat.le_trans room (state.store.keeps_enter method.closure _).size

theorem within_yields {config : Config}
    (yields : Yields (fun _ => True) (fun _ => True) stack state config) :
    config.Within size may := by
  cases yields with
  | failed fault => exact within_signal room waits _
  | done _ => exact within_signal room waits _
  | @bound method receiver _ _ => exact within_signal (room_bindMethod room method receiver) waits _

theorem within_applied {arguments : List Value} {line : Nat} {config : Config}
    (applied : Applied arguments line stack state config) : config.Within size may := by
  cases applied with
  | refused fault => exact within_signal room waits _
  | native result called => cases result <;> exact ⟨room, fun _ => trivial, waits⟩
  | entered f => exact within_enterFunction room waits f arguments line
  | made c => exact ⟨room, fun _ => trivial, waits⟩
  | initialized c f =>
    have made : size ≤ (state.instantiate c).2.store.scopes.size := room
    have unmoved : StackWithin size may
        ((state.instantiate c).2.bindMethod f (state.instantiate c).1).2.current
        (.constructing (state.instantiate c).1 :: stack) := ⟨fun _ => trivial, waits⟩
    exact within_enterFunction (room_bindMethod made f _) unmoved _ arguments line

theorem within_nextArgument (callee : Value) (paren : Token) (evaluated : List Value)
    (pending : List Expr) :
    (nextArgument callee paren evaluated stack state pending).Within size may := by
  cases pending with
  | nil => exact within_applied room waits (applied_call callee paren)
  | cons first rest => exact ⟨room, fun _ => trivial, fun _ => trivial, waits⟩

theorem within_eval (e : Expr) : (eval e stack state).Within size may := by
  cases e with
  | «variable» reference | this reference =>
    exact within_yields room waits (yields_readName (.any state.store) reference)
  | super reference method =>
    exact within_yields room waits (yields_superMethod (.any state.store) reference method)
  | literal _ => exact within_signal room waits _
  | grouping _ => exact ⟨room, fun _ => trivial, waits⟩
  | unary _ _ | binary _ _ _ | logical _ _ _ | assign _ _ | call _ _ _ | get _ _ | set _ _ _ =>
    exact ⟨room, fun _ => trivial, fun _ => trivial, waits⟩

end Calls

/-! ### One step -/

/-- A class is declared where its statement stands, and the scope around its methods is left. -/
theorem within_declareClass (room : size ≤ state.store.scopes.size)
    (waits : StackWithin size may state.current stack) (name : Token)
    (superclass : Option Reference) (methods : List FunctionDecl) :
    (declareClass name superclass methods stack state).Within size may := by
  have declared (above : Option Class) :
      (Config.done .nil stack (state.declareClass name above methods)).Within size may :=
    ⟨Nat.le_trans room (keeps_declareClass state name above methods).size, fun _ => trivial, waits⟩
  simp only [declareClass]
  split
  · exact declared none
  · split
    · exact within_signal room waits _
    · exact declared _
    · exact within_signal room waits _

theorem within_exec (room : size ≤ state.store.scopes.size)
    (waits : StackWithin size may state.current stack) (s : Stmt)
    (here : state.current.scope < size → s.Within (may state.current.scope)) :
    (exec s stack state).Within size may := by
  have fresh : ¬ state.store.scopes.size < size := Nat.not_lt.mpr room
  have written (name : String) (value : Value) :
      size ≤ (state.define name value).store.scopes.size :=
    Nat.le_trans room (state.store.keeps_write _ name value).size
  cases s with
  | expression e => exact ⟨room, fun _ => trivial, waits⟩
  | print e => exact ⟨room, fun _ => trivial, fun _ => trivial, waits⟩
  | var name initializer =>
    cases initializer with
    | none => exact ⟨written _ _, fun _ => trivial, waits⟩
    | some initializer => exact ⟨room, fun _ => trivial, here, waits⟩
  | block body =>
    refine ⟨?_, fun _ => trivial, fun old => absurd old fresh, fun _ => trivial, waits⟩
    exact Nat.le_trans room (state.store.keeps_enter state.current _).size
  | conditional condition thenBranch elseBranch | loop condition body =>
    exact ⟨room, fun _ => trivial, here, waits⟩
  | function declaration => exact ⟨written _ _, fun _ => trivial, waits⟩
  | ret keyword result =>
    cases result with
    | none => exact within_signal room waits _
    | some result => exact ⟨room, fun _ => trivial, fun _ => trivial, waits⟩
  | classDecl name superclass methods => exact within_declareClass room waits name superclass methods

theorem within_proceed (room : size ≤ state.store.scopes.size) (rest : List Stmt)
    {later : List Stmt → Frame} (same : ∀ rest, (later rest).outside state.current = state.current)
    (keeps : ∀ rest may, (later rest).Within may ↔ ∀ s ∈ rest, s.Within may)
    (waits : StackWithin size may state.current (later rest :: stack)) :
    (proceed later stack state rest).Within size may := by
  obtain ⟨here, below⟩ := waits
  rw [same] at below
  cases rest with
  | nil => exact within_signal room below _
  | cons next rest =>
    have each (old : state.current.scope < size) := (keeps _ _).mp (here old)
    refine ⟨room, fun old => each old next List.mem_cons_self, fun old => ?_, ?_⟩
    · exact (keeps _ _).mpr fun s member => each old s (List.mem_cons_of_mem _ member)
    · exact (same rest).symm ▸ below

theorem within_resume (room : size ≤ state.store.scopes.size) (frame : Frame)
    (waits : StackWithin size may state.current (frame :: stack)) :
    (resume value stack state frame).Within size may := by
  have here := waits.1
  have below := waits.2
  cases frame with
  | unary operator => exact within_yields room below (yields_applyUnary operator value)
  | right first operator => exact within_yields room below (yields_applyBinary operator first value)
  | left _ _ => exact ⟨room, fun _ => trivial, fun _ => trivial, below⟩
  | again _ _ => exact ⟨room, fun _ => trivial, here, below⟩
  | logical _ _ =>
    simp only [resume]
    split
    · exact within_signal room below _
    · exact ⟨room, fun _ => trivial, below⟩
  | assign target =>
    simp only [resume, writeName]
    split
    · rename_i scope _
      have written := state.store.keeps_write scope target.name.lexeme value
      exact ⟨Nat.le_trans room written.size, fun _ => trivial, below⟩
    · exact within_signal room below _
  | callee paren arguments => exact within_nextArgument room below value paren [] arguments
  | argument called paren evaluated pending =>
    exact within_nextArgument room below called paren _ pending
  | property name =>
    exact within_yields room below (yields_getProperty (.any state.store) (.any value) name)
  | target name e =>
    simp only [resume]
    split
    · exact ⟨room, fun _ => trivial, fun _ => trivial, below⟩
    · exact within_signal room below _
  | define name =>
    have written := state.store.keeps_write state.current.scope name.lexeme value
    exact ⟨Nat.le_trans room written.size, fun _ => trivial, below⟩
  | branch thenBranch elseBranch =>
    simp only [resume]
    split
    · exact ⟨room, fun old => (here old).1, below⟩
    · split
      · exact ⟨room, fun old => (here old).2, below⟩
      · exact within_signal room below _
  | test condition body =>
    simp only [resume]
    split
    · exact ⟨room, here, here, below⟩
    · exact within_signal room below _
  | sequence rest | program rest =>
    exact within_proceed room rest (fun _ => rfl) (fun _ _ => Iff.rfl) waits
  | activation caller function line =>
    have outside : size ≤ (state.withCurrent caller).store.scopes.size := room
    exact within_yields outside below (yields_finishCall (.any _) function line .nil (.any _))
  | field _ _ | print | returning | restore _ | constructing _ =>
    exact ⟨room, fun _ => trivial, below⟩

theorem within_unwind (room : size ≤ state.store.scopes.size) (frame : Frame)
    (waits : StackWithin size may state.current (frame :: stack)) :
    (unwind value stack state frame).Within size may := by
  cases frame with
  | activation caller function line =>
    have outside : size ≤ (state.withCurrent caller).store.scopes.size := room
    exact within_yields outside waits.2 (yields_finishCall (.any _) function line value (.any _))
  | program rest => exact within_proceed room rest (fun _ => rfl) (fun _ _ => Iff.rfl) waits
  | _ => exact ⟨room, fun _ => trivial, waits.2⟩

theorem within_leave (room : size ≤ state.store.scopes.size) (fault : RuntimeFault) (frame : Frame)
    (waits : StackWithin size may state.current (frame :: stack)) :
    (Config.failed fault stack (leave state frame)).Within size may := by
  cases frame <;> exact ⟨room, fun _ => trivial, waits.2⟩

variable {config : Config}

theorem Config.Within.step (within : config.Within size may) : (step config).Within size may := by
  obtain ⟨control, stack, state⟩ := config
  obtain ⟨room, here, waits⟩ := within
  cases control with
  | eval e => exact within_eval room waits e
  | exec s => exact within_exec room waits s here
  | signal signal =>
    cases stack with
    | nil => exact ⟨room, here, waits⟩
    | cons frame stack =>
      cases signal with
      | done value => exact within_resume room frame waits
      | returned value => exact within_unwind room frame waits
      | failed fault => exact within_leave room fault frame waits

theorem Config.Within.declares {name : String} (within : config.Within size may)
    (declares : config.Declares name) (old : config.state.current.scope < size) :
    may config.state.current.scope name := by
  cases declares with
  | initialized => exact within.stack.1 old
  | blank | function | klass => exact within.control old

/-- A scope gets a name by a declaration that stands in it. An assignment finds its name there. -/
theorem Config.Within.binds_step (within : config.Within size may) {address : Nat}
    (old : address < size) {name : String}
    (bound : (Machine.step config).state.store.binds name address) :
    config.state.store.binds name address ∨ may address name := by
  by_cases declared : config.Declares name ∧ config.state.current.scope = address
  · obtain ⟨declares, rfl⟩ := declared
    exact .inr (within.declares declares old)
  by_cases assigned : ∃ target, config.Assigns target address ∧ target.name.lexeme = name
  · obtain ⟨target, assigns, rfl⟩ := assigned
    cases assigns with
    | found there => exact .inl (State.slot?_binds there)
  · have same := lookup?_step (Nat.lt_of_lt_of_le old within.room) declared
      fun target assigns word => assigned ⟨target, assigns, word⟩
    rw [Store.binds, same] at bound
    exact .inl bound

/-! ### Whole runs -/

theorem Config.Within.advance (within : config.Within size may) (steps : Nat) :
    config.state.store.Gains size may (Machine.advance steps config).state.store := by
  induction steps generalizing config with
  | zero => exact .refl _
  | succ steps ih =>
    unfold Machine.advance
    split
    · exact .refl _
    · obtain ⟨keeps, gains⟩ := ih within.step
      refine ⟨fun address old name bound => ?_, fun address old name bound => ?_⟩
      · exact keeps address old name ((keeps_step config).binds name address bound)
      · rcases gains address old name bound with earlier | allowed
        · exact within.binds_step old earlier
        · exact .inr allowed

/-- What starts in a state and declares nothing where it stands: an expression, a call, or a statement
that is no declaration. -/
inductive Config.Undeclaring (state : State) : Config → Prop
  | expression (e : Expr) : Config.Undeclaring state (evaluating e state)
  | call (callee : Value) (arguments : List Value) (line : Nat) :
    Config.Undeclaring state (applying callee arguments line state)
  | statement {good : Token → Prop} {s : Stmt} (proper : s.Proper good)
      (undeclared : s.declared? = none) : Config.Undeclaring state (executing s state)

theorem Config.Undeclaring.within (starts : config.Undeclaring state) :
    config.Within state.store.scopes.size (fun _ _ => False) := by
  cases starts with
  | expression e => exact ⟨Nat.le_refl _, fun _ => trivial, trivial⟩
  | call callee arguments line =>
    have waits : StackWithin state.store.scopes.size (fun _ _ => False) state.current [] := trivial
    exact within_applied (Nat.le_refl _) waits (applied_apply callee)
  | statement proper undeclared =>
    exact ⟨Nat.le_refl _, fun _ => proper.within _ (by simp [undeclared]), trivial⟩

/-- A call starts with a scope of its own. -/
theorem Config.Undeclaring.steady (starts : config.Undeclaring state) :
    state.store.Steady config.state.store := by
  cases starts with
  | expression _ | statement _ _ => exact .refl _
  | call callee arguments line => exact steady_applied (applied_apply callee)

theorem Config.Undeclaring.advance (starts : config.Undeclaring state) (steps : Nat) :
    state.store.Same state.store.scopes.size (Machine.advance steps config).state.store := by
  obtain ⟨keeps, gains⟩ := starts.within.advance steps
  intro address old name
  have same : config.state.store.binds name address = state.store.binds name address :=
    congrArg Option.isSome (starts.steady.same address old name)
  rw [Bool.eq_iff_iff, ← same]
  exact ⟨fun bound => (gains address old name bound).resolve_right id, keeps address old name⟩

theorem within_executing {good : Token → Prop} {s : Stmt} {declared : Token}
    (proper : s.Proper good) (declares : s.declared? = some declared) (state : State) :
    (executing s state).Within state.store.scopes.size
      fun address name => address = state.current.scope ∧ name = declared.lexeme := by
  refine ⟨Nat.le_refl _, fun _ => proper.within _ fun name same => ⟨rfl, ?_⟩, trivial⟩
  rw [Option.some.inj (declares.symm.trans same)]

/-- The declarations at the top of a program are those that may bind something globally. -/
theorem within_interpreting {good : Token → Prop} {program : List Stmt}
    (proper : stmtsProper good program) (state : State) :
    (interpreting program state).Within state.store.scopes.size fun address name =>
      address = state.current.scope ∧ ∃ s ∈ program, ∃ declared, s.declared? = some declared ∧
        declared.lexeme = name := by
  refine ⟨Nat.le_refl _, fun _ => trivial, fun _ s member => ?_, trivial⟩
  exact (stmtsProper_mem proper member).within s fun name same => ⟨rfl, s, member, name, same, rfl⟩

end Machine

/-! ### Sessions -/

theorem Bindings.mem_names {α : Type} (bindings : Bindings α) (name : String) :
    name ∈ bindings.names ↔ bindings.contains name := by
  obtain ⟨entries⟩ := bindings
  simp only [names, contains, find?]
  induction entries with
  | nil => simp
  | cons entry rest ih =>
    obtain ⟨key, value⟩ := entry
    by_cases same : name = key <;> simp [Bindings.lookup_cons, same, ih]

theorem Session.mem_globalNames (session : Session) (name : String) :
    name ∈ session.globalNames ↔ session.machine.store.binds name globals.scope := by
  unfold Session.globalNames Store.names Store.binds Store.lookup?
  cases session.machine.store.scopes[globals.scope]? with
  | none => simp
  | some scope => exact scope.mem_names name

/-- A declaration at the top of a text has this name. -/
def Session.Declares (session : Session) (source name : String) : Prop :=
  ∃ program, (session.parsed source).result = .ok program ∧
    ∃ s ∈ program, ∃ declared, s.declared? = some declared ∧ declared.lexeme = name

theorem Session.gains_run {session after : Session} {steps : Nat} {source : String}
    (ran : session.run steps source = some after) :
    session.machine.store.Gains session.machine.store.scopes.size
      (fun address name => address = session.machine.current.scope ∧ session.Declares source name)
      after.machine.store := by
  have gated := session.gated_prepare source
  unfold run at ran
  split at ran
  · rename_i refused prepared
    cases ran
    obtain ⟨table, machine⟩ := prepare_machine prepared
    rw [machine]
    exact .refl _
  · rename_i begun program prepared
    obtain ⟨table, machine⟩ := prepare_machine prepared
    obtain ⟨⟨signal, final⟩, ended, rfl⟩ := Option.map_eq_some_iff.mp ran
    rw [prepared] at gated
    have parsed : (session.parsed source).result = .ok program := by
      cases gated with
      | accepted passes => exact passes.parsed
    have proper := (Tree.parse_read (Source.tokens_genuine source) parsed).2.proper
    obtain ⟨keeps, gains⟩ := (within_interpreting proper begun.machine).advance steps
    rw [run_eq_advance] at ended
    rw [eq_of_finished ended, machine] at keeps gains
    rw [(begun.settle_same (signal, final)).1]
    refine ⟨keeps, fun address old name bound => ?_⟩
    exact (gains address old name bound).imp_right fun ⟨here, declared⟩ =>
      ⟨here, program, parsed, declared⟩

/-- Evaluating an expression, calling a value, and executing a statement that is no declaration add no
name to a scope that was there before, and take none away, however far they come and however they
end. A declaration adds at most its name, and only to the scope it stands in. So after a text there
are the global names from before it and of others only those declared at its top. -/
theorem names_declared (hosts : HostFunction → Prop) :
    (∀ tokens first program, (Tree.parse tokens first).result = .ok program →
      stmtsProper (fun _ => True) program) ∧
    (∀ state config, Config.Undeclaring state config → ∀ steps,
      state.store.Same state.store.scopes.size (advance steps config).state.store ∧
        ∀ floor, ∃ count, advance count (config.over floor) = (advance steps config).over floor) ∧
    (∀ good s declared, Stmt.Proper good s → s.declared? = some declared → ∀ state steps,
      state.store.Gains state.store.scopes.size
        (fun address name => address = state.current.scope ∧ name = declared.lexeme)
        (advance steps (executing s state)).state.store ∧
      ∀ floor, ∃ count, advance count ((executing s state).over floor) =
        (advance steps (executing s state)).over floor) ∧
    ∀ session steps source after, Reachable hosts (.idle session) →
      session.run steps source = some after →
        (∀ name ∈ session.globalNames, name ∈ after.globalNames) ∧
        ∀ name ∈ after.globalNames, name ∈ session.globalNames ∨ session.Declares source name := by
  refine ⟨?_, ?_, ?_, ?_⟩
  · intro tokens first program parsed
    exact (Tree.parse_read (fun _ _ => trivial) parsed).2.proper
  · intro state config starts steps
    exact ⟨starts.advance steps, fun floor => advance_over floor steps config⟩
  · intro good s declared proper declares state steps
    exact ⟨(within_executing proper declares state).advance steps,
      fun floor => advance_over floor steps _⟩
  · intro session steps source after reached ran
    obtain ⟨keeps, gains⟩ := session.gains_run ran
    simp only [Session.mem_globalNames]
    exact ⟨keeps globals.scope reached.rooted,
      fun name bound => (gains globals.scope reached.rooted name bound).imp_right And.right⟩

/-- A call that fails, a declaration, and a text that declares one name at its top and one in a block. -/
theorem names_declared_of_call : ∃ (called : Function) (state : State) (s : Stmt) (next : Session),
    state.store.Same state.store.scopes.size
      (advance 20 (applying (.function called) [] 1 state)).state.store ∧
    (advance 20 (applying (.function called) [] 1 state)).control =
      .signal (.failed (.typeMismatch .number 1)) ∧
    state.store.Gains state.store.scopes.size
      (fun address name => address = state.current.scope ∧ name = "a")
      (advance 20 (executing s state)).state.store ∧
    (Session.start (fun _ => 0) false).run 40 "var a;\x7bvar b;\x7d" = some next ∧
    "clock" ∈ next.globalNames ∧ "b" ∉ next.globalNames := by
  let a : Token := ⟨.identifier, "a", 1⟩
  let fault : Stmt := .expression (.unary ⟨.symbol .minus, "-", 1⟩ (.literal .nil))
  let called : Function :=
    ⟨0, ⟨⟨.identifier, "f", 1⟩, [], [.var a none, fault]⟩, ⟨0, []⟩, false⟩
  let first := Session.start (fun _ => 0) false
  have ran : (first.run 40 "var a;\x7bvar b;\x7d").isSome := by cbv
  have before : first.globalNames = ["clock"] := by cbv
  obtain ⟨next, ran⟩ := Option.isSome_iff_exists.mp ran
  obtain ⟨_, quiet, declaring, sessions⟩ := names_declared fun _ => True
  have proper : Stmt.Proper (fun _ => True) (.var a none) := ⟨⟨rfl, trivial⟩, trivial⟩
  obtain ⟨kept, gained⟩ := sessions first _ _ next ⟨_, _, .refl _⟩ ran
  refine ⟨called, first.machine, .var a none, next, ?_, by cbv, ?_, ran, ?_, fun bound => ?_⟩
  · exact (quiet _ _ (.call (.function called) [] 1) 20).1
  · exact (declaring _ _ a proper rfl first.machine 20).1
  · exact kept "clock" (by simp [before])
  · rcases gained "b" bound with earlier | ⟨program, parsed, s, member, name, declares, same⟩
    · simp [before] at earlier
    · have read : (first.parsed "var a;\x7bvar b;\x7d").result =
          .ok [.var a none, .block [.var ⟨.identifier, "b", 1⟩ none]] := by cbv
      cases Except.ok.inj (read.symm.trans parsed)
      rcases List.mem_pair.mp member with rfl | rfl
      · cases declares
        exact absurd same (by decide)
      · cases declares

end Lox
