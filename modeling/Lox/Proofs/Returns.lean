import Mathlib
import Lox.Proofs.Permanent
import Lox.Proofs.Places

/-! Returns. The walk allows them in bodies only, and in initializers without a value; a return that
is carried out takes the statements around it off the stack, and with them its own call. -/

namespace Lox

open Resolution Machine

/-! ### What a body may return with -/

inductive Allowance
  /-- Outside of all bodies. -/
  | none
  /-- In an initializer. -/
  | bare
  | anything
deriving DecidableEq

namespace Allowance

/-- Whether a return may stand here, with a value or without. -/
def Grants : Allowance → Bool → Prop
  | none, _ => False
  | bare, valued => valued = false
  | anything, _ => True

/-- Whether a value may be on its way out. -/
def Admits : Allowance → Value → Prop
  | none, _ => False
  | bare, value => value = .nil
  | anything, _ => True

variable {allowance : Allowance}

theorem Grants.bare (grants : allowance.Grants false) : allowance.Admits .nil := by
  cases allowance with
  | none => exact grants
  | bare => rfl
  | anything => trivial

theorem Grants.valued (grants : allowance.Grants true) (value : Value) :
    allowance.Admits value := by
  cases allowance with
  | none => exact grants
  | bare => cases grants
  | anything => trivial

end Allowance

def Resolution.FunctionRole.allowance : FunctionRole → Allowance
  | .none => .none
  | .initializer => .bare
  | .function | .method => .anything

def Function.allowance (f : Function) : Allowance := if f.isInitializer then .bare else .anything

mutual

/-- Every return in a statement is one its body allows. -/
def Stmt.Obeys (allowance : Allowance) : Stmt → Prop
  | .ret _ value => allowance.Grants value.isSome
  | .block body => stmtsObey allowance body
  | .conditional _ thenBranch elseBranch =>
    thenBranch.Obeys allowance ∧ branchObeys allowance elseBranch
  | .loop _ body => body.Obeys allowance
  | .function declaration => declaration.Obeys .anything
  | .classDecl _ _ methods => methodsObey methods
  | .expression _ | .print _ | .var _ _ => True

def stmtsObey (allowance : Allowance) : List Stmt → Prop
  | [] => True
  | first :: rest => first.Obeys allowance ∧ stmtsObey allowance rest

def branchObeys (allowance : Allowance) : Option Stmt → Prop
  | none => True
  | some s => s.Obeys allowance

def FunctionDecl.Obeys (allowance : Allowance) : FunctionDecl → Prop
  | ⟨_, _, body⟩ => stmtsObey allowance body

def methodsObey : List FunctionDecl → Prop
  | [] => True
  | first :: rest => first.Obeys (methodRole first).allowance ∧ methodsObey rest

end

/-! ### Accepted programs -/

namespace Resolution

theorem grants_useReturn {walk : Walk} {keyword : Token} {valued : Bool}
    (clean : (walk.useReturn keyword valued).faults = []) :
    walk.functionRole.allowance.Grants valued := by
  unfold Walk.useReturn at clean
  have plain := Walk.complainIf_clean clean
  have inside := Walk.complainIf_clean ((Walk.grows_complainIf _ _ _ : Walk.Grows [] _ _).clean clean)
  cases role : walk.functionRole with
  | none => simp [role] at inside
  | initializer =>
    simp only [role, Bool.and_true, decide_true] at plain
    exact plain
  | function | method => trivial

mutual

theorem visitStmt_obeys : (s : Stmt) → (walk : Walk) → (visitStmt s walk).faults = [] →
    s.Obeys walk.functionRole.allowance
  | .expression _, _, _ | .print _, _, _ | .var _ _, _, _ => trivial
  | .block body, walk, clean => visitStmts_obeys body (walk.enter .empty) clean
  | .conditional condition thenBranch elseBranch, walk, clean => by
    have before := (visitExpr_stays condition walk).toReturns
    have between := before.trans (visitStmt_returns thenBranch _)
    have first := visitStmt_obeys thenBranch _ ((visitStmtIfAny_grows 0 elseBranch _).clean clean)
    have second := visitStmtIfAny_obeys elseBranch _ clean
    rw [before.functionRole] at first
    rw [between.functionRole] at second
    exact ⟨first, second⟩
  | .loop condition body, walk, clean => by
    have inside := visitStmt_obeys body _ clean
    rwa [(visitExpr_stays condition walk).functionRole] at inside
  | .function declaration, walk, clean => visitFunction_obeys .function declaration _ clean
  | .ret keyword value, walk, clean =>
    grants_useReturn ((visitExprIfAny_grows 0 value _).clean clean)
  | .classDecl name superclass methods, walk, clean =>
    have left : Walk.Grows [] _ _ := grows_leaveClass superclass walk _
    visitFunctions_obeys methods (enterClass name superclass walk) (left.clean clean)

theorem visitStmts_obeys : (body : List Stmt) → (walk : Walk) →
    (visitStmts body walk).faults = [] → stmtsObey walk.functionRole.allowance body
  | [], _, _ => trivial
  | first :: rest, walk, clean => by
    have here := visitStmt_obeys first walk ((visitStmts_grows 0 rest _).clean clean)
    have later := visitStmts_obeys rest _ clean
    rw [(visitStmt_returns first walk).functionRole] at later
    exact ⟨here, later⟩

theorem visitStmtIfAny_obeys : (s : Option Stmt) → (walk : Walk) →
    (visitStmtIfAny s walk).faults = [] → branchObeys walk.functionRole.allowance s
  | none, _, _ => trivial
  | some s, walk, clean => visitStmt_obeys s walk clean

theorem visitFunction_obeys (role : FunctionRole) : (f : FunctionDecl) → (walk : Walk) →
    (visitFunction role f walk).faults = [] → f.Obeys role.allowance
  | ⟨_, params, body⟩, walk, clean => by
    have inside := visitStmts_obeys body (enterFunction role params walk) clean
    have entered := returns_binds params ({ walk with functionRole := role }.enter .empty)
    rwa [enterFunction, entered.functionRole] at inside

theorem visitFunctions_obeys : (fs : List FunctionDecl) → (walk : Walk) →
    (visitFunctions fs walk).faults = [] → methodsObey fs
  | [], _, _ => trivial
  | first :: rest, walk, clean =>
    ⟨visitFunction_obeys (methodRole first) first walk ((visitFunctions_grows 0 rest _).clean clean),
      visitFunctions_obeys rest _ clean⟩

end

theorem resolve_obeys {program : List Stmt} {table : List (Nat × Nat)}
    (accepted : resolve program = .ok table) : stmtsObey .none program :=
  visitStmts_obeys program .start (walk_of_resolve accepted).1

end Resolution

theorem methodsObey_mem {methods : List FunctionDecl} (obey : methodsObey methods) :
    ∀ method ∈ methods, method.Obeys (methodRole method).allowance := by
  induction methods with
  | nil => exact List.forall_mem_nil _
  | cons first rest ih =>
    obtain ⟨here, later⟩ := obey
    exact List.forall_mem_cons.mpr ⟨here, ih later⟩

/-! ### What a run holds -/

/-- A function returns as it may, wherever it was made. -/
def Function.Obeys (f : Function) : Prop := f.declaration.Obeys f.allowance

abbrev Value.Obeys (value : Value) : Prop := value.Holds Function.Obeys Function.Obeys

namespace Machine

/-- What a return may give, by the call that is innermost on a stack. -/
def allowanceOf : List Frame → Allowance
  | [] | .program _ :: _ => .none
  | .activation _ f _ :: _ => f.allowance
  | _ :: stack => allowanceOf stack

/-- The frame of a statement around others: a sequence, a block or a loop. -/
def Frame.Encloses : Frame → Prop
  | .sequence _ | .restore _ | .again _ _ => True
  | _ => False

/-- Only statements stand between here and the innermost call, or the program outside of all. -/
def Standing : List Frame → Prop
  | [] | .program _ :: _ | .activation .. :: _ => True
  | .sequence _ :: stack | .restore _ :: stack | .again _ _ :: stack => Standing stack
  | _ => False

def Frame.Obeys (stack : List Frame) : Frame → Prop
  | .print | .define _ | .restore _ => Standing stack
  | .branch thenBranch elseBranch => Standing stack ∧ thenBranch.Obeys (allowanceOf stack) ∧
    branchObeys (allowanceOf stack) elseBranch
  | .test _ body | .again _ body => Standing stack ∧ body.Obeys (allowanceOf stack)
  | .returning => Standing stack ∧ (allowanceOf stack).Grants true
  | .sequence rest => Standing stack ∧ stmtsObey (allowanceOf stack) rest
  | .program rest => stmtsObey .none rest
  | _ => True

def StackObeys : List Frame → Prop
  | [] => True
  | frame :: stack =>
    frame.Obeys stack ∧ frame.Holds Function.Obeys Function.Obeys ∧ StackObeys stack

structure State.Obeys (state : State) : Prop where
  honest : ∀ act ∈ state.hosts, Honest act
  holds : state.store.Holds Function.Obeys Function.Obeys

/-- A return on its way out has come from a body that allows it. -/
def Control.Obeys (stack : List Frame) : Control → Prop
  | .exec s => Standing stack ∧ s.Obeys (allowanceOf stack)
  | .signal (.returned value) => Standing stack ∧ (allowanceOf stack).Admits value
  | .eval _ | .signal (.done _) | .signal (.failed _) => True

structure Obeying (state : State) (stack : List Frame) : Prop where
  state : state.Obeys
  waits : StackObeys stack

structure Config.Obeys (config : Config) : Prop where
  obeying : Obeying config.state config.stack
  control : config.control.Obeys config.stack
  value : config.control.Holds Function.Obeys Function.Obeys

/-! ### Operations -/

section Operations

variable {state after : State} {stack : List Frame} {value : Value}

theorem Obeying.withState (obeying : Obeying state stack) (obeys : after.Obeys) :
    Obeying after stack := ⟨obeys, obeying.waits⟩

theorem Obeying.done (obeying : Obeying state stack) (held : value.Obeys) :
    (Config.done value stack state).Obeys := ⟨obeying, trivial, held⟩

theorem Obeying.failed (obeying : Obeying state stack) (fault : RuntimeFault) :
    (Config.failed fault stack state).Obeys := ⟨obeying, trivial, trivial⟩

theorem Obeying.eval (obeying : Obeying state stack) (e : Expr) :
    Config.Obeys ⟨.eval e, stack, state⟩ := ⟨obeying, trivial, trivial⟩

/-- An expression is evaluated under a frame that waits for its value. -/
theorem Obeying.under (obeying : Obeying state stack) (e : Expr) {frame : Frame}
    (obeys : frame.Obeys stack) (held : frame.Holds Function.Obeys Function.Obeys) :
    Config.Obeys ⟨.eval e, frame :: stack, state⟩ :=
  ⟨⟨obeying.state, obeys, held, obeying.waits⟩, trivial, trivial⟩

theorem State.Obeys.write (obeys : state.Obeys) (held : value.Obeys) (scope : Nat)
    (name : String) : (state.write scope name value).Obeys :=
  ⟨obeys.honest, obeys.holds.write held scope name⟩

theorem State.Obeys.define (obeys : state.Obeys) (held : value.Obeys) (name : String) :
    (state.define name value).Obeys :=
  obeys.write held state.current.scope name

theorem State.Obeys.enter (obeys : state.Obeys) {bindings : Bindings Value}
    (held : ∀ name value, bindings.find? name = some value → value.Obeys) (outer : Environment) :
    (state.enter outer bindings).Obeys :=
  ⟨obeys.honest, obeys.holds.enter held outer⟩

theorem State.Obeys.withCurrent (obeys : state.Obeys) (environment : Environment) :
    (state.withCurrent environment).Obeys := ⟨obeys.honest, obeys.holds⟩

/-- A method is the same function in the scope of its receiver. -/
theorem State.Obeys.bindMethod (obeys : state.Obeys) {receiver : Instance}
    (given : (Value.object receiver).Obeys) (method : Function) :
    (state.bindMethod method receiver).2.Obeys :=
  ⟨obeys.honest,
    obeys.holds.enter (fun _ _ found => Bindings.eq_of_find?_single found ▸ given) method.closure⟩

theorem Obeying.yields (obeying : Obeying state stack) {config : Config}
    (yields : Yields Function.Obeys Function.Obeys stack state config) : config.Obeys := by
  cases yields with
  | failed fault => exact obeying.failed fault
  | done held => exact obeying.done held
  | bound obeys given => exact (obeying.withState (obeying.state.bindMethod given _)).done obeys

/-! ### Calls -/

theorem Obeying.enterFunction (obeying : Obeying state stack) {f : Function} (obeys : f.Obeys)
    {arguments : List Value} (given : ∀ value ∈ arguments, value.Obeys) (line : Nat) :
    (enterFunction f arguments line stack state).Obeys := by
  obtain ⟨identity, ⟨name, params, body⟩, closure, isInitializer⟩ := f
  have entered : (state.enter closure (parameterBindings params arguments)).Obeys :=
    obeying.state.enter (fun _ _ found => given _ (parameterBindings_given found)) closure
  exact ⟨⟨entered, ⟨trivial, obeys⟩, trivial, trivial, trivial, obeying.waits⟩, trivial, trivial⟩

theorem Obeying.callNative (obeying : Obeying state stack) {native : Native}
    {arguments : List Value} (given : ∀ value ∈ arguments, value.Obeys)
    (arity : arguments.length = native.arity) (line : Nat) :
    (callNative native arguments line stack state).Obeys := by
  have called : (state.callHost native arguments).2.Obeys :=
    ⟨obeying.state.honest, obeying.state.holds⟩
  exact (obeying.withState called).yields
    (yields_callNative arity (fun _ answers => answers.holds obeying.state.honest given) line)

theorem Obeying.construct (obeying : Obeying state stack) {c : Class}
    (holds : c.Holds Function.Obeys) {arguments : List Value}
    (given : ∀ value ∈ arguments, value.Obeys) (line : Nat) :
    (construct c arguments line stack state).Obeys := by
  have made : (state.instantiate c).2.Obeys :=
    ⟨obeying.state.honest, obeying.state.holds.instantiate c⟩
  have object : (Value.object (state.instantiate c).1).Obeys := holds
  unfold Machine.construct
  dsimp only
  cases initializer : c.initializer? with
  | none => exact (obeying.withState made).done object
  | some method =>
    have obeys : method.Obeys := holds.findMethod? initializer
    have bound := made.bindMethod object method
    have waiting : Obeying _ (.constructing (state.instantiate c).1 :: stack) :=
      ⟨bound, trivial, object, obeying.waits⟩
    let bound := ((state.instantiate c).2.bindMethod method (state.instantiate c).1).1
    exact waiting.enterFunction (f := bound) obeys given line

theorem Obeying.apply (obeying : Obeying state stack) {callee : Value} (held : callee.Obeys)
    {arguments : List Value} (given : ∀ value ∈ arguments, value.Obeys)
    (arity : callee.arity? = some arguments.length) (line : Nat) :
    (apply callee arguments line stack state).Obeys := by
  cases callee with
  | function f => exact obeying.enterFunction held given line
  | native native => exact obeying.callNative given (Option.some.inj arity).symm line
  | klass c => exact obeying.construct held given line
  | nil | bool _ | number _ | string _ | object _ => exact obeying.failed _

theorem Obeying.nextArgument (obeying : Obeying state stack) {callee : Value}
    (held : callee.Obeys) (paren : Token) {evaluated : List Value}
    (given : ∀ value ∈ evaluated, value.Obeys) (pending : List Expr) :
    (nextArgument callee paren evaluated stack state pending).Obeys := by
  cases pending with
  | cons first rest => exact obeying.under first trivial ⟨held, given⟩
  | nil =>
    simp only [Machine.nextArgument, Machine.call]
    split
    · exact obeying.failed _
    · rename_i arity
      split
      · rename_i same
        exact obeying.apply held (fun value member => given value (List.mem_reverse.mp member))
          (by rw [arity, same]) _
      · exact obeying.failed _

/-! ### Names -/

theorem Obeying.writeName (obeying : Obeying state stack) (target : Reference)
    (held : value.Obeys) : (writeName target value stack state).Obeys := by
  unfold Machine.writeName
  cases state.slot? target with
  | none => exact obeying.failed _
  | some scope => exact (obeying.withState (obeying.state.write held scope _)).done held

theorem Obeying.step_eval (obeying : Obeying state stack) (e : Expr) :
    (Machine.eval e stack state).Obeys := by
  cases e with
  | literal literal => exact obeying.done (Value.holds_ofLiteral literal)
  | grouping inner => exact obeying.eval inner
  | «variable» reference | this reference =>
    exact obeying.yields (yields_readName obeying.state.holds reference)
  | super reference method =>
    exact obeying.yields (yields_superMethod obeying.state.holds reference method)
  | unary _ operand => exact obeying.under operand trivial trivial
  | binary left _ _ | logical left _ _ => exact obeying.under left trivial trivial
  | assign _ value => exact obeying.under value trivial trivial
  | call callee _ _ => exact obeying.under callee trivial trivial
  | get object _ | set object _ _ => exact obeying.under object trivial trivial

/-! ### Statements -/

theorem Obeying.define (obeying : Obeying state stack) (name : String) (held : value.Obeys) :
    (Config.done .nil stack (state.define name value)).Obeys :=
  (obeying.withState (obeying.state.define held name)).done trivial

theorem Obeying.declareFunction (obeying : Obeying state stack) {declaration : FunctionDecl}
    (obeys : declaration.Obeys .anything) : (declareFunction declaration stack state).Obeys := by
  have closed : Obeying (state.close declaration false).2 stack :=
    ⟨⟨obeying.state.honest, obeying.state.holds⟩, obeying.waits⟩
  exact closed.define _ obeys

/-- The methods of a class are closed as what the walk took them for. -/
theorem obeys_method {declaration : FunctionDecl} {identity : Nat} {closure : Environment}
    (obeys : declaration.Obeys (methodRole declaration).allowance) :
    Function.Obeys ⟨identity, declaration, closure, declaration.isInitializer⟩ := by
  unfold methodRole at obeys
  unfold Function.Obeys Function.allowance
  cases flagged : declaration.isInitializer with
  | true =>
    rw [flagged] at obeys
    exact obeys
  | false =>
    rw [flagged] at obeys
    exact obeys

theorem State.Obeys.enterSuper (obeys : state.Obeys) {above : Option Class}
    (holds : ∀ c, above = some c → c.Holds Function.Obeys) : (state.enterSuper above).Obeys := by
  cases above with
  | none => exact obeys
  | some c =>
    have given : (Value.klass c).Obeys := holds c rfl
    exact obeys.enter (fun _ _ found => Bindings.eq_of_find?_single found ▸ given) state.current

theorem State.Obeys.declareClass (obeys : state.Obeys) (name : Token) {above : Option Class}
    (holds : ∀ c, above = some c → c.Holds Function.Obeys) {methods : List FunctionDecl}
    (obey : methodsObey methods) : (state.declareClass name above methods).Obeys := by
  obtain ⟨born, own, declares, whole⟩ := state.declareClass_eq name above methods
  let outside : State := { state.enterSuper above with current := state.current, born }
  have entered := obeys.enterSuper holds
  have left : outside.Obeys := ⟨entered.honest, entered.holds⟩
  let value : Value := .klass ⟨own, (above.map Class.layers).getD []⟩
  have made : value.Obeys :=
    declared_holds declares
      (fun _ declaration member => obeys_method (methodsObey_mem obey declaration member)) holds
  rw [whole]
  exact left.define made name.lexeme

theorem Obeying.declareClass (obeying : Obeying state stack) (name : Token)
    (superclass : Option Reference) {methods : List FunctionDecl} (obey : methodsObey methods) :
    (declareClass name superclass methods stack state).Obeys := by
  unfold Machine.declareClass
  cases superclass with
  | none => exact (obeying.withState (obeying.state.declareClass name (by simp) obey)).done trivial
  | some reference =>
    dsimp only
    split
    · exact obeying.failed _
    · rename_i above found
      have holds : ∀ c, some above = some c → c.Holds Function.Obeys := by
        intro c same
        cases same
        exact lookup?_holds obeying.state.holds found
      exact (obeying.withState (obeying.state.declareClass name holds obey)).done trivial
    · exact obeying.failed _

theorem Obeying.step_exec (obeying : Obeying state stack) {s : Stmt} (standing : Standing stack)
    (obeys : s.Obeys (allowanceOf stack)) : (Machine.exec s stack state).Obeys := by
  cases s with
  | expression e => exact obeying.eval e
  | print e => exact obeying.under e standing trivial
  | var name initializer =>
    cases initializer with
    | none => exact obeying.define _ trivial
    | some initializer => exact obeying.under initializer standing trivial
  | block body =>
    have entered : (state.enter state.current .empty).Obeys := by
      refine obeying.state.enter ?_ _
      intro name value found
      cases found
    exact ⟨⟨entered, ⟨standing, obeys⟩, trivial, standing, trivial, obeying.waits⟩, trivial,
      trivial⟩
  | conditional condition thenBranch elseBranch =>
    exact obeying.under condition ⟨standing, obeys⟩ trivial
  | loop condition body => exact obeying.under condition ⟨standing, obeys⟩ trivial
  | function declaration => exact obeying.declareFunction obeys
  | ret keyword result =>
    cases result with
    | none => exact ⟨obeying, ⟨standing, obeys.bare⟩, trivial⟩
    | some result => exact obeying.under result ⟨standing, obeys⟩ trivial
  | classDecl name superclass methods => exact obeying.declareClass name superclass obeys

/-! ### One step -/

theorem Obeying.exec (obeying : Obeying state stack) {s : Stmt} (standing : Standing stack)
    (obeys : s.Obeys (allowanceOf stack)) : Config.Obeys ⟨.exec s, stack, state⟩ :=
  ⟨obeying, ⟨standing, obeys⟩, trivial⟩

theorem Obeying.resume {frame : Frame} (obeying : Obeying state (frame :: stack))
    (held : value.Obeys) : (resume value stack state frame).Obeys := by
  obtain ⟨obeys, here, holds, waits⟩ := obeying
  have below : Obeying state stack := ⟨obeys, waits⟩
  cases frame with
  | unary operator => exact below.yields (yields_applyUnary operator value)
  | right left operator => exact below.yields (yields_applyBinary operator left value)
  | left operator right => exact below.under right trivial held
  | logical operator right =>
    simp only [Machine.resume]
    split
    · exact below.done held
    · exact below.eval right
  | assign target => exact below.writeName target held
  | callee paren arguments => exact below.nextArgument held paren (by simp) arguments
  | argument called paren evaluated pending =>
    exact below.nextArgument holds.1 paren (List.forall_mem_cons.mpr ⟨held, holds.2⟩) pending
  | property name => exact below.yields (yields_getProperty obeys.holds held name)
  | target name e =>
    simp only [Machine.resume]
    split
    · exact below.under e trivial held
    · exact below.failed _
  | field object name =>
    have written : (state.setField object name.lexeme value).Obeys :=
      ⟨obeys.honest, obeys.holds.setField held object name.lexeme⟩
    exact (below.withState written).done held
  | print =>
    have printed : (state.print value.text).Obeys := ⟨obeys.honest, obeys.holds⟩
    exact (below.withState printed).done trivial
  | define name => exact below.define name.lexeme held
  | branch thenBranch elseBranch =>
    obtain ⟨standing, first, second⟩ := here
    simp only [Machine.resume]
    split
    · exact below.exec standing first
    · cases elseBranch with
      | none => exact below.done trivial
      | some elseBranch => exact below.exec standing second
  | test condition body =>
    simp only [Machine.resume]
    split
    · exact ⟨⟨obeys, here, trivial, waits⟩, here, trivial⟩
    · exact below.done trivial
  | again condition body => exact below.under condition here trivial
  | returning => exact ⟨below, ⟨here.1, here.2.valued value⟩, held⟩
  | sequence rest =>
    cases rest with
    | nil => exact below.done trivial
    | cons next rest =>
      obtain ⟨standing, first, later⟩ := here
      exact ⟨⟨obeys, ⟨standing, later⟩, trivial, waits⟩, ⟨standing, first⟩, trivial⟩
  | program rest =>
    cases rest with
    | nil => exact below.done trivial
    | cons next rest => exact ⟨⟨obeys, here.2, trivial, waits⟩, ⟨trivial, here.1⟩, trivial⟩
  | restore previous => exact (below.withState (obeys.withCurrent previous)).done trivial
  | activation caller f line =>
    have outside := obeys.withCurrent caller
    exact (below.withState outside).yields (yields_finishCall outside.holds f line .nil trivial)
  | constructing made => exact below.done holds

theorem leave_obeys (obeys : state.Obeys) (frame : Frame) : (leave state frame).Obeys := by
  cases frame with
  | restore previous => exact obeys.withCurrent previous
  | activation caller _ _ => exact obeys.withCurrent caller
  | _ => exact obeys

/-- A return goes on through the statements around it, up to the end of the call. -/
theorem Obeying.unwind {frame : Frame} (obeying : Obeying state (frame :: stack))
    (standing : Standing (frame :: stack)) (admits : (allowanceOf (frame :: stack)).Admits value)
    (held : value.Obeys) : (unwind value stack state frame).Obeys := by
  obtain ⟨obeys, _, _, waits⟩ := obeying
  cases frame with
  | sequence _ | again _ _ => exact ⟨⟨obeys, waits⟩, ⟨standing, admits⟩, held⟩
  | restore previous =>
    exact ⟨⟨obeys.withCurrent previous, waits⟩, ⟨standing, admits⟩, held⟩
  | activation caller f line =>
    have outside : Obeying (state.withCurrent caller) stack := ⟨obeys.withCurrent caller, waits⟩
    exact outside.yields (yields_finishCall outside.state.holds f line value held)
  | program rest => exact admits.elim
  | _ => exact standing.elim

theorem Config.Obeys.step {config : Config} (obeys : config.Obeys) : (step config).Obeys := by
  obtain ⟨control, stack, state⟩ := config
  obtain ⟨obeying, here, held⟩ := obeys
  cases control with
  | eval e => exact obeying.step_eval e
  | exec s => exact obeying.step_exec here.1 here.2
  | signal signal =>
    cases stack with
    | nil => exact ⟨obeying, here, held⟩
    | cons frame stack =>
      cases signal with
      | done value => exact obeying.resume held
      | returned value => exact obeying.unwind here.1 here.2 held
      | failed fault =>
        exact ⟨⟨leave_obeys obeying.state frame, obeying.waits.2.2⟩, trivial, trivial⟩

theorem Config.Obeys.advance {config : Config} (obeys : config.Obeys) (steps : Nat) :
    (Machine.advance steps config).Obeys := by
  induction steps generalizing config with
  | zero => exact obeys
  | succ steps ih =>
    unfold Machine.advance
    split
    · exact obeys
    · exact ih obeys.step

end Operations

/-! ### On the way out -/

section Unwinding

variable {stack above below : List Frame} {state : State} {value : Value} {caller : Environment}
  {f : Function} {line : Nat}

/-- Around a statement in a body stand other statements of that body, and then its call. -/
theorem split_standing (standing : Standing stack) (inside : allowanceOf stack ≠ .none) :
    ∃ above caller f line below, stack = above ++ .activation caller f line :: below ∧
      ∀ frame ∈ above, frame.Encloses := by
  induction stack with
  | nil => exact absurd rfl inside
  | cons frame stack ih =>
    cases frame with
    | activation caller f line =>
      exact ⟨[], caller, f, line, stack, rfl, List.forall_mem_nil _⟩
    | program _ => exact absurd rfl inside
    | sequence _ | restore _ | again _ _ =>
      obtain ⟨above, caller, f, line, below, shape, enclose⟩ := ih standing inside
      refine ⟨_ :: above, caller, f, line, below, by rw [shape, List.cons_append], ?_⟩
      rw [List.forall_mem_cons]
      exact ⟨trivial, enclose⟩
    | _ => exact standing.elim

/-- A return takes one enclosing statement after the other off the stack, and does nothing else. -/
theorem advance_returned (enclose : ∀ frame ∈ above, frame.Encloses) (count : Nat)
    (within : count ≤ above.length) :
    ∃ environment, advance count
      ⟨.signal (.returned value), above ++ .activation caller f line :: below, state⟩ =
        ⟨.signal (.returned value), above.drop count ++ .activation caller f line :: below,
          state.withCurrent environment⟩ := by
  induction count generalizing above state with
  | zero => exact ⟨state.current, rfl⟩
  | succ count ih =>
    cases above with
    | nil => cases within
    | cons frame above =>
      obtain ⟨here, outside⟩ := List.forall_mem_cons.mp enclose
      obtain ⟨environment, further⟩ : ∃ environment, advance count
          ⟨.signal (.returned value), above ++ .activation caller f line :: below,
            leave state frame⟩ = ⟨.signal (.returned value),
              above.drop count ++ .activation caller f line :: below,
              (leave state frame).withCurrent environment⟩ :=
        ih outside (Nat.le_of_succ_le_succ within)
      refine ⟨environment, ?_⟩
      rw [List.cons_append, advance_of_going rfl]
      cases frame with
      | sequence _ | restore _ | again _ _ => exact further
      | _ => exact here.elim

theorem advance_call (enclose : ∀ frame ∈ above, frame.Encloses) :
    advance (above.length + 1)
      ⟨.signal (.returned value), above ++ .activation caller f line :: below, state⟩ =
        finishCall f line value below (state.withCurrent caller) := by
  induction above generalizing state with
  | nil => rfl
  | cons frame above ih =>
    obtain ⟨here, outside⟩ := List.forall_mem_cons.mp enclose
    rw [List.cons_append, advance_of_going rfl]
    cases frame with
    | sequence _ | restore _ | again _ _ => exact ih outside
    | _ => exact here.elim

theorem finishCall_plain (plain : f.isInitializer = false) :
    finishCall f line value below state = .done value below state := by
  rw [finishCall, plain]
  rfl

end Unwinding

end Machine

/-! ### Sessions -/

variable {first last moment : Moment} {session : Session} {config : Config}

def Moment.Obeys : Moment → Prop
  | .idle session => session.machine.Obeys
  | .busy _ config => config.Obeys

theorem Moment.obeys_start (clock : Nat → Float) (broken : Bool) :
    (Moment.idle (.start clock broken)).Obeys := by
  have bare : (State.bare clock broken).Obeys := by
    refine ⟨by simp [State.bare], ?_, ?_⟩
    · intro address name value found
      cases address with
      | zero => cases found
      | succ address => cases found
    · intro i name value found
      cases found
  have native : (Value.native ⟨0, "clock", 0⟩).Obeys := trivial
  refine ⟨?_, bare.holds.write native globals.scope "clock"⟩
  intro act member
  obtain rfl := List.mem_singleton.mp (Array.mem_def.mp member)
  exact honest_clock

theorem Next.obeys (move : Next Honest first last) (obeys : first.Obeys) : last.Obeys := by
  cases move with
  | @native session name arity act honest =>
    have native : (Value.native ⟨session.machine.hosts.size, name, arity⟩).Obeys := trivial
    refine ⟨?_, State.Obeys.holds obeys |>.write native globals.scope name⟩
    intro other member
    rcases Array.mem_push.mp member with member | same
    · exact State.Obeys.honest obeys other member
    · exact same ▸ honest
  | @refuse session after source refused =>
    obtain ⟨table, prepared⟩ := Session.prepared_of_prepare refused
    have recorded : (session.machine.record table).Obeys := ⟨obeys.honest, obeys.holds⟩
    exact (congrArg State.Obeys prepared.machine).mpr recorded
  | @begin session after source program accepted =>
    obtain ⟨table, prepared⟩ := Session.prepared_of_prepare accepted
    have recorded : (session.machine.record table).Obeys := ⟨obeys.honest, obeys.holds⟩
    have allowed := resolve_obeys (prepared.accepted program rfl).2
    exact ⟨⟨prepared.machine ▸ recorded, allowed, trivial, trivial⟩, trivial, trivial⟩
  | step going => exact Config.Obeys.step obeys
  | @settle session config ending ended =>
    have final : ending.2.Obeys := by
      rw [Config.state_finished? ended]
      exact Config.Obeys.obeying obeys |>.state
    exact (congrArg State.Obeys (session.settle_same ending).1).mpr final

theorem Reachable.obeys (reached : Reachable Honest moment) : moment.Obeys := by
  obtain ⟨clock, broken, path⟩ := reached
  induction path with
  | refl => exact Moment.obeys_start clock broken
  | next _ move ih => exact move.obeys ih

namespace Machine

/-- A return never leaves a top-level statement, it ends the innermost call and nothing on the way
there is carried on with, and out of an initializer it never takes a value. -/
theorem returns_stop (reached : Reachable Honest (.busy session config)) :
    (∀ s rest stack, config.control = .exec s → config.stack = .program rest :: stack →
      ∀ steps value after, run steps (executing s config.state) ≠ some (.returned value, after)) ∧
    (∀ value, config.control = .signal (.returned value) →
      ∃ above caller f line below, config.stack = above ++ .activation caller f line :: below ∧
        (∀ frame ∈ above, frame.Encloses) ∧
        (∀ count ≤ above.length, ∃ environment, advance count config =
          ⟨.signal (.returned value), above.drop count ++ .activation caller f line :: below,
            config.state.withCurrent environment⟩) ∧
        advance (above.length + 1) config =
          finishCall f line value below (config.state.withCurrent caller) ∧
        (f.isInitializer = false → advance (above.length + 1) config =
          .done value below (config.state.withCurrent caller))) ∧
    (∀ value caller f line below, config.control = .signal (.returned value) →
      config.stack = .activation caller f line :: below → f.isInitializer → value = .nil) := by
  obtain ⟨control, stack, state⟩ := config
  have obeys : Config.Obeys ⟨control, stack, state⟩ := reached.obeys
  refine ⟨?_, ?_, ?_⟩
  · intro s rest outside current shape steps value after ran
    dsimp only at current shape ran
    subst current shape
    have alone : Config.Obeys (executing s state) :=
      ⟨⟨obeys.obeying.state, trivial⟩, ⟨trivial, obeys.control.2⟩, trivial⟩
    rw [run_eq_advance] at ran
    have last := (alone.advance steps).control
    rw [eq_of_finished ran] at last
    exact last.2
  · intro value current
    dsimp only at current
    subst current
    obtain ⟨standing, admits⟩ := obeys.control
    have inside : allowanceOf stack ≠ .none := by
      intro outside
      rw [outside] at admits
      exact admits
    obtain ⟨above, caller, f, line, below, shape, enclose⟩ := split_standing standing inside
    dsimp only at shape
    subst shape
    have ends := @advance_call above below state value caller f line enclose
    refine ⟨above, caller, f, line, below, rfl, enclose, ?_, ends, ?_⟩
    · exact fun count within => advance_returned enclose count within
    · exact fun plain => ends.trans (finishCall_plain plain)
  · intro value caller f line below current shape initializer
    dsimp only at current shape
    subst current shape
    have admits : f.allowance.Admits value := obeys.control.2
    rw [Function.allowance, if_pos initializer] at admits
    exact admits

set_option maxRecDepth 2000 in
theorem returns_stop_of_loop : ∃ (running : Session) (config : Config) (above below : List Frame)
    (caller : Environment) (f : Function), Reachable Honest (.busy running config) ∧
    config.control = .signal (.returned (.bool true)) ∧
    config.stack = above ++ .activation caller f 1 :: below ∧ above.length = 2 ∧
    advance 3 config = .done (.bool true) below (config.state.withCurrent caller) := by
  let first := Session.start (fun _ => 0) false
  let name : Token := ⟨.identifier, "f", 1⟩
  let always : Expr := .literal .true
  let paren : Token := ⟨.symbol .rightParen, ")", 1⟩
  let body : Stmt := .ret ⟨.keyword .return, "return", 1⟩ (some always)
  let f : Function := ⟨0, ⟨name, [], [.loop always body]⟩, globals, false⟩
  let program : List Stmt :=
    [.function f.declaration, .expression (.call (.variable ⟨0, name⟩) paren [])]
  have accepted : (first.prepare "fun f()\x7bwhile(true)return true;\x7df();").2 = some program := by
    cbv
  have unrecorded : resolve program = .ok [] := rfl
  obtain ⟨running, prepared, machine⟩ := Session.prepare_accepted accepted unrecorded
  rw [State.record_nil] at machine
  let reading := advance 5 (interpreting program first.machine)
  have begun : Later Honest (.idle first) (.busy running (interpreting program first.machine)) :=
    machine ▸ .next (.refl _) (.begin prepared)
  have reads : reading.control = .eval (.variable ⟨0, name⟩) := by cbv
  have stack : reading.stack = [.callee paren [], .program []] := by cbv
  have absent : reading.state.distance? ⟨0, name⟩ = none :=
    (Std.HashMap.getElem?_empty : (∅ : Distances)[0]? = none)
  have found : reading.state.store.get? globals "f" = some (.function f) := by cbv
  have called : step reading = .done (.function f) [.callee paren [], .program []] reading.state := by
    rw [← stack]
    exact step_variable reads ((State.lookup?_global absent).trans found)
  let config := advance 8 (step reading)
  have reached : Reachable Honest (.busy running config) := by
    have read : Later Honest (.busy running reading) (.busy running (step reading)) :=
      .next (.refl _) (.step (by cbv))
    have before := begun.trans (later_advance running 5 _)
    exact ⟨_, _, (before.trans read).trans (later_advance running 8 _)⟩
  let above : List Frame := [.again always body, .sequence []]
  have shape : config = ⟨.signal (.returned (.bool true)),
      above ++ [.activation globals f 1, .program []], config.state⟩ := by
    simp only [config, called]
    rfl
  obtain ⟨_, ends, _⟩ := returns_stop reached
  obtain ⟨frames, caller, g, line, below, stacked, enclose, _, _, plain⟩ :=
    ends (.bool true) (by rw [shape])
  rw [shape] at stacked
  rcases frames with _ | ⟨first, _ | ⟨second, _ | ⟨third, more⟩⟩⟩
  · cases stacked
  · cases stacked
  · cases stacked
    exact ⟨running, config, above, [.program []], globals, f, reached, by rw [shape], by rw [shape],
      rfl, plain rfl⟩
  · simp only [above, List.cons_append, List.nil_append, List.cons.injEq] at stacked
    obtain ⟨_, _, rfl, _⟩ := stacked
    exact (enclose (.activation globals f 1) (by simp)).elim

end Machine
end Lox
