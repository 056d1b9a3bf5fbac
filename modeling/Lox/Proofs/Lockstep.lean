import Lox.Proofs.Sessions
import Lox.Proofs.Twins

/-! Programs that are alike run in lockstep: from states that are alike, each step of the one is
matched by one step of the other. -/

namespace Lox
namespace Likeness

open Machine Resolution

variable {L : Likeness} {flags marks : List Bool} {next : Nat} {tail : List Stmt}
  {first second : State} {stack stack' : List Frame} {value twin : Value}

/-! ### Operators -/

variable (L flags) in
inductive LikeResult : Except RuntimeFault Value → Except RuntimeFault Value → Prop
  | ok {value twin : Value} : L.LikeValue flags value twin → LikeResult (.ok value) (.ok twin)
  | error {fault twin : RuntimeFault} : L.LikeFault fault twin →
      LikeResult (.error fault) (.error twin)

theorem alike_of_twins {inner : List Bool} (f g : Function) (twins : L.Twins inner flags f g) :
    f.Alike g := by
  obtain ⟨identity, isInitializer, _, marks, _, declared⟩ := twins
  obtain ⟨_, declaration, _, _⟩ := f
  obtain ⟨_, declaration', _, _⟩ := g
  cases declared with
  | mk mark name params body =>
    exact ⟨identity, name.lexeme, params.length_eq.symm, isInitializer⟩

theorem LikeValue.text (alike : L.LikeValue flags value twin) : twin.text = value.text :=
  Value.Like.text alike_of_twins alike

theorem LikeValue.arity? (alike : L.LikeValue flags value twin) : twin.arity? = value.arity? :=
  Value.Like.arity? alike_of_twins alike_of_twins alike

theorem LikeValue.isTruthy (alike : L.LikeValue flags value twin) :
    twin.isTruthy = value.isTruthy :=
  Value.Like.isTruthy alike

theorem applyUnary_like {operator operator' : Token} (same : L.Same operator operator')
    (alike : L.LikeValue flags value twin) :
    L.LikeResult flags (applyUnary operator value) (applyUnary operator' twin) := by
  by_cases minus : operator.kind = .symbol .minus
  · have minus' : operator'.kind = .symbol .minus := same.kind.trans minus
    cases alike with
    | number x =>
      simp only [applyUnary, minus, minus']
      exact .ok (.number _)
    | nil | bool _ | string _ | native _ | function _ | klass _ | object _ _ =>
      simp only [applyUnary, minus, minus']
      exact .error (.typeMismatch _ same.line)
  · have plain : ∀ (operator : Token) (value : Value), operator.kind ≠ .symbol .minus →
        applyUnary operator value = .ok (.bool (!value.isTruthy)) := by
      intro operator value other
      unfold applyUnary
      split
      · exact absurd ‹operator.kind = .symbol .minus› other
      · exact absurd ‹operator.kind = .symbol .minus› other
      · rfl
    have minus' : operator'.kind ≠ .symbol .minus := by
      rw [same.kind]
      exact minus
    rw [plain operator value minus, plain operator' twin minus', LikeValue.isTruthy alike]
    exact .ok (.bool _)

theorem onNumbers?_like {symbol : Symbol} {apply : Float → Float → Value}
    (found : onNumbers? symbol = some apply) (a b : Float) :
    L.LikeValue flags (apply a b) (apply a b) := by
  unfold onNumbers? at found
  split at found <;> cases found
  all_goals first | exact .number _ | exact .bool _

variable {third fourth : Value}

theorem applyNumeric_like {symbol : Symbol} {line line' : Nat} (moved : L.line line line')
    (alike : L.LikeValue flags value twin) (others : L.LikeValue flags third fourth) :
    L.LikeResult flags (applyNumeric symbol line value third)
      (applyNumeric symbol line' twin fourth) := by
  have refused : L.LikeResult flags (.error (.typeMismatch .numbers line))
    (.error (.typeMismatch .numbers line')) := .error (.typeMismatch _ moved)
  unfold applyNumeric
  cases found : onNumbers? symbol with
  | none => exact refused
  | some apply =>
    cases alike with
    | number a =>
      cases others with
      | number b => exact .ok (onNumbers?_like found a b)
      | nil | bool _ | string _ | native _ | function _ | klass _ | object _ _ => exact refused
    | nil | bool _ | string _ | native _ | function _ | klass _ | object _ _ => exact refused

theorem applyPlus_like {line line' : Nat} (moved : L.line line line')
    (alike : L.LikeValue flags value twin) (others : L.LikeValue flags third fourth) :
    L.LikeResult flags (applyPlus line value third) (applyPlus line' twin fourth) := by
  have refused : L.LikeResult flags (.error (.typeMismatch .numbersOrStrings line))
    (.error (.typeMismatch .numbersOrStrings line')) := .error (.typeMismatch _ moved)
  cases alike with
  | number a =>
    cases others with
    | number b => exact .ok (.number _)
    | nil | bool _ | string _ | native _ | function _ | klass _ | object _ _ => exact refused
  | string a =>
    cases others with
    | string b => exact .ok (.string _)
    | nil | bool _ | number _ | native _ | function _ | klass _ | object _ _ => exact refused
  | nil | bool _ | native _ | function _ | klass _ | object _ _ => exact refused

theorem applyBinary_like {operator operator' : Token} (same : L.Same operator operator')
    (alike : L.LikeValue flags value twin) (others : L.LikeValue flags third fourth) :
    L.LikeResult flags (applyBinary operator value third)
      (applyBinary operator' twin fourth) := by
  have equal := Value.Like.equals alike_of_twins alike others
  have numeric (symbol : Symbol) : L.LikeResult flags
      (applyNumeric symbol operator.line value third)
      (applyNumeric symbol operator'.line twin fourth) :=
    applyNumeric_like same.line alike others
  unfold applyBinary
  rw [same.kind]
  cases kind : operator.kind with
  | symbol symbol =>
    cases symbol with
    | equalEqual => exact equal ▸ .ok (.bool _)
    | bangEqual => exact equal ▸ .ok (.bool _)
    | plus => exact applyPlus_like same.line alike others
    | _ => exact numeric _
  | _ => exact .error (.typeMismatch _ same.line)

/-! ### Ends of a step -/

variable (L flags next tail marks) in
/-- States that are alike, and what waits in the environment in force. -/
structure Abreast (first second : State) (stack stack' : List Frame) : Prop where
  state : L.LikeState flags next first second
  marked : Marked flags first.current.scopes marks
  waits : L.LikeStack flags tail marks stack stack'

variable (L flags next tail) in
/-- Configurations that are alike, with some scopes more perhaps. -/
def Matched (config twin : Config) : Prop :=
  ∃ more, L.LikeConfig (flags ++ more) next tail config twin

theorem LikeConfig.matched {config twin : Config} (alike : L.LikeConfig flags next tail config twin) :
    L.Matched flags next tail config twin :=
  ⟨[], by rwa [List.append_nil]⟩

theorem Matched.after {mark : Bool} {config twin : Config}
    (matched : L.Matched (flags ++ [mark]) next tail config twin) :
    L.Matched flags next tail config twin := by
  obtain ⟨more, alike⟩ := matched
  exact ⟨mark :: more, by rwa [List.append_assoc] at alike⟩

theorem Abreast.done (abreast : L.Abreast flags marks next tail first second stack stack')
    (alike : L.LikeValue flags value twin) :
    L.Matched flags next tail (.done value stack first) (.done twin stack' second) :=
  LikeConfig.matched ⟨abreast.state, marks, abreast.marked, .signal (.done alike), abreast.waits⟩

theorem Abreast.failed (abreast : L.Abreast flags marks next tail first second stack stack')
    {fault fault' : RuntimeFault} (alike : L.LikeFault fault fault') :
    L.Matched flags next tail (.failed fault stack first) (.failed fault' stack' second) :=
  LikeConfig.matched ⟨abreast.state, marks, abreast.marked, .signal (.failed alike), abreast.waits⟩

theorem Abreast.result (abreast : L.Abreast flags marks next tail first second stack stack')
    {result result' : Except RuntimeFault Value} (alike : L.LikeResult flags result result') :
    L.Matched flags next tail (.ofExcept result stack first)
      (.ofExcept result' stack' second) := by
  cases alike with
  | ok value => exact abreast.done value
  | error fault => exact abreast.failed fault

theorem Abreast.undefined (abreast : L.Abreast flags marks next tail first second stack stack')
    {mark : Bool} {name name' : Token} (names : L.Names mark name name') :
    L.Matched flags next tail (.undefined name stack first) (.undefined name' stack' second) := by
  unfold Config.undefined
  rw [names.lexeme]
  exact abreast.failed (.undefinedVariable mark _ names.line)

theorem Abreast.push (abreast : L.Abreast flags marks next tail first second stack stack')
    {frame frame' : Frame} (alike : L.LikeFrame flags marks frame frame') :
    L.Abreast flags marks next tail first second (frame :: stack) (frame' :: stack') :=
  ⟨abreast.state, abreast.marked, .frame alike abreast.waits⟩

theorem Abreast.eval (abreast : L.Abreast flags marks next tail first second stack stack')
    {e e' : Expr} (alike : L.LikeExpr marks e e') :
    L.Matched flags next tail ⟨.eval e, stack, first⟩ ⟨.eval e', stack', second⟩ :=
  LikeConfig.matched ⟨abreast.state, marks, abreast.marked, .eval alike, abreast.waits⟩

theorem Abreast.exec (abreast : L.Abreast flags marks next tail first second stack stack')
    {s s' : Stmt} (alike : L.LikeStmt marks s s') :
    L.Matched flags next tail ⟨.exec s, stack, first⟩ ⟨.exec s', stack', second⟩ :=
  LikeConfig.matched ⟨abreast.state, marks, abreast.marked, .exec alike, abreast.waits⟩

theorem Abreast.returned (abreast : L.Abreast flags marks next tail first second stack stack')
    (alike : L.LikeValue flags value twin) :
    L.Matched flags next tail ⟨.signal (.returned value), stack, first⟩
      ⟨.signal (.returned twin), stack', second⟩ :=
  LikeConfig.matched
    ⟨abreast.state, marks, abreast.marked, .signal (.returned alike), abreast.waits⟩

/-! ### Changes of the state -/

theorem LikeState.withStore (alike : L.LikeState flags next first second) {store twin : Store}
    (stores : L.LikeStore flags store twin) :
    L.LikeState flags next { first with store } { second with store := twin } :=
  ⟨stores, alike.current, alike.hosts, alike.discreet, alike.born, alike.output, alike.clock,
    alike.hostCalls, alike.rooted, alike.table⟩

theorem LikeState.withCurrent (alike : L.LikeState flags next first second)
    (environment : Environment) :
    L.LikeState flags next (first.withCurrent environment) (second.withCurrent environment) :=
  ⟨alike.store, rfl, alike.hosts, alike.discreet, alike.born, alike.output, alike.clock,
    alike.hostCalls, alike.rooted, alike.table⟩

theorem LikeState.write {address : Nat} {mark : Bool} (alike : L.LikeState flags next first second)
    (flag : flags[address]? = some mark) (name : String) (given : L.LikeValue flags value twin) :
    L.LikeState flags next (first.write address name value)
      (second.write address (L.named mark name) twin) :=
  alike.withStore (alike.store.write flag name given)

theorem Abreast.withState (abreast : L.Abreast flags marks next tail first second stack stack')
    {after after' : State} (alike : L.LikeState flags next after after')
    (current : after.current = first.current) :
    L.Abreast flags marks next tail after after' stack stack' :=
  ⟨alike, by rw [current]; exact abreast.marked, abreast.waits⟩

theorem rooted_grow (rooted : flags[0]? = some false) (more : List Bool) :
    (flags ++ more)[0]? = some false := by
  have below : 0 < flags.length := (List.getElem?_eq_some_iff.mp rooted).1
  rw [List.getElem?_append_left below, rooted]

theorem LikeState.enter {mark : Bool} {bindings twins : Bindings Value}
    (alike : L.LikeState flags next first second) (outer : Environment)
    (given : Bindings.Like (L.named mark) (L.LikeValue flags) bindings twins) :
    L.LikeState (flags ++ [mark]) next (first.enter outer bindings)
      (second.enter outer twins) := by
  refine ⟨alike.store.enter outer given, ?_, alike.hosts, alike.discreet, alike.born, alike.output,
    alike.clock, alike.hostCalls, rooted_grow alike.rooted _, alike.table⟩
  simp only [State.enter, Store.enter, alike.store.same]

theorem like_scopeOf (name : String) (mark : Bool) (alike : L.LikeValue flags value twin) :
    Bindings.Like (L.named mark) (L.LikeValue flags) (Bindings.empty.insert name value)
      (Bindings.empty.insert (L.named mark name) twin) :=
  Bindings.Like.insert .empty (L.named_injective mark) name alike

/-- The scope of a receiver is never marked. -/
theorem LikeState.bindMethod (alike : L.LikeState flags next first second)
    {method method' : Function} (twins : L.Twins [false] flags method method')
    {receiver receiver' : Instance}
    (given : L.LikeValue flags (.object receiver) (.object receiver')) :
    L.LikeState (flags ++ [false]) next (first.bindMethod method receiver).2
        (second.bindMethod method' receiver').2 ∧
      L.Twins [] (flags ++ [false]) (first.bindMethod method receiver).1
        (second.bindMethod method' receiver').1 := by
  have scope := like_scopeOf thisName false given
  have size : first.store.scopes.size = flags.length := alike.store.size
  have closure := twins.closure
  obtain ⟨marks, marked, declared⟩ := twins.declared
  constructor
  · refine ⟨?_, alike.current, alike.hosts, alike.discreet, ?_, alike.output, alike.clock,
      alike.hostCalls, rooted_grow alike.rooted _, alike.table⟩
    · have entered := alike.store.enter method.closure scope
      simp only [State.bindMethod, closure]
      exact entered
    · exact congrArg (· + 1) alike.born
  · refine ⟨alike.born, twins.isInitializer, ?_, false :: marks, ?_, declared⟩
    · simp only [State.bindMethod, Store.enter, closure, alike.store.same]
    · have inner := marked.enter false
      rw [← size] at inner
      exact inner

/-! ### Calls -/

theorem Abreast.bound (abreast : L.Abreast flags marks next tail first second stack stack')
    {method method' : Function} (twins : L.Twins [false] flags method method')
    {receiver receiver' : Instance}
    (given : L.LikeValue flags (.object receiver) (.object receiver')) :
    L.Matched flags next tail
      (.done (.function (first.bindMethod method receiver).1) stack
        (first.bindMethod method receiver).2)
      (.done (.function (second.bindMethod method' receiver').1) stack'
        (second.bindMethod method' receiver').2) := by
  obtain ⟨state, function⟩ := abreast.state.bindMethod twins given
  have after : L.Abreast (flags ++ [false]) marks next tail (first.bindMethod method receiver).2
      (second.bindMethod method' receiver').2 stack stack' :=
    ⟨state, abreast.marked.grow _, abreast.waits.grow _⟩
  exact (after.done (.function function)).after

theorem parameterBindings_like {mark : Bool} {params params' : List Token}
    {arguments arguments' : List Value} (names : List.Forall₂ (L.Names mark) params params')
    (given : List.Forall₂ (L.LikeValue flags) arguments arguments') :
    Bindings.Like (L.named mark) (L.LikeValue flags) (parameterBindings params arguments)
      (parameterBindings params' arguments') := by
  have general : ∀ bindings twins : Bindings Value,
      Bindings.Like (L.named mark) (L.LikeValue flags) bindings twins →
        Bindings.Like (L.named mark) (L.LikeValue flags)
          (((params.map Token.lexeme).zip arguments).foldl
            (fun bindings pair => bindings.insert pair.1 pair.2) bindings)
          (((params'.map Token.lexeme).zip arguments').foldl
            (fun bindings pair => bindings.insert pair.1 pair.2) twins) := by
    induction names generalizing arguments arguments' with
    | nil => exact fun _ _ alike => alike
    | cons name _ ih =>
      cases given with
      | nil => exact fun _ _ alike => alike
      | cons argument given =>
        intro bindings twins alike
        refine ih given _ _ ?_
        rw [name.lexeme]
        exact alike.insert (L.named_injective mark) _ argument
  exact general .empty .empty .empty

theorem Abreast.enterFunction (abreast : L.Abreast flags marks next tail first second stack stack')
    {function function' : Function} (twins : L.Twins [] flags function function')
    {arguments arguments' : List Value}
    (given : List.Forall₂ (L.LikeValue flags) arguments arguments') {line line' : Nat}
    (moved : L.line line line') :
    L.Matched flags next tail (enterFunction function arguments line stack first)
      (enterFunction function' arguments' line' stack' second) := by
  have size : first.store.scopes.size = flags.length := abreast.state.store.size
  have function'' := twins
  obtain ⟨_, _, closure, outer, marked, declared⟩ := twins
  obtain ⟨identity, declaration, closure₁, isInitializer⟩ := function
  obtain ⟨identity', declaration', closure₂, isInitializer'⟩ := function'
  cases closure
  cases declared with
  | mk mark name params body =>
    have inner := marked.enter mark
    rw [← size] at inner
    have caller : first.current = second.current := abreast.state.current.symm
    refine ⟨[mark], abreast.state.enter _ (parameterBindings_like params given), mark :: outer,
      inner, .signal (.done .nil), .frame (.sequence body) ?_⟩
    rw [caller]
    exact .activation (caller ▸ abreast.marked.grow _) (function''.grow _) moved
      (abreast.waits.grow _)

theorem Abreast.callNative (abreast : L.Abreast flags marks next tail first second stack stack')
    (native : Native) {arguments arguments' : List Value}
    (given : List.Forall₂ (L.LikeValue flags) arguments arguments') {line line' : Nat}
    (moved : L.line line line') :
    L.Matched flags next tail (callNative native arguments line stack first)
      (callNative native arguments' line' stack' second) := by
  have alike := abreast.state
  have after : L.Abreast flags marks next tail (first.callHost native arguments).2
      (second.callHost native arguments').2 stack stack' :=
    abreast.withState ⟨alike.store, alike.current, alike.hosts, alike.discreet, alike.born,
      alike.output, alike.clock, congrArg (· + 1) alike.hostCalls, alike.rooted, alike.table⟩ rfl
  refine after.result ?_
  simp only [alike.hosts, alike.clock, alike.hostCalls]
  cases host : first.hosts[native.identity]? with
  | none => exact .ok .nil
  | some act =>
    have discreet := alike.discreet act (Array.mem_of_getElem? host)
    rcases discreet _ _ alike_of_twins alike_of_twins (first.clock first.hostCalls) arguments
      arguments' given with returned | refused
    · obtain ⟨result, result', same, same', like⟩ := returned
      simp only [same, same']
      exact .ok like
    · obtain ⟨message, same, same'⟩ := refused
      simp only [same, same']
      exact .error (.native _ _ moved)

theorem Abreast.construct (abreast : L.Abreast flags marks next tail first second stack stack')
    {c d : Class} (classes : L.LikeClass flags c d) {arguments arguments' : List Value}
    (given : List.Forall₂ (L.LikeValue flags) arguments arguments') {line line' : Nat}
    (moved : L.line line line') :
    L.Matched flags next tail (construct c arguments line stack first)
      (construct d arguments' line' stack' second) := by
  have made : L.Abreast flags marks next tail (first.instantiate c).2 (second.instantiate d).2
      stack stack' :=
    abreast.withState (abreast.state.withStore (abreast.state.store.instantiate c d)) rfl
  have object : L.LikeValue flags (.object (first.instantiate c).1)
      (.object (second.instantiate d).1) := by
    simp only [State.instantiate, Store.instantiate, abreast.state.store.count]
    exact .object _ classes
  have initializers := classes.findMethod? initializerName
  unfold Machine.construct Class.initializer?
  dsimp only
  cases found : c.findMethod? initializerName with
  | none =>
    rw [found] at initializers
    cases found' : d.findMethod? initializerName with
    | none => exact made.done object
    | some _ => rw [found'] at initializers; cases initializers
  | some method =>
    rw [found] at initializers
    cases found' : d.findMethod? initializerName with
    | none => rw [found'] at initializers; cases initializers
    | some method' =>
      rw [found'] at initializers
      cases initializers with
      | some twins =>
        obtain ⟨state, function⟩ := made.state.bindMethod twins object
        have waiting : L.Abreast (flags ++ [false]) marks next tail
            ((first.instantiate c).2.bindMethod method (first.instantiate c).1).2
            ((second.instantiate d).2.bindMethod method' (second.instantiate d).1).2
            (.constructing (first.instantiate c).1 :: stack)
            (.constructing (second.instantiate d).1 :: stack') :=
          ⟨state, made.marked.grow _,
            .frame (.constructing (LikeValue.grow object _)) (made.waits.grow _)⟩
        have values := given.imp fun _ _ value => LikeValue.grow value [false]
        exact (waiting.enterFunction function values moved).after

theorem Abreast.apply (abreast : L.Abreast flags marks next tail first second stack stack')
    (callees : L.LikeValue flags value twin) {arguments arguments' : List Value}
    (given : List.Forall₂ (L.LikeValue flags) arguments arguments') {line line' : Nat}
    (moved : L.line line line') :
    L.Matched flags next tail (apply value arguments line stack first)
      (apply twin arguments' line' stack' second) := by
  cases callees with
  | function twins => exact abreast.enterFunction twins given moved
  | native native => exact abreast.callNative native given moved
  | klass classes => exact abreast.construct classes given moved
  | nil | bool _ | number _ | string _ | object _ _ => exact abreast.failed (.notCallable moved)

theorem Abreast.call (abreast : L.Abreast flags marks next tail first second stack stack')
    (callees : L.LikeValue flags value twin) {paren paren' : Token} (same : L.Same paren paren')
    {arguments arguments' : List Value}
    (given : List.Forall₂ (L.LikeValue flags) arguments arguments') :
    L.Matched flags next tail (call value paren arguments stack first)
      (call twin paren' arguments' stack' second) := by
  unfold Machine.call
  rw [LikeValue.arity? callees, ← given.length_eq]
  cases value.arity? with
  | none => exact abreast.failed (.notCallable same.line)
  | some count =>
    dsimp only
    split
    · exact abreast.apply callees given same.line
    · exact abreast.failed (.arityMismatch _ _ same.line)

theorem Abreast.nextArgument (abreast : L.Abreast flags marks next tail first second stack stack')
    (callees : L.LikeValue flags value twin) {paren paren' : Token} (same : L.Same paren paren')
    {evaluated evaluated' : List Value}
    (given : List.Forall₂ (L.LikeValue flags) evaluated evaluated') {pending pending' : List Expr}
    (alike : L.LikeExprs marks pending pending') :
    L.Matched flags next tail (nextArgument value paren evaluated stack first pending)
      (nextArgument twin paren' evaluated' stack' second pending') := by
  cases alike with
  | nil => exact abreast.call callees same (List.rel_reverse given)
  | cons here later => exact (abreast.push (.argument callees same given later)).eval here

theorem Abreast.finishCall (abreast : L.Abreast flags marks next tail first second stack stack')
    {function function' : Function} (twins : L.Twins [] flags function function')
    {line line' : Nat} (moved : L.line line line') (alike : L.LikeValue flags value twin) :
    L.Matched flags next tail (finishCall function line value stack first)
      (finishCall function' line' twin stack' second) := by
  unfold Machine.finishCall
  rw [twins.isInitializer]
  split
  · obtain ⟨outer, marked, _⟩ := twins.declared
    have flag := marked.get 0
    cases outer with
    | nil => cases marked
    | cons mark outer =>
      have found := abreast.state.store.lookup? flag thisName
      rw [named_this] at found
      have here (store : Store) : store.getAt? function.closure 0 thisName =
          store.lookup? function.closure.scope thisName := rfl
      rw [twins.closure, here, here]
      generalize first.store.lookup? function.closure.scope thisName = receiver,
        second.store.lookup? function.closure.scope thisName = receiver' at found ⊢
      cases found with
      | some receiver => exact abreast.done receiver
      | none => exact abreast.failed (.undefinedVariable false thisName moved)
  · exact abreast.done alike

/-! ### Names -/

/-- What is looked up at a distance is alike, and so is the place it is found at. -/
theorem Abreast.at (abreast : L.Abreast flags marks next tail first second stack stack')
    (distance : Nat) :
    (first.current.scopes[distance]? = none ∧ second.current.scopes[distance]? = none) ∨
      ∃ address mark, first.current.scopes[distance]? = some address ∧
        second.current.scopes[distance]? = some address ∧ marks[distance]? = some mark ∧
          flags[address]? = some mark := by
  have same := abreast.state.current
  have flag := abreast.marked.get distance
  rw [same]
  cases there : first.current.scopes[distance]? with
  | none => exact .inl ⟨rfl, rfl⟩
  | some address =>
    rw [there] at flag
    have entry : (first.current.scopes.map (flags[·]?))[distance]? = some flags[address]? := by
      rw [List.getElem?_map, there]
      rfl
    rw [abreast.marked, List.getElem?_map] at entry
    obtain ⟨mark, found, value⟩ := Option.map_eq_some_iff.mp entry
    exact .inr ⟨address, mark, rfl, rfl, found, value.symm⟩

theorem Abreast.getAt? (abreast : L.Abreast flags marks next tail first second stack stack')
    {distance : Nat} {name name' : String}
    (renamed : ∀ mark, marks[distance]? = some mark → name' = L.named mark name) :
    Option.Rel (L.LikeValue flags) (first.store.getAt? first.current distance name)
      (second.store.getAt? second.current distance name') := by
  rw [Store.getAt?_eq, Store.getAt?_eq]
  rcases abreast.at distance with outside | inside
  · rw [outside.1, outside.2]
    exact .none
  · obtain ⟨address, mark, there, there', marked, flag⟩ := inside
    rw [there, there', renamed mark marked]
    exact abreast.state.store.lookup? flag name

theorem Abreast.lookup? (abreast : L.Abreast flags marks next tail first second stack stack')
    {reference reference' : Reference} (refers : L.Refers marks reference reference')
    (below : reference.id < next) :
    Option.Rel (L.LikeValue flags) (first.lookup? reference) (second.lookup? reference') := by
  obtain ⟨here, there⟩ := abreast.state.table _ below
  obtain ⟨id, names⟩ := refers
  unfold State.lookup? State.distance?
  rw [id, here, there, names.lexeme]
  cases recorded : L.table reference.id with
  | none =>
    rw [markOf_of_none recorded]
    have found := abreast.state.store.lookup? abreast.state.rooted reference.name.lexeme
    have bound := abreast.state.store.binds abreast.state.rooted reference.name.lexeme
    simp only [named, Bool.false_eq_true, if_false, Store.get?, Store.slot?, globals,
      Environment.scopes, List.find?_singleton] at found bound ⊢
    rw [bound]
    split
    · exact found
    · exact .none
  | some distance =>
    exact abreast.getAt? fun mark there => by rw [markOf_of_table recorded there]

theorem Abreast.slot? (abreast : L.Abreast flags marks next tail first second stack stack')
    {target target' : Reference} (refers : L.Refers marks target target')
    (below : target.id < next) :
    (first.slot? target = none ∧ second.slot? target' = none) ∨
      ∃ address, first.slot? target = some address ∧ second.slot? target' = some address ∧
        flags[address]? = some (L.markOf marks target.id) := by
  obtain ⟨here, there⟩ := abreast.state.table _ below
  obtain ⟨id, names⟩ := refers
  unfold State.slot? State.distance?
  rw [id, here, there, names.lexeme]
  cases recorded : L.table target.id with
  | none =>
    rw [markOf_of_none recorded]
    have bound := abreast.state.store.binds abreast.state.rooted target.name.lexeme
    simp only [named, Bool.false_eq_true, if_false, Store.slot?, globals,
      Environment.scopes, List.find?_singleton] at bound ⊢
    rw [bound]
    split
    · exact .inr ⟨0, rfl, rfl, abreast.state.rooted⟩
    · exact .inl ⟨rfl, rfl⟩
  | some distance =>
    dsimp only
    rw [Store.slotAt?_eq, Store.slotAt?_eq]
    rcases abreast.at distance with outside | inside
    · rw [outside.1, outside.2]
      exact .inl ⟨rfl, rfl⟩
    · obtain ⟨address, mark, there, there', marked, flag⟩ := inside
      rw [there, there', markOf_of_table recorded marked]
      dsimp only [Option.bind_some]
      rw [abreast.state.store.binds flag]
      split
      · exact .inr ⟨address, rfl, rfl, flag⟩
      · exact .inl ⟨rfl, rfl⟩

theorem Abreast.readName (abreast : L.Abreast flags marks next tail first second stack stack')
    {reference reference' : Reference} (refers : L.Refers marks reference reference')
    (below : reference.id < next) :
    L.Matched flags next tail (readName reference stack first)
      (readName reference' stack' second) := by
  have found := abreast.lookup? refers below
  unfold Machine.readName
  generalize first.lookup? reference = value, second.lookup? reference' = twin at found ⊢
  cases found with
  | some alike => exact abreast.done alike
  | none => exact abreast.undefined refers.names

theorem Abreast.writeName (abreast : L.Abreast flags marks next tail first second stack stack')
    {target target' : Reference} (refers : L.Refers marks target target')
    (below : target.id < next) (alike : L.LikeValue flags value twin) :
    L.Matched flags next tail (writeName target value stack first)
      (writeName target' twin stack' second) := by
  unfold Machine.writeName
  rcases abreast.slot? refers below with missing | found
  · rw [missing.1, missing.2]
    exact abreast.undefined refers.names
  · obtain ⟨address, here, there, flag⟩ := found
    rw [here, there, refers.names.lexeme]
    exact (abreast.withState (abreast.state.write flag _ alike) rfl).done alike

/-! ### Properties -/

theorem Abreast.getProperty (abreast : L.Abreast flags marks next tail first second stack stack')
    (alike : L.LikeValue flags value twin) {name name' : Token} (same : L.Same name name') :
    L.Matched flags next tail (getProperty value name stack first)
      (getProperty twin name' stack' second) := by
  cases alike with
  | @object identity c d classes =>
    have field : Option.Rel (L.LikeValue flags) (first.store.field? ⟨identity, c⟩ name.lexeme)
        (second.store.field? ⟨identity, d⟩ name.lexeme) :=
      abreast.state.store.field? identity name.lexeme
    have method := classes.findMethod? name.lexeme
    unfold Machine.getProperty State.property
    dsimp only
    rw [same.lexeme]
    cases held : first.store.field? ⟨identity, c⟩ name.lexeme with
    | some value =>
      rw [held] at field
      cases held' : second.store.field? ⟨identity, d⟩ name.lexeme with
      | none => rw [held'] at field; cases field
      | some value' =>
        rw [held'] at field
        cases field with
        | some value => exact abreast.done value
    | none =>
      rw [held] at field
      cases held' : second.store.field? ⟨identity, d⟩ name.lexeme with
      | some value' => rw [held'] at field; cases field
      | none =>
        dsimp only
        generalize c.findMethod? name.lexeme = found, d.findMethod? name.lexeme = found'
          at method ⊢
        cases method with
        | some twins => exact abreast.bound twins (.object identity classes)
        | none => exact abreast.failed (.undefinedProperty _ same.line)
  | nil | bool _ | number _ | string _ | native _ | function _ | klass _ =>
    exact abreast.failed (.notAnInstance _ same.line)

theorem Abreast.superMethod (abreast : L.Abreast flags marks next tail first second stack stack')
    {reference reference' : Reference} (refers : L.Refers marks reference reference')
    (below : reference.id < next) {method method' : Token} (same : L.Same method method') :
    L.Matched flags next tail (superMethod reference method stack first)
      (superMethod reference' method' stack' second) := by
  obtain ⟨here, there⟩ := abreast.state.table _ below
  unfold Machine.superMethod State.distance?
  rw [refers.id, here, there]
  cases recorded : L.table reference.id with
  | none => exact abreast.undefined refers.names
  | some distance =>
    dsimp only
    have superclass : Option.Rel (L.LikeValue flags)
        (first.store.getAt? first.current distance reference.name.lexeme)
        (second.store.getAt? second.current distance reference'.name.lexeme) :=
      abreast.getAt? fun mark there => by
        rw [refers.names.lexeme, markOf_of_table recorded there]
    have receiver : Option.Rel (L.LikeValue flags)
        (first.store.getAt? first.current (distance - 1) thisName)
        (second.store.getAt? second.current (distance - 1) thisName) :=
      abreast.getAt? fun mark _ => (named_this L mark).symm
    generalize first.store.getAt? first.current distance reference.name.lexeme = above,
      second.store.getAt? second.current distance reference'.name.lexeme = above' at superclass ⊢
    generalize first.store.getAt? first.current (distance - 1) thisName = this,
      second.store.getAt? second.current (distance - 1) thisName = this' at receiver ⊢
    cases superclass with
    | none => exact abreast.undefined refers.names
    | some above =>
      cases above with
      | @klass above above' classes =>
        cases receiver with
        | none => exact abreast.failed (.undefinedVariable false thisName refers.names.line)
        | some receiver =>
          cases receiver with
          | object identity receivers =>
            have found := classes.findMethod? method.lexeme
            dsimp only
            rw [same.lexeme]
            generalize above.findMethod? method.lexeme = chosen,
              above'.findMethod? method.lexeme = chosen' at found ⊢
            cases found with
            | none => exact abreast.failed (.undefinedProperty _ same.line)
            | some twins => exact abreast.bound twins (.object identity receivers)
          | nil | bool _ | number _ | string _ | native _ | function _ | klass _ =>
            exact abreast.failed (.notAnInstance _ refers.names.line)
      | nil | bool _ | number _ | string _ | native _ | function _ | object _ _ =>
        exact abreast.failed (.invalidSuperclass refers.names.line)

/-! ### Declarations -/

theorem Abreast.here (abreast : L.Abreast flags marks next tail first second stack stack') :
    flags[first.current.scope]? = some (innermost marks) := by
  have flag := abreast.marked.get 0
  cases marks with
  | nil => cases abreast.marked
  | cons mark outer => exact flag

theorem Abreast.define (abreast : L.Abreast flags marks next tail first second stack stack')
    {name name' : String} (renamed : name' = L.named (innermost marks) name)
    (alike : L.LikeValue flags value twin) :
    L.Abreast flags marks next tail (first.define name value) (second.define name' twin)
      stack stack' := by
  have written := abreast.state.write abreast.here name alike
  rw [← renamed] at written
  have same : second.define name' twin = second.write first.current.scope name' twin := by
    rw [← abreast.state.current]
    rfl
  rw [same]
  exact abreast.withState written rfl

theorem Abreast.declareFunction
    (abreast : L.Abreast flags marks next tail first second stack stack')
    {declaration declaration' : FunctionDecl}
    (names : L.Names (innermost marks) declaration.name declaration'.name)
    (alike : L.LikeFunction marks declaration declaration') :
    L.Matched flags next tail (declareFunction declaration stack first)
      (declareFunction declaration' stack' second) := by
  have state := abreast.state
  have closed : L.Abreast flags marks next tail (first.close declaration false).2
      (second.close declaration' false).2 stack stack' :=
    abreast.withState ⟨state.store, state.current, state.hosts, state.discreet,
      congrArg (· + 1) state.born, state.output, state.clock, state.hostCalls, state.rooted,
      state.table⟩ rfl
  have twins : L.Twins [] flags (first.close declaration false).1
      (second.close declaration' false).1 :=
    ⟨state.born, rfl, state.current, marks, abreast.marked, alike⟩
  exact (closed.define names.lexeme (.function twins)).done .nil

theorem LikeState.closeMethods {outer : List Bool} {methods methods' : List FunctionDecl}
    {bindings twins : Bindings Function} (state : L.LikeState flags next first second)
    (marked : Marked flags first.current.scopes outer)
    (alike : L.LikeFunctions (false :: outer) methods methods')
    (closed : Bindings.Like id (L.Twins [false] flags) bindings twins) :
    L.LikeState flags next (first.closeMethods methods bindings).2
        (second.closeMethods methods' twins).2 ∧
      Bindings.Like id (L.Twins [false] flags) (first.closeMethods methods bindings).1
        (second.closeMethods methods' twins).1 := by
  induction methods generalizing methods' first second bindings twins with
  | nil =>
    cases alike
    exact ⟨state, closed⟩
  | cons declaration rest ih =>
    cases alike with
    | @cons _ _ declaration' _ rest' here later =>
      have names : declaration'.name.lexeme = declaration.name.lexeme := by
        cases here with
        | mk _ name => exact name.lexeme
      have method : L.Twins [false] flags (first.close declaration declaration.isInitializer).1
          (second.close declaration' declaration'.isInitializer).1 := by
        refine ⟨state.born, ?_, state.current, outer, marked, here⟩
        simp only [State.close, FunctionDecl.isInitializer, names]
      have added : Bindings.Like id (L.Twins [false] flags)
          (bindings.insert declaration.name.lexeme
            (first.close declaration declaration.isInitializer).1)
          (twins.insert declaration'.name.lexeme
            (second.close declaration' declaration'.isInitializer).1) := by
        rw [names]
        exact closed.insert Function.injective_id _ method
      have after : L.LikeState flags next (first.close declaration declaration.isInitializer).2
          (second.close declaration' declaration'.isInitializer).2 :=
        ⟨state.store, state.current, state.hosts, state.discreet, congrArg (· + 1) state.born,
          state.output, state.clock, state.hostCalls, state.rooted, state.table⟩
      have closing := ih after marked later added
      exact closing

theorem Abreast.declareClass (abreast : L.Abreast flags marks next tail first second stack stack')
    {name name' : Token} (same : L.Same name name') (names : L.Names (innermost marks) name name')
    {above above' : Option Class} (classes : Option.Rel (L.LikeClass flags) above above')
    {superclass : Option Reference} (present : above.isSome = superclass.isSome)
    {methods methods' : List FunctionDecl}
    (alike : L.LikeFunctions (classMarks superclass ++ marks) methods methods') :
    L.Matched flags next tail (.done .nil stack (first.declareClass name above methods))
      (.done .nil stack' (second.declareClass name' above' methods')) := by
  have finish (more : List Bool) (entered : L.LikeState (flags ++ more) next
        (first.enterSuper above) (second.enterSuper above')) {outer : List Bool}
      (marked : Marked (flags ++ more) (first.enterSuper above).current.scopes outer)
      (closing : L.LikeFunctions (false :: outer) methods methods')
      (inherited : List.Forall₂ (Layer.Like (L.Twins [false] (flags ++ more)))
        ((above.map Class.layers).getD []) ((above'.map Class.layers).getD [])) :
      L.Matched flags next tail (.done .nil stack (first.declareClass name above methods))
        (.done .nil stack' (second.declareClass name' above' methods')) := by
    obtain ⟨closed, bindings⟩ := entered.closeMethods marked closing .empty
    have outside : L.Abreast (flags ++ more) marks next tail
        { (first.enterSuper above).closeMethods methods .empty |>.2 with
          current := first.current
          born := ((first.enterSuper above).closeMethods methods .empty).2.born + 1 }
        { (second.enterSuper above').closeMethods methods' .empty |>.2 with
          current := second.current
          born := ((second.enterSuper above').closeMethods methods' .empty).2.born + 1 }
        stack stack' :=
      ⟨⟨closed.store, abreast.state.current, closed.hosts, closed.discreet,
        congrArg (· + 1) closed.born, closed.output, closed.clock, closed.hostCalls, closed.rooted,
        closed.table⟩, abreast.marked.grow _, abreast.waits.grow _⟩
    have own : L.LikeValue (flags ++ more) (.klass ⟨⟨_, name.lexeme, _⟩, _⟩)
      (.klass ⟨⟨_, name'.lexeme, _⟩, _⟩) := .klass ⟨⟨closed.born, same.lexeme, bindings⟩, inherited⟩
    obtain ⟨further, done⟩ := (outside.define names.lexeme own).done .nil
    exact ⟨more ++ further, by rwa [← List.append_assoc]⟩
  cases classes with
  | none =>
    cases superclass with
    | some _ => cases present
    | none =>
      refine finish [] ?_ ?_ alike .nil
      · rw [List.append_nil]
        exact abreast.state
      · rw [List.append_nil]
        exact abreast.marked
  | @some above above' classes =>
    cases superclass with
    | none => cases present
    | some reference =>
      have scope := like_scopeOf superName false (.klass classes)
      have entered := abreast.state.enter first.current scope
      have inner := abreast.marked.enter false
      rw [← abreast.state.store.size] at inner
      refine finish [false] ?_ inner alike (LikeClass.grow classes [false]).layers
      simp only [State.enterSuper]
      rw [abreast.state.current]
      exact entered

/-! ### Steps -/

section Steps

variable {records : Records} {scopes : List (Bindings Bool)}

theorem Abreast.step_eval
    (abreast : L.Abreast flags marks records.next tail first second stack stack') {e e' : Expr}
    (alike : L.LikeExpr marks e e') (resolved : e.Resolved records scopes) :
    L.Matched flags records.next tail (Machine.eval e stack first)
      (Machine.eval e' stack' second) := by
  cases alike with
  | literal literal => exact abreast.done (Value.like_ofLiteral literal)
  | unary operator operand => exact (abreast.push (.unary operator)).eval operand
  | binary left operator right => exact (abreast.push (.left operator right)).eval left
  | logical left operator right => exact (abreast.push (.logical operator right)).eval left
  | grouping inner => exact abreast.eval inner
  | name refers => exact abreast.readName refers (Reads.numbered resolved)
  | assign target value => exact (abreast.push (.assign target)).eval value
  | call callee paren arguments => exact (abreast.push (.callee paren arguments)).eval callee
  | get object name => exact (abreast.push (.property name)).eval object
  | set object name value => exact (abreast.push (.target name value)).eval object
  | this refers => exact abreast.readName refers (ReadsThis.numbered resolved)
  | super refers method => exact abreast.superMethod refers (ReadsSuper.numbered resolved) method

theorem Abreast.step_exec
    (abreast : L.Abreast flags marks records.next tail first second stack stack') {s s' : Stmt}
    (alike : L.LikeStmt marks s s') (resolved : s.Resolved records scopes) :
    L.Matched flags records.next tail (Machine.exec s stack first)
      (Machine.exec s' stack' second) := by
  cases alike with
  | expression e => exact abreast.eval e
  | print e => exact (abreast.push .print).eval e
  | var name initializer =>
    cases initializer with
    | none => exact (abreast.define name.lexeme .nil).done .nil
    | some initializer => exact (abreast.push (.define name)).eval initializer
  | block mark body =>
    have state : L.LikeState (flags ++ [mark]) records.next (first.enter first.current .empty)
        (second.enter first.current .empty) := abreast.state.enter first.current .empty
    have inner := abreast.marked.enter mark
    rw [← abreast.state.store.size] at inner
    have waits : L.LikeStack (flags ++ [mark]) tail (mark :: marks)
        (.sequence _ :: .restore first.current :: stack)
        (.sequence _ :: .restore first.current :: stack') :=
      .frame (.sequence body) (.restore (abreast.marked.grow _) (abreast.waits.grow _))
    refine ⟨[mark], ?_, mark :: marks, inner, .signal (.done .nil), ?_⟩
    · simp only [Machine.exec]
      rw [abreast.state.current]
      exact state
    · simp only [Machine.exec]
      rw [abreast.state.current]
      exact waits
  | conditional condition thenBranch elseBranch =>
    exact (abreast.push (.branch thenBranch elseBranch)).eval condition
  | loop condition body => exact (abreast.push (.test condition body)).eval condition
  | function names declaration => exact abreast.declareFunction names declaration
  | ret keyword value =>
    cases value with
    | none => exact abreast.returned .nil
    | some value => exact (abreast.push .returning).eval value
  | classDecl same names superclass methods =>
    simp only [Machine.exec, Machine.declareClass]
    cases superclass with
    | none => exact abreast.declareClass same names .none rfl methods
    | some refers =>
      have found := abreast.lookup? refers resolved.2.1.numbered
      dsimp only
      generalize first.lookup? _ = above, second.lookup? _ = above' at found ⊢
      cases found with
      | none => exact abreast.undefined refers.names
      | some above =>
        cases above with
        | klass classes =>
          exact abreast.declareClass same names (.some classes) rfl methods
        | nil | bool _ | number _ | string _ | native _ | function _ | object _ _ =>
          exact abreast.failed (.invalidSuperclass refers.names.line)

theorem Abreast.resume_frame
    (abreast : L.Abreast flags marks records.next tail first second stack stack')
    (alike : L.LikeValue flags value twin) {frame frame' : Frame}
    (frames : L.LikeFrame flags marks frame frame')
    (numbered : ∀ target, frame = .assign target → target.id < records.next) :
    L.Matched flags records.next tail (resume value stack first frame)
      (resume twin stack' second frame') := by
  cases frames with
  | unary operator => exact abreast.result (applyUnary_like operator alike)
  | left operator right => exact (abreast.push (.right alike operator)).eval right
  | right other operator => exact abreast.result (applyBinary_like operator other alike)
  | @logical operator operator' _ _ same right =>
    have settled : settles operator' twin = settles operator value := by
      simp only [settles, same.kind, LikeValue.isTruthy alike]
    simp only [resume, settled]
    split
    · exact abreast.done alike
    · exact abreast.eval right
  | assign refers => exact abreast.writeName refers (numbered _ rfl) alike
  | callee paren arguments => exact abreast.nextArgument alike paren .nil arguments
  | argument callee paren evaluated pending =>
    exact abreast.nextArgument callee paren (.cons alike evaluated) pending
  | property name => exact abreast.getProperty alike name
  | target name value =>
    cases alike with
    | object identity classes =>
      exact (abreast.push (.field (.object identity classes) name)).eval value
    | nil | bool _ | number _ | string _ | native _ | function _ | klass _ =>
      exact abreast.failed (.notAnInstance _ name.line)
  | @field object object' name name' objects same =>
    cases objects with
    | @object identity c d classes =>
      have written : L.LikeState flags records.next
          (first.setField ⟨identity, c⟩ name.lexeme value)
          (second.setField ⟨identity, d⟩ name.lexeme twin) :=
        abreast.state.withStore (abreast.state.store.setField name.lexeme alike)
      simp only [resume, same.lexeme]
      exact (abreast.withState written rfl).done alike
  | print =>
    have state := abreast.state
    have printed : L.LikeState flags records.next (first.print value.text)
        (second.print value.text) :=
      ⟨state.store, state.current, state.hosts, state.discreet, state.born,
        congrArg (·.print value.text) state.output, state.clock, state.hostCalls, state.rooted,
        state.table⟩
    simp only [resume, LikeValue.text alike]
    exact (abreast.withState printed rfl).done .nil
  | define names => exact (abreast.define names.lexeme alike).done .nil
  | branch thenBranch elseBranch =>
    simp only [resume, LikeValue.isTruthy alike]
    split
    · exact abreast.exec thenBranch
    · cases elseBranch with
      | none => exact abreast.done .nil
      | some elseBranch => exact abreast.exec elseBranch
  | test condition body =>
    simp only [resume, LikeValue.isTruthy alike]
    split
    · exact (abreast.push (.again condition body)).exec body
    · exact abreast.done .nil
  | again condition body => exact (abreast.push (.test condition body)).eval condition
  | returning => exact abreast.returned alike
  | sequence rest =>
    cases rest with
    | nil => exact abreast.done .nil
    | cons here later => exact (abreast.push (.sequence later)).exec here
  | constructing made => exact abreast.done made

/-- Going on with the statements of a program, where the second may have more of them. -/
theorem proceed_like {rest rest' : List Stmt} (state : L.LikeState flags next first second)
    (marked : Marked flags first.current.scopes marks) (alike : L.LikeStmts marks rest rest')
    (more : tail = [] ∨ rest ≠ []) :
    L.Matched flags next tail (proceed .program [] first rest)
      (proceed .program [] second (rest' ++ tail)) := by
  cases alike with
  | nil =>
    rcases more with none | some
    · subst none
      exact LikeConfig.matched ⟨state, marks, marked, .signal (.done .nil), .nil rfl⟩
    · exact absurd rfl some
  | cons here later =>
    exact LikeConfig.matched ⟨state, marks, marked, .exec here, .program later⟩

/-- A program is about to end. -/
inductive Ends : Config → Prop
  | done {value : Value} {state : State} : Ends ⟨.signal (.done value), [.program []], state⟩
  | returned {value : Value} {state : State} :
      Ends ⟨.signal (.returned value), [.program []], state⟩
  | failed {fault : RuntimeFault} {rest : List Stmt} {state : State} :
      Ends ⟨.signal (.failed fault), [.program rest], state⟩

theorem step_done (state : L.LikeState flags records.next first second)
    (marked : Marked flags first.current.scopes marks) (alike : L.LikeValue flags value twin)
    {frame : Frame} {whole : List Frame}
    (waits : L.LikeStack flags tail marks (frame :: stack) whole)
    (going : tail = [] ∨ ¬Ends ⟨.signal (.done value), frame :: stack, first⟩)
    (numbered : ∀ target, frame = .assign target → target.id < records.next) :
    L.Matched flags records.next tail (step ⟨.signal (.done value), frame :: stack, first⟩)
      (step ⟨.signal (.done twin), whole, second⟩) := by
  cases waits with
  | frame frames waits => exact Abreast.resume_frame ⟨state, marked, waits⟩ alike frames numbered
  | restore outside waits =>
    have left : L.Abreast flags _ records.next tail _ _ stack _ :=
      ⟨state.withCurrent _, outside, waits⟩
    exact left.done .nil
  | activation outside twins moved waits =>
    have left : L.Abreast flags _ records.next tail _ _ stack _ :=
      ⟨state.withCurrent _, outside, waits⟩
    exact left.finishCall twins moved .nil
  | program alike =>
    refine proceed_like state marked alike (going.imp_right ?_)
    intro running empty
    subst empty
    exact running .done

theorem step_returned (state : L.LikeState flags next first second)
    (marked : Marked flags first.current.scopes marks) (alike : L.LikeValue flags value twin)
    {frame : Frame} {whole : List Frame}
    (waits : L.LikeStack flags tail marks (frame :: stack) whole)
    (going : tail = [] ∨ ¬Ends ⟨.signal (.returned value), frame :: stack, first⟩) :
    L.Matched flags next tail (step ⟨.signal (.returned value), frame :: stack, first⟩)
      (step ⟨.signal (.returned twin), whole, second⟩) := by
  cases waits with
  | frame frames waits =>
    have left : L.Abreast flags marks next tail first second stack _ := ⟨state, marked, waits⟩
    cases frames <;> exact left.returned alike
  | restore outside waits =>
    have left : L.Abreast flags _ next tail _ _ stack _ := ⟨state.withCurrent _, outside, waits⟩
    exact left.returned alike
  | activation outside twins moved waits =>
    have left : L.Abreast flags _ next tail _ _ stack _ := ⟨state.withCurrent _, outside, waits⟩
    exact left.finishCall twins moved alike
  | program alike =>
    refine proceed_like state marked alike (going.imp_right ?_)
    intro running empty
    subst empty
    exact running .returned

theorem step_failed (state : L.LikeState flags next first second)
    (marked : Marked flags first.current.scopes marks) {fault fault' : RuntimeFault}
    (alike : L.LikeFault fault fault') {frame : Frame} {whole : List Frame}
    (waits : L.LikeStack flags tail marks (frame :: stack) whole)
    (going : tail = [] ∨ ¬Ends ⟨.signal (.failed fault), frame :: stack, first⟩) :
    L.Matched flags next tail (step ⟨.signal (.failed fault), frame :: stack, first⟩)
      (step ⟨.signal (.failed fault'), whole, second⟩) := by
  cases waits with
  | frame frames waits =>
    have left : L.Abreast flags marks next tail first second stack _ := ⟨state, marked, waits⟩
    cases frames <;> exact left.failed alike
  | restore outside waits =>
    have left : L.Abreast flags _ next tail _ _ stack _ := ⟨state.withCurrent _, outside, waits⟩
    exact left.failed alike
  | activation outside twins moved waits =>
    have left : L.Abreast flags _ next tail _ _ stack _ := ⟨state.withCurrent _, outside, waits⟩
    exact left.failed alike
  | program _ =>
    rcases going with none | running
    · have left : L.Abreast flags marks next tail first second [] [] := ⟨state, marked, .nil none⟩
      exact left.failed alike
    · exact absurd .failed running

/-- One step of a program is matched by one step of any program that is like it. -/
theorem LikeConfig.step {config twin : Config}
    (alike : L.LikeConfig flags records.next tail config twin) (fits : config.Fits records)
    (going : tail = [] ∨ ¬Ends config) :
    L.Matched flags records.next tail (step config) (step twin) := by
  obtain ⟨state, marks, marked, control, waits⟩ := alike
  obtain ⟨_, stack, first⟩ := config
  obtain ⟨_, stack', second⟩ := twin
  obtain ⟨_, fits⟩ := fits
  cases control with
  | eval alike =>
    obtain ⟨_, _, resolved⟩ := fits
    exact Abreast.step_eval ⟨state, marked, waits⟩ alike resolved
  | exec alike =>
    obtain ⟨_, _, _, resolved, _⟩ := fits
    exact Abreast.step_exec ⟨state, marked, waits⟩ alike resolved
  | signal alike =>
    cases stack with
    | nil =>
      cases waits with
      | nil none => exact LikeConfig.matched ⟨state, marks, marked, .signal alike, .nil none⟩
    | cons frame stack =>
      cases alike with
      | done alike =>
        obtain ⟨_, scopes, stands⟩ := fits
        refine step_done state marked alike waits going ?_
        intro target same
        subst same
        exact Writes.numbered stands.waits.1
      | returned alike => exact step_returned state marked alike waits going
      | failed alike => exact step_failed state marked alike waits going

end Steps

end Likeness
end Lox
