import Lox.Proofs.Alike
import Lox.Proofs.Chains
import Lox.Proofs.Likeness

/-! Runs of programs that are alike. Each address has the mark of the scope it was opened for, in
marked scopes names are swapped, and otherwise the two states are the same. -/

namespace Lox

open Machine

/-- The marks of the scopes on a chain. -/
def Marked (flags : List Bool) (addresses : List Nat) (marks : List Bool) : Prop :=
  addresses.map (flags[·]?) = marks.map some

namespace Marked

variable {flags : List Bool} {addresses : List Nat} {marks : List Bool}

theorem grow (marked : Marked flags addresses marks) (more : List Bool) :
    Marked (flags ++ more) addresses marks := by
  unfold Marked at marked ⊢
  rw [← marked, List.map_inj_left]
  intro address member
  have there : flags[address]? ∈ marks.map some := by
    rw [← marked]
    exact List.mem_map_of_mem member
  obtain ⟨mark, _, found⟩ := List.mem_map.mp there
  have below : address < flags.length := (List.getElem?_eq_some_iff.mp found.symm).1
  rw [List.getElem?_append_left below]

theorem get (marked : Marked flags addresses marks) (distance : Nat) :
    addresses[distance]?.bind (flags[·]?) = marks[distance]? := by
  have same := congrArg (·[distance]?) marked
  simp only [List.getElem?_map] at same
  cases there : addresses[distance]? with
  | none =>
    rw [there] at same
    cases mark : marks[distance]? with
    | none => rfl
    | some mark => rw [mark] at same; cases same
  | some address =>
    rw [there] at same
    cases mark : marks[distance]? with
    | none => rw [mark] at same; cases same
    | some mark =>
      rw [mark] at same
      exact Option.some.inj same

theorem enter (marked : Marked flags addresses marks) (mark : Bool) :
    Marked (flags ++ [mark]) (flags.length :: addresses) (mark :: marks) := by
  have outer := marked.grow [mark]
  unfold Marked at outer ⊢
  rw [List.map_cons, List.map_cons, outer, List.getElem?_append_right (Nat.le_refl _),
    Nat.sub_self]
  rfl

end Marked

namespace Likeness

variable (L : Likeness)

/-- Functions made in one environment from declarations that are alike, seen from some scopes further
in. -/
structure Twins (inner : List Bool) (flags : List Bool) (first second : Function) : Prop where
  identity : second.identity = first.identity
  isInitializer : second.isInitializer = first.isInitializer
  closure : second.closure = first.closure
  declared : ∃ marks, Marked flags first.closure.scopes marks ∧
    L.LikeFunction (inner ++ marks) first.declaration second.declaration

/-- Methods still lack the scope of their receiver, which is never marked. -/
abbrev LikeValue (flags : List Bool) : Value → Value → Prop :=
  Value.Like (L.Twins [] flags) (L.Twins [false] flags)

abbrev LikeClass (flags : List Bool) : Class → Class → Prop :=
  Class.Like (L.Twins [false] flags)

structure LikeStore (flags : List Bool) (first second : Store) : Prop where
  size : first.scopes.size = flags.length
  same : second.scopes.size = first.scopes.size
  scopes : ∀ (address : Nat) mark bindings twin, flags[address]? = some mark →
    first.scopes[address]? = some bindings → second.scopes[address]? = some twin →
      Bindings.Like (L.named mark) (L.LikeValue flags) bindings twin
  count : second.fields.size = first.fields.size
  fields : ∀ (identity : Nat) bindings twin, first.fields[identity]? = some bindings →
    second.fields[identity]? = some twin → Bindings.Like id (L.LikeValue flags) bindings twin

/-- Faults name a variable as it stands in the program. -/
inductive LikeFault : RuntimeFault → RuntimeFault → Prop
  | undefinedVariable (mark : Bool) (name : String) {line line' : Nat} : L.line line line' →
      LikeFault (.undefinedVariable name line) (.undefinedVariable (L.named mark name) line')
  | undefinedProperty (name : String) {line line' : Nat} : L.line line line' →
      LikeFault (.undefinedProperty name line) (.undefinedProperty name line')
  | notCallable {line line' : Nat} : L.line line line' →
      LikeFault (.notCallable line) (.notCallable line')
  | arityMismatch (expected got : Nat) {line line' : Nat} : L.line line line' →
      LikeFault (.arityMismatch expected got line) (.arityMismatch expected got line')
  | typeMismatch (rule : OperandRule) {line line' : Nat} : L.line line line' →
      LikeFault (.typeMismatch rule line) (.typeMismatch rule line')
  | notAnInstance (use : InstanceUse) {line line' : Nat} : L.line line line' →
      LikeFault (.notAnInstance use line) (.notAnInstance use line')
  | invalidSuperclass {line line' : Nat} : L.line line line' →
      LikeFault (.invalidSuperclass line) (.invalidSuperclass line')
  | native (name text : String) {line line' : Nat} : L.line line line' →
      LikeFault (.native name text line) (.native name text line')

inductive LikeSignal (flags : List Bool) : Signal → Signal → Prop
  | done {value twin : Value} : L.LikeValue flags value twin →
      LikeSignal flags (.done value) (.done twin)
  | returned {value twin : Value} : L.LikeValue flags value twin →
      LikeSignal flags (.returned value) (.returned twin)
  | failed {fault twin : RuntimeFault} : L.LikeFault fault twin →
      LikeSignal flags (.failed fault) (.failed twin)

/-! ### Configurations -/

inductive LikeControl (flags marks : List Bool) : Control → Control → Prop
  | eval {e e' : Expr} : L.LikeExpr marks e e' → LikeControl flags marks (.eval e) (.eval e')
  | exec {s s' : Stmt} : L.LikeStmt marks s s' → LikeControl flags marks (.exec s) (.exec s')
  | signal {signal twin : Signal} : L.LikeSignal flags signal twin →
      LikeControl flags marks (.signal signal) (.signal twin)

/-- Frames that wait in the environment in force. -/
inductive LikeFrame (flags marks : List Bool) : Frame → Frame → Prop
  | unary {operator operator' : Token} : L.Same operator operator' →
      LikeFrame flags marks (.unary operator) (.unary operator')
  | left {operator operator' : Token} {right right' : Expr} : L.Same operator operator' →
      L.LikeExpr marks right right' →
      LikeFrame flags marks (.left operator right) (.left operator' right')
  | right {value twin : Value} {operator operator' : Token} : L.LikeValue flags value twin →
      L.Same operator operator' →
      LikeFrame flags marks (.right value operator) (.right twin operator')
  | logical {operator operator' : Token} {right right' : Expr} : L.Same operator operator' →
      L.LikeExpr marks right right' →
      LikeFrame flags marks (.logical operator right) (.logical operator' right')
  | assign {target target' : Reference} : L.Refers marks target target' →
      LikeFrame flags marks (.assign target) (.assign target')
  | callee {paren paren' : Token} {arguments arguments' : List Expr} : L.Same paren paren' →
      L.LikeExprs marks arguments arguments' →
      LikeFrame flags marks (.callee paren arguments) (.callee paren' arguments')
  | argument {callee callee' : Value} {paren paren' : Token} {evaluated evaluated' : List Value}
      {pending pending' : List Expr} : L.LikeValue flags callee callee' → L.Same paren paren' →
      List.Forall₂ (L.LikeValue flags) evaluated evaluated' →
      L.LikeExprs marks pending pending' →
      LikeFrame flags marks (.argument callee paren evaluated pending)
        (.argument callee' paren' evaluated' pending')
  | property {name name' : Token} : L.Same name name' →
      LikeFrame flags marks (.property name) (.property name')
  | target {name name' : Token} {value value' : Expr} : L.Same name name' →
      L.LikeExpr marks value value' →
      LikeFrame flags marks (.target name value) (.target name' value')
  | field {object object' : Instance} {name name' : Token} :
      L.LikeValue flags (.object object) (.object object') → L.Same name name' →
      LikeFrame flags marks (.field object name) (.field object' name')
  | print : LikeFrame flags marks .print .print
  | define {name name' : Token} : L.Names (innermost marks) name name' →
      LikeFrame flags marks (.define name) (.define name')
  | branch {thenBranch thenBranch' : Stmt} {elseBranch elseBranch' : Option Stmt} :
      L.LikeStmt marks thenBranch thenBranch' → L.LikeBranch marks elseBranch elseBranch' →
      LikeFrame flags marks (.branch thenBranch elseBranch) (.branch thenBranch' elseBranch')
  | test {condition condition' : Expr} {body body' : Stmt} : L.LikeExpr marks condition condition' →
      L.LikeStmt marks body body' →
      LikeFrame flags marks (.test condition body) (.test condition' body')
  | again {condition condition' : Expr} {body body' : Stmt} :
      L.LikeExpr marks condition condition' → L.LikeStmt marks body body' →
      LikeFrame flags marks (.again condition body) (.again condition' body')
  | returning : LikeFrame flags marks .returning .returning
  | sequence {rest rest' : List Stmt} : L.LikeStmts marks rest rest' →
      LikeFrame flags marks (.sequence rest) (.sequence rest')
  | constructing {made made' : Instance} : L.LikeValue flags (.object made) (.object made') →
      LikeFrame flags marks (.constructing made) (.constructing made')

/-- The second program may have statements that come after all of the first. -/
inductive LikeStack (flags : List Bool) (tail : List Stmt) :
    List Bool → List Frame → List Frame → Prop
  | nil {marks : List Bool} : tail = [] → LikeStack flags tail marks [] []
  | frame {marks : List Bool} {frame twin : Frame} {stack stack' : List Frame} :
      L.LikeFrame flags marks frame twin → LikeStack flags tail marks stack stack' →
      LikeStack flags tail marks (frame :: stack) (twin :: stack')
  | restore {marks outside : List Bool} {previous : Environment} {stack stack' : List Frame} :
      Marked flags previous.scopes outside → LikeStack flags tail outside stack stack' →
      LikeStack flags tail marks (.restore previous :: stack) (.restore previous :: stack')
  | activation {marks outside : List Bool} {caller : Environment} {function twin : Function}
      {line line' : Nat} {stack stack' : List Frame} :
      Marked flags caller.scopes outside → L.Twins [] flags function twin → L.line line line' →
      LikeStack flags tail outside stack stack' →
      LikeStack flags tail marks (.activation caller function line :: stack)
        (.activation caller twin line' :: stack')
  | program {marks : List Bool} {rest rest' : List Stmt} : L.LikeStmts marks rest rest' →
      LikeStack flags tail marks [.program rest] [.program (rest' ++ tail)]

/-- States that agree on the distances of all references of the first one below a number. -/
structure LikeState (flags : List Bool) (next : Nat) (first second : State) : Prop where
  store : L.LikeStore flags first.store second.store
  current : second.current = first.current
  hosts : second.hosts = first.hosts
  discreet : ∀ act ∈ first.hosts, Discreet act
  born : second.born = first.born
  output : second.output = first.output
  clock : second.clock = first.clock
  hostCalls : second.hostCalls = first.hostCalls
  rooted : flags[0]? = some false
  table : ∀ id < next,
    first.distances[id]? = L.table id ∧ second.distances[L.number id]? = L.table id

structure LikeConfig (flags : List Bool) (next : Nat) (tail : List Stmt) (first second : Config) :
    Prop where
  state : L.LikeState flags next first.state second.state
  code : ∃ marks, Marked flags first.state.current.scopes marks ∧
    L.LikeControl flags marks first.control second.control ∧
      L.LikeStack flags tail marks first.stack second.stack

/-! ### More scopes -/

variable {L} {flags : List Bool}

theorem Twins.grow {inner : List Bool} {first second : Function}
    (twins : L.Twins inner flags first second) (more : List Bool) :
    L.Twins inner (flags ++ more) first second := by
  obtain ⟨marks, marked, alike⟩ := twins.declared
  exact ⟨twins.identity, twins.isInitializer, twins.closure, marks, marked.grow more, alike⟩

theorem LikeValue.grow {value twin : Value} (alike : L.LikeValue flags value twin)
    (more : List Bool) : L.LikeValue (flags ++ more) value twin :=
  alike.imp (fun _ _ twins => twins.grow more) (fun _ _ twins => twins.grow more)

theorem LikeClass.grow {first second : Class} (alike : L.LikeClass flags first second)
    (more : List Bool) : L.LikeClass (flags ++ more) first second :=
  alike.imp fun _ _ twins => twins.grow more

theorem LikeFrame.grow {marks : List Bool} {frame twin : Frame}
    (alike : L.LikeFrame flags marks frame twin) (more : List Bool) :
    L.LikeFrame (flags ++ more) marks frame twin := by
  cases alike with
  | right value operator => exact .right (LikeValue.grow value more) operator
  | argument callee paren evaluated pending =>
    exact .argument (LikeValue.grow callee more) paren
      (evaluated.imp fun _ _ value => LikeValue.grow value more) pending
  | field object name => exact .field (LikeValue.grow object more) name
  | constructing made => exact .constructing (LikeValue.grow made more)
  | unary operator => exact .unary operator
  | left operator right => exact .left operator right
  | logical operator right => exact .logical operator right
  | assign target => exact .assign target
  | callee paren arguments => exact .callee paren arguments
  | property name => exact .property name
  | target name value => exact .target name value
  | print => exact .print
  | define name => exact .define name
  | branch thenBranch elseBranch => exact .branch thenBranch elseBranch
  | test condition body => exact .test condition body
  | again condition body => exact .again condition body
  | returning => exact .returning
  | sequence rest => exact .sequence rest

theorem LikeStack.grow {marks : List Bool} {tail : List Stmt} {stack stack' : List Frame}
    (alike : L.LikeStack flags tail marks stack stack') (more : List Bool) :
    L.LikeStack (flags ++ more) tail marks stack stack' := by
  induction alike with
  | nil none => exact .nil none
  | frame frame _ ih => exact .frame (frame.grow more) ih
  | restore marked _ ih => exact .restore (marked.grow more) ih
  | activation marked twins line _ ih =>
    exact .activation (marked.grow more) (twins.grow more) line ih
  | program rest => exact .program rest

/-! ### Names -/

theorem named_injective (L : Likeness) (mark : Bool) : Function.Injective (L.named mark) := by
  cases mark with
  | false => exact fun _ _ same => same
  | true =>
    intro name other same
    have twice := congrArg L.swap same
    simpa only [named, if_true, L.swap_swap] using twice

@[simp] theorem named_this (L : Likeness) (mark : Bool) : L.named mark thisName = thisName := by
  cases mark with
  | false => rfl
  | true => exact L.swap_this

@[simp] theorem named_super (L : Likeness) (mark : Bool) : L.named mark superName = superName := by
  cases mark with
  | false => rfl
  | true => exact L.swap_super

/-- What a reference becomes if its distance is on record. -/
theorem markOf_of_table {marks : List Bool} {id distance : Nat} {mark : Bool}
    (recorded : L.table id = some distance) (there : marks[distance]? = some mark) :
    L.markOf marks id = mark := by
  simp [markOf, recorded, there]

theorem markOf_of_none {marks : List Bool} {id : Nat} (absent : L.table id = none) :
    L.markOf marks id = false := by
  simp [markOf, absent]

/-! ### Stores -/

variable {first second : Store}

theorem LikeStore.inside {address : Nat} {mark : Bool} (alike : L.LikeStore flags first second)
    (flag : flags[address]? = some mark) :
    ∃ bindings twin, first.scopes[address]? = some bindings ∧
      second.scopes[address]? = some twin ∧
        Bindings.Like (L.named mark) (L.LikeValue flags) bindings twin := by
  have below : address < flags.length := (List.getElem?_eq_some_iff.mp flag).1
  have inFirst : address < first.scopes.size := by rw [alike.size]; exact below
  have inSecond : address < second.scopes.size := by rw [alike.same]; exact inFirst
  have here := Array.getElem?_eq_getElem inFirst
  have there := Array.getElem?_eq_getElem inSecond
  exact ⟨_, _, here, there, alike.scopes address mark _ _ flag here there⟩

theorem LikeStore.lookup? {address : Nat} {mark : Bool} (alike : L.LikeStore flags first second)
    (flag : flags[address]? = some mark) (name : String) :
    Option.Rel (L.LikeValue flags) (first.lookup? address name)
      (second.lookup? address (L.named mark name)) := by
  obtain ⟨bindings, twin, here, there, like⟩ := alike.inside flag
  rw [Store.lookup?, Store.lookup?, here, there]
  exact like.find? name

theorem LikeStore.binds {address : Nat} {mark : Bool} (alike : L.LikeStore flags first second)
    (flag : flags[address]? = some mark) (name : String) :
    second.binds (L.named mark name) address = first.binds name address := by
  have found := alike.lookup? flag name
  unfold Store.binds
  generalize first.lookup? address name = value, second.lookup? address (L.named mark name) = twin
    at found ⊢
  cases found <;> rfl

theorem LikeStore.write {address : Nat} {mark : Bool} {value twin : Value}
    (alike : L.LikeStore flags first second) (flag : flags[address]? = some mark) (name : String)
    (given : L.LikeValue flags value twin) :
    L.LikeStore flags (first.write address name value)
      (second.write address (L.named mark name) twin) := by
  refine ⟨(Store.size_write _ _ _ _).trans alike.size, ?_, ?_, alike.count, alike.fields⟩
  · rw [Store.size_write, Store.size_write, alike.same]
  · intro other mark' bindings twins flag' here there
    simp only [Store.write, Array.getElem?_modify] at here there
    by_cases same : address = other
    · subst same
      rw [flag] at flag'
      cases flag'
      obtain ⟨old, oldTwin, inFirst, inSecond, like⟩ := alike.inside flag
      simp only [inFirst, inSecond, if_true, Option.map_some, Option.some.injEq] at here there
      subst here there
      exact like.insert (L.named_injective mark) name given
    · rw [if_neg same] at here there
      exact alike.scopes other mark' bindings twins flag' here there

theorem LikeStore.enter {bindings twin : Bindings Value} {mark : Bool}
    (alike : L.LikeStore flags first second) (outer : Environment)
    (given : Bindings.Like (L.named mark) (L.LikeValue flags) bindings twin) :
    L.LikeStore (flags ++ [mark]) (first.enter outer bindings).2
      (second.enter outer twin).2 := by
  have grow : ∀ value other, L.LikeValue flags value other →
      L.LikeValue (flags ++ [mark]) value other := fun _ _ like => LikeValue.grow like [mark]
  refine ⟨by simp [Store.enter, alike.size], by simp [Store.enter, alike.same], ?_, alike.count, ?_⟩
  · intro address other held heldTwin flag here there
    simp only [Store.enter, Array.getElem?_push, alike.same] at here there
    by_cases fresh : address = first.scopes.size
    · rw [if_pos fresh] at here there
      cases here
      cases there
      rw [fresh, alike.size, List.getElem?_append_right (Nat.le_refl _), Nat.sub_self] at flag
      cases flag
      exact given.imp grow
    · rw [if_neg fresh] at here there
      have below : address < flags.length := by
        rw [← alike.size]
        exact (Array.getElem?_eq_some_iff.mp here).1
      rw [List.getElem?_append_left below] at flag
      exact (alike.scopes address other held heldTwin flag here there).imp grow
  · intro identity held heldTwin here there
    exact (alike.fields identity held heldTwin here there).imp grow

theorem LikeStore.instantiate (alike : L.LikeStore flags first second) (c d : Class) :
    L.LikeStore flags (first.instantiate c).2 (second.instantiate d).2 := by
  refine ⟨alike.size, alike.same, alike.scopes, by simp [Store.instantiate, alike.count], ?_⟩
  intro identity held heldTwin here there
  simp only [Store.instantiate, Array.getElem?_push, alike.count] at here there
  by_cases fresh : identity = first.fields.size
  · rw [if_pos fresh] at here there
    cases here
    cases there
    exact .empty
  · rw [if_neg fresh] at here there
    exact alike.fields identity held heldTwin here there

theorem LikeStore.field? {c d : Class} (alike : L.LikeStore flags first second)
    (identity : Nat) (name : String) :
    Option.Rel (L.LikeValue flags) (first.field? ⟨identity, c⟩ name)
      (second.field? ⟨identity, d⟩ name) := by
  unfold Store.field?
  cases here : first.fields[identity]? with
  | none =>
    have outside := Array.getElem?_eq_none_iff.mp here
    rw [← alike.count] at outside
    rw [Array.getElem?_eq_none_iff.mpr outside]
    exact .none
  | some bindings =>
    have below := (Array.getElem?_eq_some_iff.mp here).1
    rw [← alike.count] at below
    have there := Array.getElem?_eq_getElem below
    rw [there]
    exact (alike.fields identity _ _ here there).find? name

theorem LikeStore.setField {identity : Nat} {c d : Class} {value twin : Value}
    (alike : L.LikeStore flags first second) (name : String)
    (given : L.LikeValue flags value twin) :
    L.LikeStore flags (first.setField ⟨identity, c⟩ name value)
      (second.setField ⟨identity, d⟩ name twin) := by
  refine ⟨alike.size, alike.same, alike.scopes, by simp [Store.setField, alike.count], ?_⟩
  intro other bindings twins here there
  simp only [Store.setField, Array.getElem?_modify] at here there
  by_cases same : identity = other
  · rw [if_pos same] at here there
    obtain ⟨old, inFirst, rfl⟩ := Option.map_eq_some_iff.mp here
    obtain ⟨oldTwin, inSecond, rfl⟩ := Option.map_eq_some_iff.mp there
    exact (alike.fields other old oldTwin inFirst inSecond).insert Function.injective_id name given
  · rw [if_neg same] at here there
    exact alike.fields other bindings twins here there

end Likeness
end Lox
