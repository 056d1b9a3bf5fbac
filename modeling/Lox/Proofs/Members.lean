import Mathlib
import Lox.Proofs.Calls
import Lox.Proofs.Supers

/-! The members of instances. A name stands for what the field of that instance was last set to; if
it never was, for the last method of that name in the nearest class that declares one, bound to the
instance; and else for nothing. Classes are told by the statements that made them, and fields by
what was done to instances. -/

namespace Lox

open Machine

/-- The last element with a property. -/
inductive Last {α : Type} (p : α → Prop) : List α → α → Prop
  | here {a : α} {rest : List α} : p a → (∀ b ∈ rest, ¬ p b) → Last p (a :: rest) a
  | later {a b : α} {rest : List α} : Last p rest b → Last p (a :: rest) b

theorem exists_last {α : Type} {p : α → Prop} {list : List α} (found : ∃ a ∈ list, p a) :
    ∃ a, Last p list a := by
  induction list with
  | nil => simp at found
  | cons a rest ih =>
    by_cases later : ∃ b ∈ rest, p b
    · obtain ⟨b, last⟩ := ih later
      exact ⟨b, .later last⟩
    · obtain ⟨b, member, good⟩ := found
      rcases List.mem_cons.mp member with rfl | member
      · exact ⟨b, .here good fun other member good => later ⟨other, member, good⟩⟩
      · exact absurd ⟨b, member, good⟩ later

theorem Last.holds {α : Type} {p : α → Prop} {list : List α} {a : α} (last : Last p list a) :
    p a := by
  induction last with
  | here good _ => exact good
  | later _ ih => exact ih

theorem Last.mem {α : Type} {p : α → Prop} {list : List α} {a : α} (last : Last p list a) :
    a ∈ list := by
  induction last with
  | here _ _ => exact List.mem_cons_self
  | later _ ih => exact List.mem_cons_of_mem _ ih

theorem Last.unique {α : Type} {p : α → Prop} {list : List α} {a b : α} (last : Last p list a)
    (also : Last p list b) : a = b := by
  induction last with
  | here _ none =>
    cases also with
    | here _ _ => rfl
    | later also => exact absurd also.holds (none b also.mem)
  | later last ih =>
    cases also with
    | here _ none => exact absurd last.holds (none _ last.mem)
    | later also => exact ih also

/-! ### Classes by their statements -/

/-- What a class statement declares, and the environment its methods close over. -/
structure Declared where
  methods : List FunctionDecl
  around : Environment

def Declared.Names (declared : Declared) (name : String) : Prop :=
  ∃ method ∈ declared.methods, method.name.lexeme = name

/-- The next step executes a class statement, and binds its name to the class it makes. The methods
of a subclass are made in an environment of their own, around which stands the one of the
statement. -/
inductive Machine.Config.Builds : Config → Option Class → Declared → Class → Prop
  | plain {name : Token} {methods : List FunctionDecl} {c : Class} {stack : List Frame}
      {state : State} :
      (step ⟨.exec (.classDecl name none methods), stack, state⟩).state.store.lookup?
        state.current.scope name.lexeme = some (.klass c) →
      Config.Builds ⟨.exec (.classDecl name none methods), stack, state⟩ none
        ⟨methods, state.current⟩ c
  | derived {name : Token} {superclass : Reference} {methods : List FunctionDecl} {c above : Class}
      {stack : List Frame} {state : State} :
      state.lookup? superclass = some (.klass above) →
      (step ⟨.exec (.classDecl name (some superclass) methods), stack, state⟩).state.store.lookup?
        state.current.scope name.lexeme = some (.klass c) →
      Config.Builds ⟨.exec (.classDecl name (some superclass) methods), stack, state⟩ (some above)
        ⟨methods, state.current.within state.store.scopes.size⟩ c

/-- What the statements of a class and of the classes it inherits from declare, nearest first. -/
inductive Class.Built : Class → List Declared → Prop
  | plain {config : Config} {declared : Declared} {c : Class} :
      config.Builds none declared c → Class.Built c [declared]
  | derived {config : Config} {declared : Declared} {c above : Class} {lineage : List Declared} :
      config.Builds (some above) declared c → Class.Built above lineage →
      Class.Built c (declared :: lineage)

/-- The last method of a name in the nearest class that declares one, and the environment it closes
over. -/
inductive Prevails (name : String) : List Declared → FunctionDecl → Environment → Prop
  | here {declared : Declared} {further : List Declared} {method : FunctionDecl} :
      Last (fun other => other.name.lexeme = name) declared.methods method →
      Prevails name (declared :: further) method declared.around
  | further {declared : Declared} {further : List Declared} {method : FunctionDecl}
      {around : Environment} : ¬ declared.Names name → Prevails name further method around →
      Prevails name (declared :: further) method around

structure Function.MadeFrom (f : Function) (method : FunctionDecl) (around : Environment) :
    Prop where
  declaration : f.declaration = method
  closure : f.closure = around
  isInitializer : f.isInitializer = method.isInitializer

theorem exists_prevails {name : String} {lineage : List Declared}
    (named : ∃ declared ∈ lineage, declared.Names name) :
    ∃ method around, Prevails name lineage method around := by
  induction lineage with
  | nil => simp at named
  | cons declared further ih =>
    by_cases here : declared.Names name
    · obtain ⟨method, last⟩ := exists_last here
      exact ⟨method, declared.around, .here last⟩
    · obtain ⟨other, member, names⟩ := named
      rcases List.mem_cons.mp member with rfl | member
      · exact absurd names here
      · obtain ⟨method, around, prevails⟩ := ih ⟨other, member, names⟩
        exact ⟨method, around, .further here prevails⟩

theorem Prevails.unique {name : String} {lineage : List Declared} {method other : FunctionDecl}
    {around beside : Environment} (prevails : Prevails name lineage method around)
    (also : Prevails name lineage other beside) : method = other ∧ around = beside := by
  induction prevails with
  | here last =>
    cases also with
    | here also => exact ⟨last.unique also, rfl⟩
    | further unnamed _ => exact absurd ⟨_, last.mem, last.holds⟩ unnamed
  | further unnamed _ ih =>
    cases also with
    | here last => exact absurd ⟨_, last.mem, last.holds⟩ unnamed
    | further _ also => exact ih also

variable {name : String} {method : FunctionDecl} {around : Environment} {declared : Declared}
  {lineage : List Declared} {c above : Class} {config : Config}

/-- Of the methods with one name the last stays. -/
theorem Machine.State.closeMethods_last (methods : List FunctionDecl) (state : State)
    (bindings : Bindings Function) :
    (∀ method, Last (fun other => other.name.lexeme = name) methods method →
      ∃ f, (state.closeMethods methods bindings).1.find? name = some f ∧
        f.MadeFrom method state.current) ∧
    ((∀ method ∈ methods, method.name.lexeme ≠ name) →
      (state.closeMethods methods bindings).1.find? name = bindings.find? name) := by
  induction methods generalizing state bindings with
  | nil => exact ⟨nofun, fun _ => rfl⟩
  | cons first rest ih =>
    obtain ⟨found, absent⟩ := ih (state.close first first.isInitializer).2
      (bindings.insert first.name.lexeme (state.close first first.isInitializer).1)
    refine ⟨fun method last => ?_, fun none => ?_⟩
    · cases last with
      | here named none =>
        refine ⟨(state.close first first.isInitializer).1, ?_, rfl, rfl, rfl⟩
        rw [State.closeMethods, absent none, Bindings.find?_insert, if_pos named.symm]
      | later last => exact found method last
    · obtain ⟨other, none⟩ := List.forall_mem_cons.mp none
      rw [State.closeMethods, absent none, Bindings.find?_insert, if_neg (Ne.symm other)]

/-- What a class statement makes has the methods of the statement, and the layers of the
superclass. -/
theorem Machine.State.class_declareClass {state : State} {word : Token} {superclass : Option Class}
    {methods : List FunctionDecl}
    (bound : (state.declareClass word superclass methods).store.lookup? state.current.scope
      word.lexeme = some (.klass c)) :
    c.own.methods = ((state.enterSuper superclass).closeMethods methods .empty).1 ∧
      c.inherited = (superclass.map Class.layers).getD [] := by
  let closed := (state.enterSuper superclass).closeMethods methods .empty
  have written := closed.2.store.lookup?_write state.current.scope state.current.scope word.lexeme
    word.lexeme
    (.klass ⟨⟨closed.2.born, word.lexeme, closed.1⟩, (superclass.map Class.layers).getD []⟩)
  have stored := written.symm.trans bound
  by_cases inside : state.current.scope < closed.2.store.scopes.size
  · rw [if_pos ⟨rfl, rfl, inside⟩] at stored
    cases stored
    exact ⟨rfl, rfl⟩
  · have outside := Nat.le_of_not_lt inside
    rw [if_neg (fun all => inside all.2.2), Store.lookup?_of_size_le outside] at stored
    cases stored

theorem Machine.Config.Builds.methods {superclass : Option Class}
    (builds : config.Builds superclass declared c) (name : String) :
    c.inherited = (superclass.map Class.layers).getD [] ∧
    (∀ method, Last (fun other => other.name.lexeme = name) declared.methods method →
      ∃ f, c.own.methods.find? name = some f ∧ f.MadeFrom method declared.around) ∧
    (¬ declared.Names name → c.own.methods.find? name = none) := by
  have undeclared {methods : List FunctionDecl} {state : State}
      (unnamed : ¬ ∃ method ∈ methods, method.name.lexeme = name) :
      (state.closeMethods methods .empty).1.find? name = none :=
    (state.closeMethods_last methods .empty).2 fun method member named =>
      unnamed ⟨method, member, named⟩
  cases builds with
  | plain bound =>
    obtain ⟨own, inherited⟩ := State.class_declareClass bound
    rw [own]
    exact ⟨inherited, (State.closeMethods_last _ _ _).1, undeclared⟩
  | derived found bound =>
    simp only [step, exec, declareClass, found] at bound
    obtain ⟨own, inherited⟩ := State.class_declareClass bound
    rw [own]
    exact ⟨inherited, (State.closeMethods_last _ _ _).1, undeclared⟩

theorem Class.findMethod?_eq (c : Class) (name : String) : c.findMethod? name =
    (c.own.methods.find? name).or (c.inherited.findSome? (·.methods.find? name)) := by
  rw [findMethod?, layers, List.findSome?_cons]
  cases c.own.methods.find? name <;> rfl

theorem Machine.Config.Builds.findMethod? {superclass : Option Class}
    (builds : config.Builds superclass declared c) (name : String) :
    (∀ method, Last (fun other => other.name.lexeme = name) declared.methods method →
      ∃ f, c.findMethod? name = some f ∧ f.MadeFrom method declared.around) ∧
    (¬ declared.Names name → c.findMethod? name = superclass.bind (·.findMethod? name)) := by
  obtain ⟨inherited, found, absent⟩ := builds.methods name
  refine ⟨fun method last => ?_, fun unnamed => ?_⟩
  · obtain ⟨f, own, made⟩ := found method last
    exact ⟨f, by rw [Class.findMethod?_eq, own, Option.some_or], made⟩
  · rw [Class.findMethod?_eq, absent unnamed, Option.none_or, inherited]
    cases superclass <;> rfl

/-- The method of a name that a class has is the one that prevails among the statements. -/
theorem Class.Built.findMethod? (built : c.Built lineage) (name : String) :
    (∀ method around, Prevails name lineage method around →
      ∃ f, c.findMethod? name = some f ∧ f.MadeFrom method around) ∧
    ((∀ declared ∈ lineage, ¬ declared.Names name) → c.findMethod? name = none) := by
  induction built with
  | plain builds =>
    obtain ⟨found, further⟩ := builds.findMethod? name
    refine ⟨fun method around prevails => ?_, fun unnamed => ?_⟩
    · cases prevails with
      | here last => exact found method last
      | further _ prevails => cases prevails
    · exact further (unnamed _ List.mem_cons_self)
  | derived builds _ ih =>
    obtain ⟨found, further⟩ := builds.findMethod? name
    refine ⟨fun method around prevails => ?_, fun unnamed => ?_⟩
    · cases prevails with
      | here last => exact found method last
      | further unnamed prevails =>
        obtain ⟨f, inherits, made⟩ := ih.1 method around prevails
        exact ⟨f, (further unnamed).trans inherits, made⟩
    · obtain ⟨here, above⟩ := List.forall_mem_cons.mp unnamed
      exact (further here).trans (ih.2 above)

/-! ### Fields by what was done -/

/-- What is done to instances. -/
inductive Effect
  | make (made : Instance)
  | set (i : Instance) (name : String) (value : Value)

/-- It sets a field of that same instance. -/
def Effect.Sets (i : Instance) (name : String) : Effect → Prop
  | .make _ => False
  | .set j key _ => j.identity = i.identity ∧ key = name

/-- From one state to another, with what is done to instances in between. Anything else may happen
that leaves all fields as they are. -/
inductive Undergoes : State → List Effect → State → Prop
  | refl (state : State) : Undergoes state [] state
  | make {state last : State} {effects : List Effect} (c : Class) :
      Undergoes (state.instantiate c).2 effects last →
      Undergoes state (.make (state.instantiate c).1 :: effects) last
  | set {state last : State} {effects : List Effect} (i : Instance) (name : String)
      (value : Value) : Undergoes (state.setField i name value) effects last →
      Undergoes state (.set i name value :: effects) last
  | other {state next last : State} {effects : List Effect} :
      next.store.fields = state.store.fields → Undergoes next effects last →
      Undergoes state effects last

variable {state first last : State} {effects : List Effect} {i j : Instance} {key : String}
  {value : Value}

@[simp] theorem Machine.State.size_fields_instantiate (state : State) (c : Class) :
    (state.instantiate c).2.store.fields.size = state.store.fields.size + 1 :=
  Array.size_push _

@[simp] theorem Machine.State.size_fields_setField (state : State) (i : Instance) (name : String)
    (value : Value) : (state.setField i name value).store.fields.size = state.store.fields.size :=
  Array.size_modify

theorem Undergoes.size_le (undergoes : Undergoes state effects last) :
    state.store.fields.size ≤ last.store.fields.size := by
  induction undergoes with
  | refl => exact le_rfl
  | make c _ ih => exact (Nat.le_succ _).trans ((State.size_fields_instantiate _ c).ge.trans ih)
  | set i name value _ ih => exact (State.size_fields_setField _ i name value).ge.trans ih
  | other same _ ih => exact same ▸ ih

theorem Store.field?_set {store : Store} (inside : i.identity < store.fields.size) (j : Instance)
    (key name : String) (value : Value) : (store.setField j key value).field? i name =
      if j.identity = i.identity ∧ key = name then some value else store.field? i name := by
  simp only [field?, setField, Array.getElem?_modify]
  by_cases same : j.identity = i.identity
  · simp [same, inside, eq_comm]
  · simp [same]

/-- An instance has no fields at first. -/
theorem field?_instantiate (state : State) (c : Class) (name : String) :
    (state.instantiate c).2.store.field? (state.instantiate c).1 name = none := by
  simp [State.instantiate, Store.instantiate, Store.field?]

/-- A field of an instance has the value it was last set to, whatever else happened. -/
theorem Undergoes.field (undergoes : Undergoes state effects last)
    (inside : i.identity < state.store.fields.size) (name : String) :
    (∀ j key value, Last (Effect.Sets i name) effects (.set j key value) →
      last.store.field? i name = some value) ∧
    ((∀ effect ∈ effects, ¬ effect.Sets i name) →
      last.store.field? i name = state.store.field? i name) := by
  induction undergoes with
  | refl => exact ⟨nofun, fun _ => rfl⟩
  | @make state last effects c _ ih =>
    have still : i.identity < (state.instantiate c).2.store.fields.size := by
      rw [State.size_fields_instantiate]
      exact inside.trans (Nat.lt_succ_self _)
    have same : (state.instantiate c).2.store.field? i name = state.store.field? i name := by
      simp [State.instantiate, Store.instantiate, Store.field?, Array.getElem?_push,
        Nat.ne_of_lt inside]
    obtain ⟨set, unset⟩ := ih still
    refine ⟨fun j key value found => ?_, fun none => ?_⟩
    · cases found with
      | later found => exact set j key value found
    · exact (unset (List.forall_mem_cons.mp none).2).trans same
  | @set state last effects j key value _ ih =>
    have still : i.identity < (state.setField j key value).store.fields.size := by
      rwa [State.size_fields_setField]
    have written := Store.field?_set inside j key name value
    obtain ⟨set, unset⟩ := ih still
    refine ⟨fun other word found last => ?_, fun none => ?_⟩
    · cases last with
      | here sets none =>
        rw [unset none]
        exact written.trans (if_pos sets)
      | later last => exact set other word found last
    · obtain ⟨here, later⟩ := List.forall_mem_cons.mp none
      rw [unset later]
      exact written.trans (if_neg here)
  | @other state next last effects same _ ih =>
    rw [← same] at inside
    obtain ⟨set, unset⟩ := ih inside
    refine ⟨set, fun none => (unset none).trans ?_⟩
    rw [Store.field?, same]
    rfl

/-- An instance that is made has an identity that none had before. -/
theorem Undergoes.fresh (undergoes : Undergoes state effects last)
    (inside : i.identity < state.store.fields.size) (made : .make j ∈ effects) :
    j.identity ≠ i.identity := by
  induction undergoes with
  | refl => cases made
  | @make state last effects c _ ih =>
    rcases List.mem_cons.mp made with same | later
    · cases same
      exact (Nat.ne_of_lt inside).symm
    · refine ih ?_ later
      rw [State.size_fields_instantiate]
      exact inside.trans (Nat.lt_succ_self _)
  | set k key value _ ih =>
    refine ih ?_ ((List.mem_cons.mp made).resolve_left nofun)
    rwa [State.size_fields_setField]
  | other same _ ih => exact ih (same ▸ inside) made

/-! ### Looking members up -/

/-- A new function for a method of an instance: a copy of what the class statement declares, in a
new environment in which `this` is the instance, inside of the one the methods close over. -/
structure Function.Attaches (bound : Function) (method : FunctionDecl) (around : Environment)
    (i : Instance) (before after : State) : Prop where
  identity : bound.identity = before.born
  born : after.born = before.born + 1
  declaration : bound.declaration = method
  isInitializer : bound.isInitializer = method.isInitializer
  closure : bound.closure = around.within before.store.scopes.size
  fields : after.store.fields = before.store.fields
  receiver : after.store.get? bound.closure thisName = some (.object i)

theorem attaches_bindMethod {f : Function} (made : f.MadeFrom method around) (state : State)
    (i : Instance) :
    (state.bindMethod f i).1.Attaches method around i state (state.bindMethod f i).2 where
  identity := rfl
  born := rfl
  declaration := made.declaration
  isInitializer := made.isInitializer
  closure := congrArg (Environment.within · state.store.scopes.size) made.closure
  fields := rfl
  receiver := (boundTo_bindMethod state f i).receiver

theorem property_field {word : Token} (found : state.store.field? i word.lexeme = some value) :
    state.property i word = (.ok value, state) := by
  rw [State.property, found]

theorem property_method {word : Token} {f : Function}
    (unset : state.store.field? i word.lexeme = none)
    (found : i.ofClass.findMethod? word.lexeme = some f) :
    state.property i word =
      (.ok (.function (state.bindMethod f i).1), (state.bindMethod f i).2) := by
  rw [State.property, unset]
  dsimp only
  rw [found]

theorem property_missing {word : Token} (unset : state.store.field? i word.lexeme = none)
    (absent : i.ofClass.findMethod? word.lexeme = none) :
    state.property i word = (.error (.undefinedProperty word.lexeme word.line), state) := by
  rw [State.property, unset]
  dsimp only
  rw [absent]

/-- Setting a field alters nothing that is found of another instance or under another name. -/
theorem property_setField (inside : i.identity < state.store.fields.size) {word : Token}
    (other : j.identity ≠ i.identity ∨ key ≠ word.lexeme) (value : Value) :
    ((state.setField j key value).property i word).1 = (state.property i word).1 := by
  have same : (state.setField j key value).store.field? i word.lexeme =
      state.store.field? i word.lexeme := by
    refine (Store.field?_set inside j key word.lexeme value).trans (if_neg ?_)
    rintro ⟨identity, name⟩
    exact other.elim (· identity) (· name)
  rw [State.property, State.property, same]
  cases state.store.field? i word.lexeme with
  | some found => rfl
  | none =>
    dsimp only
    cases i.ofClass.findMethod? word.lexeme <;> rfl

/-! ### What the machine does -/

/-- What the next step does to instances. -/
inductive Machine.Config.Does : Config → Effect → Prop
  | make {config : Config} {c : Class} {arguments : List Value} {line : Nat} {stack : List Frame} :
      config.Calls (.klass c) arguments line stack →
      config.Does (.make (config.state.instantiate c).1)
  | set {i : Instance} {name : Token} {value : Value} {stack : List Frame} {state : State} :
      Config.Does ⟨.signal (.done value), .field i name :: stack, state⟩ (.set i name.lexeme value)

section Fields

variable {stack : List Frame} {arguments : List Value} {line : Nat} {effect : Effect}

theorem fields_construct (c : Class) : (construct c arguments line stack state).state.store.fields =
    (state.instantiate c).2.store.fields := by
  simp only [construct]
  split <;> rfl

theorem fields_apply {callee : Value} (other : ∀ c, callee ≠ .klass c) :
    (apply callee arguments line stack state).state.store.fields = state.store.fields := by
  cases callee with
  | klass c => exact absurd rfl (other c)
  | native native => exact congrArg (·.store.fields) (Config.state_ofExcept _)
  | _ => rfl

theorem fields_declareClass (state : State) (name : Token) (superclass : Option Class)
    (methods : List FunctionDecl) :
    (state.declareClass name superclass methods).store.fields = state.store.fields := by
  obtain ⟨born, own, _, whole⟩ := state.declareClass_eq name superclass methods
  rw [whole]
  cases superclass <;> rfl

/-- A call that makes no instance leaves the fields as they are. -/
theorem Machine.Config.Gathers.fields {callee : Value} {paren : Token}
    (gathers : config.Gathers callee paren arguments stack)
    (idle : ∀ effect, ¬ config.Does effect) :
    (Machine.step config).state.store.fields = config.state.store.fields := by
  cases takes : callee.arity? with
  | none => rw [gathers.refuses_uncallable takes]; rfl
  | some arity =>
    by_cases same : arguments.length = arity
    · have calls := gathers.calls (same ▸ takes)
      rw [calls.step]
      refine fields_apply ?_
      rintro c rfl
      exact idle _ (.make calls)
    · rw [gathers.refuses_number takes same]
      rfl

theorem Machine.Transition.fields {next : Config} (transition : Transition config next)
    (idle : ∀ effect, ¬ config.Does effect) :
    next.state.store.fields = config.left.store.fields := by
  cases transition with
  | calls gathers => exact config.store_left ▸ gathers.step ▸ gathers.fields idle
  | sets => exact absurd .set (idle _)
  | builds above methods _ => exact fields_declareClass config.left _ above methods
  | _ => rfl

theorem Machine.Config.Does.undergoes (does : config.Does effect) :
    Undergoes config.state [effect] (step config).state := by
  cases does with
  | make calls =>
    rw [calls.step]
    exact .make _ (.other (fields_construct _) (.refl _))
  | set => exact .set _ _ _ (.refl _)

theorem Machine.Config.Does.unique {other : Effect} (does : config.Does effect)
    (also : config.Does other) : other = effect := by
  cases does with
  | make calls => cases calls <;> cases also <;> rename_i calls <;> cases calls <;> rfl
  | set =>
    cases also with
    | make calls => cases calls
    | set => rfl

/-- Step by step the machine does nothing else to instances than what the steps are told to do. -/
theorem undergoes_step (config : Config) : ∃ effects,
    Undergoes config.state effects (step config).state ∧
    ∀ effect, effect ∈ effects ↔ config.Does effect := by
  by_cases busy : ∃ effect, config.Does effect
  · obtain ⟨effect, does⟩ := busy
    refine ⟨[effect], does.undergoes, fun other => ⟨fun member => ?_, fun also => ?_⟩⟩
    · rwa [List.mem_singleton.mp member]
    · rw [does.unique also]
      exact List.mem_singleton_self effect
  · have idle := not_exists.mp busy
    have same := (transition_step config).fields idle
    rw [config.store_left] at same
    exact ⟨[], .other same (.refl _), fun effect => by simp [idle effect]⟩

end Fields

theorem Undergoes.trans {middle : State} {more : List Effect}
    (earlier : Undergoes first effects middle) (later : Undergoes middle more last) :
    Undergoes first (effects ++ more) last := by
  induction earlier with
  | refl => exact later
  | make c _ ih => exact .make c (ih later)
  | set i name value _ ih => exact .set i name value (ih later)
  | other same _ ih => exact .other same (ih later)

/-- What a session goes through next does to instances what a step of it does, or nothing. -/
theorem Next.undergoes {hosts : HostFunction → Prop} {before after : Moment}
    (move : Next hosts before after) : ∃ effects, Undergoes before.machine effects after.machine ∧
      ∀ effect ∈ effects, ∃ session config, before = .busy session config ∧ config.Does effect := by
  have quiet (same : after.machine.store.fields = before.machine.store.fields) :
      ∃ effects, Undergoes before.machine effects after.machine ∧
        ∀ effect ∈ effects, ∃ session config, before = .busy session config ∧ config.Does effect :=
    ⟨[], .other same (.refl _), nofun⟩
  cases move with
  | native => exact quiet rfl
  | refuse prepared | begin prepared =>
    obtain ⟨table, same⟩ := prepare_machine prepared
    exact quiet (congrArg (·.store.fields) same)
  | @step session config =>
    obtain ⟨effects, undergoes, told⟩ := undergoes_step config
    exact ⟨effects, undergoes, fun effect member => ⟨session, config, rfl, (told effect).mp member⟩⟩
  | @settle session config ending ended =>
    refine quiet ?_
    rw [Moment.machine, (session.settle_same ending).1, Config.state_finished? ended]
    rfl

theorem Later.undergoes {hosts : HostFunction → Prop} {before after : Moment}
    (later : Later hosts before after) : ∃ effects, Undergoes before.machine effects after.machine ∧
      ∀ effect ∈ effects, ∃ session config, Later hosts before (.busy session config) ∧
        config.Does effect := by
  induction later with
  | refl => exact ⟨[], .refl _, nofun⟩
  | @next middle last earlier move ih =>
    obtain ⟨effects, undergoes, told⟩ := ih
    obtain ⟨more, further, does⟩ := move.undergoes
    refine ⟨effects ++ more, undergoes.trans further, fun effect member => ?_⟩
    rcases List.mem_append.mp member with member | member
    · exact told effect member
    · obtain ⟨session, config, rfl, now⟩ := does effect member
      exact ⟨session, config, earlier, now⟩

/-- What is found of an instance after whatever was done since it was made, and that a session does
nothing else to instances. -/
theorem members_found (built : c.Built lineage) (made : (first.instantiate c).1 = i)
    (undergoes : Undergoes (first.instantiate c).2 effects last) (word : Token) :
    ((∃ effect ∈ effects, effect.Sets i word.lexeme) → ∃ j value,
      Last (Effect.Sets i word.lexeme) effects (.set j word.lexeme value) ∧
        last.property i word = (.ok value, last)) ∧
    ((∀ effect ∈ effects, ¬ effect.Sets i word.lexeme) →
      ((∃ declared ∈ lineage, declared.Names word.lexeme) → ∃ method around bound after,
        Prevails word.lexeme lineage method around ∧
          last.property i word = (.ok (.function bound), after) ∧
          bound.Attaches method around i last after) ∧
      ((∀ declared ∈ lineage, ¬ declared.Names word.lexeme) →
        last.property i word = (.error (.undefinedProperty word.lexeme word.line), last))) ∧
    (∀ j key value, j.identity ≠ i.identity ∨ key ≠ word.lexeme →
      ((last.setField j key value).property i word).1 = (last.property i word).1) ∧
    (∀ j, .make j ∈ effects → j.identity ≠ i.identity) ∧
    ((∀ method around, Prevails word.lexeme lineage method around →
      ∃ f, c.findMethod? word.lexeme = some f ∧ f.MadeFrom method around) ∧
    ((∀ declared ∈ lineage, ¬ declared.Names word.lexeme) → c.findMethod? word.lexeme = none)) ∧
    ∀ hosts before after, Later hosts before after → ∃ done,
      Undergoes before.machine done after.machine ∧
        ∀ effect ∈ done, ∃ session config, Later hosts before (.busy session config) ∧
          config.Does effect := by
  subst made
  have inside : (first.instantiate c).1.identity < (first.instantiate c).2.store.fields.size := by
    rw [State.size_fields_instantiate]
    exact Nat.lt_succ_self _
  obtain ⟨set, unset⟩ := undergoes.field inside word.lexeme
  obtain ⟨found, missing⟩ := built.findMethod? word.lexeme
  refine ⟨fun some => ?_, fun none => ?_, ?_, ?_, ⟨found, missing⟩, ?_⟩
  · obtain ⟨effect, lastly⟩ := exists_last some
    cases effect with
    | make _ => exact lastly.holds.elim
    | set j key value =>
      obtain ⟨_, rfl⟩ := lastly.holds
      exact ⟨j, value, lastly, property_field (set j _ value lastly)⟩
  · have empty := (unset none).trans (field?_instantiate first c word.lexeme)
    refine ⟨fun named => ?_, fun unnamed => property_missing empty (missing unnamed)⟩
    obtain ⟨method, around, prevails⟩ := exists_prevails named
    obtain ⟨f, finds, from_method⟩ := found method around prevails
    exact ⟨method, around, _, _, prevails, property_method empty finds,
      attaches_bindMethod from_method last _⟩
  · exact fun j key value other => property_setField (inside.trans_le undergoes.size_le) other value
  · exact fun j made => undergoes.fresh inside made
  · exact fun hosts before after later => later.undergoes

/-- A subclass that declares a method twice, which its superclass declares as well, and an instance
with a field that is set twice, beside another with one. -/
theorem members_found_of_override : ∃ (c : Class) (lineage : List Declared) (first last : State)
    (i : Instance) (effects : List Effect) (m n : FunctionDecl), c.Built lineage ∧
      (first.instantiate c).1 = i ∧ Undergoes (first.instantiate c).2 effects last ∧
      last.property i ⟨.identifier, "x", 1⟩ = (.ok (.bool true), last) ∧
      (∃ bound after, last.property i ⟨.identifier, "m", 1⟩ = (.ok (.function bound), after) ∧
        bound.Attaches m ⟨1, [0]⟩ i last after) ∧
      (∃ bound after, last.property i ⟨.identifier, "n", 1⟩ = (.ok (.function bound), after) ∧
        bound.Attaches n globals i last after) ∧
      last.property i ⟨.identifier, "y", 1⟩ = (.error (.undefinedProperty "y" 1), last) := by
  let word (name : String) : Token := ⟨.identifier, name, 1⟩
  let m : FunctionDecl := ⟨word "m", [], []⟩
  let n : FunctionDecl := ⟨word "n", [], []⟩
  let again : FunctionDecl := ⟨word "m", [word "k"], []⟩
  let state := State.start (fun _ => 0) false
  let plain : Config := ⟨.exec (.classDecl (word "A") none [m, n]), [], state⟩
  let above : Class :=
    ⟨⟨2, "A", ⟨[("m", ⟨0, m, globals, false⟩), ("n", ⟨1, n, globals, false⟩)]⟩⟩, []⟩
  let middle := (step plain).state
  let derived : Config :=
    ⟨.exec (.classDecl (word "B") (some ⟨0, word "A"⟩) [m, again]), [], middle⟩
  let c : Class := ⟨⟨5, "B", ⟨[("m", ⟨4, again, ⟨1, [0]⟩, false⟩)]⟩⟩, [above.own]⟩
  let lineage : List Declared := [⟨[m, again], ⟨1, [0]⟩⟩, ⟨[m, n], globals⟩]
  have stored : middle.store.get? globals "A" = some (.klass above) := by cbv
  have looked : middle.lookup? ⟨0, word "A"⟩ = some (.klass above) :=
    (State.lookup?_global Std.HashMap.getElem?_empty).trans stored
  have made : (middle.declareClass (word "B") (some above) [m, again]).store.lookup? 0 "B" =
      some (.klass c) := by cbv
  have stands : (step derived).state.store.lookup? 0 "B" = some (.klass c) := by
    simp only [derived, step, exec, declareClass, looked]
    exact made
  have lowest : plain.Builds none ⟨[m, n], state.current⟩ above := .plain rfl
  have built : c.Built lineage := .derived (.derived looked stands) (.plain lowest)
  let first := (step derived).state
  let i := (first.instantiate c).1
  let j := (((first.instantiate c).2.setField i "x" .nil).instantiate c).1
  let effects : List Effect :=
    [.set i "x" .nil, .make j, .set j "m" .nil, .set i "x" (.bool true), .set j "x" .nil]
  obtain ⟨last, undergoes⟩ : ∃ last, Undergoes (first.instantiate c).2 effects last :=
    ⟨_, .set i "x" .nil (.make c (.set j "m" .nil (.set i "x" (.bool true) (.set j "x" .nil
      (.refl _)))))⟩
  have found := members_found built rfl undergoes
  have apart : j.identity ≠ i.identity :=
    (found (word "x")).2.2.2.1 j (List.mem_cons_of_mem _ List.mem_cons_self)
  -- Only `x` is ever set on this instance.
  have unset (name : String) (other : "x" ≠ name) : ∀ effect ∈ effects, ¬ effect.Sets i name := by
    simp [effects, Effect.Sets, apart, other]
  refine ⟨c, lineage, first, last, i, effects, again, n, built, rfl, undergoes, ?_, ?_, ?_, ?_⟩
  · have lastly : Last (Effect.Sets i "x") effects (.set i "x" (.bool true)) :=
      .later (.later (.later (.here ⟨rfl, rfl⟩ (by simp [Effect.Sets, apart]))))
    obtain ⟨_, value, also, property⟩ := (found (word "x")).1 ⟨_, lastly.mem, lastly.holds⟩
    cases lastly.unique also
    exact property
  · have prevails : Prevails "m" lineage again ⟨1, [0]⟩ :=
      .here (.later (.here rfl (List.forall_mem_nil _)))
    obtain ⟨_, _, bound, after, also, property, attaches⟩ :=
      ((found (word "m")).2.1 (unset "m" (by decide))).1
        ⟨_, List.mem_cons_self, m, List.mem_cons_self, rfl⟩
    obtain ⟨rfl, rfl⟩ := prevails.unique also
    exact ⟨bound, after, property, attaches⟩
  · have own : ¬ Declared.Names ⟨[m, again], ⟨1, [0]⟩⟩ "n" := by
      simp [Declared.Names, m, again, word]
    have prevails : Prevails "n" lineage n globals :=
      .further own (.here (.later (.here rfl (List.forall_mem_nil _))))
    obtain ⟨_, _, bound, after, also, property, attaches⟩ :=
      ((found (word "n")).2.1 (unset "n" (by decide))).1
        ⟨_, List.mem_cons_of_mem _ List.mem_cons_self, n,
          List.mem_cons_of_mem _ List.mem_cons_self, rfl⟩
    obtain ⟨rfl, rfl⟩ := prevails.unique also
    exact ⟨bound, after, property, attaches⟩
  · refine ((found (word "y")).2.1 (unset "y" (by decide))).2 ?_
    simp [lineage, Declared.Names, m, n, again, word]

end Lox
