import Lox.Machine.State

/-! What values are made of. Apart from plain data a value holds functions: a function holds itself,
and a class and its instances hold the methods. Each operation on the store keeps what is held. -/

namespace Lox

/-! ### Values -/

section Values

variable {function method : Function → Prop}

def Class.Holds (method : Function → Prop) (c : Class) : Prop :=
  ∀ layer ∈ c.layers, ∀ name f, layer.methods.find? name = some f → method f

/-- Functions and methods are told apart, since a method still lacks the scope of its receiver. -/
def Value.Holds (function method : Function → Prop) : Value → Prop
  | .function f => function f
  | .klass c => c.Holds method
  | .object i => i.ofClass.Holds method
  | .nil | .bool _ | .number _ | .string _ | .native _ => True

theorem Class.Holds.imp {other : Function → Prop} {c : Class} (holds : c.Holds method)
    (implies : ∀ f, method f → other f) : c.Holds other :=
  fun layer member name f found => implies f (holds layer member name f found)

theorem Value.Holds.imp {otherFunction otherMethod : Function → Prop} {value : Value}
    (holds : value.Holds function method) (functions : ∀ f, function f → otherFunction f)
    (methods : ∀ f, method f → otherMethod f) : value.Holds otherFunction otherMethod := by
  cases value with
  | function f => exact functions f holds
  | klass c => exact Class.Holds.imp holds methods
  | object i => exact Class.Holds.imp holds methods
  | nil | bool _ | number _ | string _ | native _ => trivial

theorem Class.Holds.findMethod? {c : Class} {name : String} {f : Function}
    (holds : c.Holds method) (found : c.findMethod? name = some f) : method f := by
  obtain ⟨layer, member, bound⟩ := List.exists_of_findSome?_eq_some found
  exact holds layer member name f bound

theorem Value.holds_ofLiteral (literal : Literal) :
    (Value.ofLiteral literal).Holds function method := by
  cases literal <;> trivial

/-- A host function that makes no functions or classes of its own: what it returns holds nothing that
its arguments do not hold. The clock is one. A native that takes a method out of its class is not,
and neither is one that has kept a function from another call. -/
def Machine.Honest (act : Machine.HostFunction) : Prop :=
  ∀ (function method : Function → Prop) (now : Float) (arguments : List Value) (value : Value),
    (∀ argument ∈ arguments, argument.Holds function method) →
      act now arguments = .ok value → value.Holds function method

end Values

/-! ### The store -/

namespace Store

variable {store : Store} {function method : Function → Prop}

structure Holds (function method : Function → Prop) (store : Store) : Prop where
  scopes : ∀ address name value, store.lookup? address name = some value →
    value.Holds function method
  fields : ∀ i name value, store.field? i name = some value → value.Holds function method

theorem Holds.imp {otherFunction otherMethod : Function → Prop}
    (holds : store.Holds function method) (functions : ∀ f, function f → otherFunction f)
    (methods : ∀ f, method f → otherMethod f) : store.Holds otherFunction otherMethod :=
  ⟨fun address name value found => (holds.scopes address name value found).imp functions methods,
    fun i name value found => (holds.fields i name value found).imp functions methods⟩

@[simp] theorem size_write (store : Store) (scope : Nat) (name : String) (value : Value) :
    (store.write scope name value).scopes.size = store.scopes.size := by
  simp [write]

theorem lookup?_write (store : Store) (scope address : Nat) (name other : String)
    (value : Value) : (store.write scope name value).lookup? address other =
      if address = scope ∧ other = name ∧ scope < store.scopes.size then some value
      else store.lookup? address other := by
  simp only [write, lookup?, Array.getElem?_modify]
  by_cases here : scope = address
  · subst here
    by_cases inside : scope < store.scopes.size
    · by_cases same : other = name <;> simp [inside, same]
    · simp [inside]
  · simp [here, Ne.symm here]

theorem lookup?_push (store : Store) (bindings : Bindings Value) (address : Nat)
    (name : String) :
    lookup? { store with scopes := store.scopes.push bindings } address name =
      if address = store.scopes.size then bindings.find? name else store.lookup? address name := by
  simp only [lookup?, Array.getElem?_push]
  split <;> simp

theorem field?_setField (store : Store) (i j : Instance) (name other : String) (value : Value)
    {found : Value} (there : (store.setField i name value).field? j other = some found) :
    found = value ∨ store.field? j other = some found := by
  simp only [setField, field?, Array.getElem?_modify] at there ⊢
  split at there
  · cases bindings : store.fields[j.identity]? with
    | none => simp [bindings] at there
    | some bindings =>
      simp only [bindings, Option.map_some, Option.bind_some, Bindings.find?_insert] at there ⊢
      split at there
      · exact .inl (Option.some.inj there).symm
      · exact .inr there
  · exact .inr there

theorem Holds.write (holds : store.Holds function method) {value : Value}
    (given : value.Holds function method) (scope : Nat) (name : String) :
    (store.write scope name value).Holds function method := by
  refine ⟨?_, holds.fields⟩
  intro address other found there
  rw [lookup?_write] at there
  split at there
  · cases there
    exact given
  · exact holds.scopes address other found there

theorem Holds.enter (holds : store.Holds function method) {bindings : Bindings Value}
    (given : ∀ name value, bindings.find? name = some value → value.Holds function method)
    (outer : Environment) : (store.enter outer bindings).2.Holds function method := by
  refine ⟨?_, holds.fields⟩
  intro address other found there
  rw [Store.enter, lookup?_push] at there
  split at there
  · exact given other found there
  · exact holds.scopes address other found there

theorem Holds.setField (holds : store.Holds function method) {value : Value}
    (given : value.Holds function method) (i : Instance) (name : String) :
    (store.setField i name value).Holds function method := by
  refine ⟨holds.scopes, ?_⟩
  intro j other found there
  rcases field?_setField store i j name other value there with same | there
  · exact same ▸ given
  · exact holds.fields j other found there

theorem Holds.instantiate (holds : store.Holds function method) (c : Class) :
    (store.instantiate c).2.Holds function method := by
  refine ⟨holds.scopes, ?_⟩
  intro j other found there
  simp only [Store.instantiate, field?, Array.getElem?_push] at there
  split at there
  · simp at there
  · exact holds.fields j other found there

/-! ### What stays bound -/

/-- Scopes and their bindings only become more. -/
structure Keeps (before after : Store) : Prop where
  size : before.scopes.size ≤ after.scopes.size
  binds : ∀ name address, before.binds name address → after.binds name address

/-- The scopes below an address bind the same names. -/
def Same (bound : Nat) (before after : Store) : Prop :=
  ∀ address < bound, ∀ name, after.binds name address = before.binds name address

variable {before middle after : Store} {bound : Nat}

theorem Keeps.refl (store : Store) : Keeps store store := ⟨Nat.le_refl _, fun _ _ bound => bound⟩

theorem Keeps.of_eq (same : before = after) : Keeps before after := same ▸ refl before

theorem Keeps.trans (first : Keeps before middle) (second : Keeps middle after) :
    Keeps before after :=
  ⟨Nat.le_trans first.size second.size,
    fun name address bound => second.binds name address (first.binds name address bound)⟩

theorem Same.refl (store : Store) : Same bound store store := fun _ _ _ => rfl

theorem Same.below (same : Same bound before after) {lower : Nat} (under : lower ≤ bound) :
    Same lower before after :=
  fun address below => same address (Nat.lt_of_lt_of_le below under)

theorem binds_write (store : Store) (scope address : Nat) (name other : String) (value : Value) :
    (store.write scope name value).binds other address =
      ((address = scope ∧ other = name ∧ scope < store.scopes.size) ||
        store.binds other address) := by
  rw [binds, lookup?_write, binds]
  split <;> simp [*]

theorem keeps_write (store : Store) (scope : Nat) (name : String) (value : Value) :
    Keeps store (store.write scope name value) := by
  refine ⟨Nat.le_of_eq (size_write store scope name value).symm, ?_⟩
  intro other address bound
  rw [binds_write, bound, Bool.or_true]

theorem same_write (store : Store) (scope : Nat) (name : String) (value : Value) :
    Same scope store (store.write scope name value) := by
  intro address below other
  rw [binds_write]
  simp [Nat.ne_of_lt below]

/-- Nothing is bound by writing to a slot. -/
theorem same_write_of_binds {scope : Nat} {name : String} (bound : store.binds name scope)
    (value : Value) (limit : Nat) : Same limit store (store.write scope name value) := by
  intro address _ other
  rw [binds_write]
  by_cases here : address = scope ∧ other = name
  · obtain ⟨place, word⟩ := here
    simp [place, word, bound]
  · have elsewhere : ¬(address = scope ∧ other = name ∧ scope < store.scopes.size) :=
      fun ⟨place, word, _⟩ => here ⟨place, word⟩
    simp [elsewhere]

theorem lookup?_of_size_le {address : Nat} (outside : store.scopes.size ≤ address)
    (name : String) : store.lookup? address name = none := by
  simp [lookup?, outside]

theorem binds_enter (store : Store) (outer : Environment) (bindings : Bindings Value)
    (address : Nat) (name : String) :
    (store.enter outer bindings).2.binds name address =
      if address = store.scopes.size then bindings.contains name else store.binds name address := by
  rw [enter, binds, lookup?_push]
  split <;> rfl

theorem keeps_enter (store : Store) (outer : Environment) (bindings : Bindings Value) :
    Keeps store (store.enter outer bindings).2 := by
  refine ⟨by simp [enter], ?_⟩
  intro name address bound
  rw [binds_enter]
  split
  · rename_i fresh
    rw [binds, lookup?_of_size_le (Nat.le_of_eq fresh.symm)] at bound
    cases bound
  · exact bound

theorem same_enter (store : Store) (outer : Environment) (bindings : Bindings Value) :
    Same store.scopes.size store (store.enter outer bindings).2 := by
  intro address below name
  rw [binds_enter, if_neg (Nat.ne_of_lt below)]

end Store
end Lox
