import Lox.Proofs.Accepted
import Lox.Proofs.Contents
import Lox.Machine.Step

/-! The environments of a run against the scopes of the walk. The chain of an environment has one
address for each scope, down to the globals, which the walk keeps no scope for. -/

namespace Lox

open Resolution Machine

variable {store before after : Store} {scopes : List (Bindings Bool)} {here : Environment}
  {records newer : Records}

/-- A name that is ready in a scope is bound at its address. -/
inductive Models (store : Store) : List Nat → List (Bindings Bool) → Prop
  | globals : 0 < store.scopes.size → Models store [0] []
  | inside {address : Nat} {scope : Bindings Bool} {outer : List Nat}
      {scopes : List (Bindings Bool)} :
      address ≠ 0 → address < store.scopes.size →
      (∀ name, scope.find? name = some true → store.binds name address) →
      Models store outer scopes → Models store (address :: outer) (scope :: scopes)

/-- The scopes of an environment in which statements are executed. Nothing is bound in it but what
was declared so far. -/
structure Describes (store : Store) (here : Environment) (scopes : List (Bindings Bool)) :
    Prop where
  models : Models store here.scopes scopes
  complete : ∀ scope, scopes[0]? = some scope → ∀ name, store.binds name here.scope →
    scope.find? name = some true

def Function.Fits (records : Records) (store : Store) (f : Function) : Prop :=
  ∃ scopes, Models store f.closure.scopes scopes ∧ f.declaration.Resolved records scopes

/-- A method is resolved in the scope of its receiver, which it is still to get. -/
def Function.FitsMethod (records : Records) (store : Store) (f : Function) : Prop :=
  ∃ scopes, Models store f.closure.scopes scopes ∧
    f.declaration.Resolved records (scopeOf thisName :: scopes)

abbrev Value.Fits (records : Records) (store : Store) (value : Value) : Prop :=
  value.Holds (Function.Fits records store) (Function.FitsMethod records store)

/-! ### Growing stores -/

theorem Models.keeps {addresses : List Nat} (models : Models before addresses scopes)
    (kept : before.Keeps after) : Models after addresses scopes := by
  induction models with
  | globals positive => exact .globals (Nat.lt_of_lt_of_le positive kept.size)
  | inside inner below bound _ ih =>
    exact .inside inner (Nat.lt_of_lt_of_le below kept.size)
      (fun name ready => kept.binds name _ (bound name ready)) ih

theorem Models.scope_lt (models : Models store here.scopes scopes) :
    here.scope < store.scopes.size := by
  obtain ⟨address, outer⟩ := here
  cases models with
  | globals positive => exact positive
  | inside _ below => exact below

theorem Models.positive {addresses : List Nat} (models : Models store addresses scopes) :
    0 < store.scopes.size := by
  cases models with
  | globals positive => exact positive
  | inside inner below => exact Nat.zero_lt_of_lt below

/-- The scopes below an address bind the same names. What the global one binds is not described. -/
def Store.SameLocals (bound : Nat) (before after : Store) : Prop :=
  ∀ address < bound, address < before.scopes.size → address ≠ 0 →
    ∀ name, after.binds name address = before.binds name address

theorem Store.Same.locals {bound : Nat} (same : Store.Same bound before after) :
    before.SameLocals bound after :=
  fun address below _ _ => same address below

theorem Store.SameLocals.below {bound lower : Nat} (same : before.SameLocals bound after)
    (under : lower ≤ bound) : before.SameLocals lower after :=
  fun address below => same address (Nat.lt_of_lt_of_le below under)

theorem Describes.keeps_locals (describes : Describes before here scopes)
    (kept : before.Keeps after) (same : before.SameLocals (here.scope + 1) after) :
    Describes after here scopes := by
  refine ⟨describes.models.keeps kept, ?_⟩
  intro scope first name bound
  have inner : here.scope ≠ 0 := by
    obtain ⟨address, outer⟩ := here
    cases scopes with
    | nil => cases first
    | cons scope scopes =>
      cases describes.models with
      | inside inner => exact inner
  rw [same here.scope (Nat.lt_succ_self _) describes.models.scope_lt inner name] at bound
  exact describes.complete scope first name bound

theorem Describes.keeps (describes : Describes before here scopes) (kept : before.Keeps after)
    (same : before.Same (here.scope + 1) after) : Describes after here scopes :=
  describes.keeps_locals kept same.locals

theorem Function.Fits.keeps {f : Function} (fits : f.Fits records before)
    (kept : before.Keeps after) : f.Fits records after := by
  obtain ⟨scopes, models, resolved⟩ := fits
  exact ⟨scopes, models.keeps kept, resolved⟩

theorem Function.FitsMethod.keeps {f : Function} (fits : f.FitsMethod records before)
    (kept : before.Keeps after) : f.FitsMethod records after := by
  obtain ⟨scopes, models, resolved⟩ := fits
  exact ⟨scopes, models.keeps kept, resolved⟩

theorem Value.Fits.keeps {value : Value} (fits : value.Fits records before)
    (kept : before.Keeps after) : value.Fits records after :=
  fits.imp (fun _ fits => fits.keeps kept) (fun _ fits => fits.keeps kept)

theorem Class.keeps {c : Class} (holds : c.Holds (Function.FitsMethod records before))
    (kept : before.Keeps after) : c.Holds (Function.FitsMethod records after) :=
  holds.imp fun _ fits => fits.keeps kept

theorem Function.Fits.later {f : Function} (fits : f.Fits records store)
    (grown : records.Extends newer) : f.Fits newer store := by
  obtain ⟨scopes, models, resolved⟩ := fits
  exact ⟨scopes, models, FunctionDecl.Resolved.later grown _ resolved⟩

theorem Function.FitsMethod.later {f : Function} (fits : f.FitsMethod records store)
    (grown : records.Extends newer) : f.FitsMethod newer store := by
  obtain ⟨scopes, models, resolved⟩ := fits
  exact ⟨scopes, models, FunctionDecl.Resolved.later grown _ resolved⟩

/-! ### Looking names up -/

theorem Models.ready {addresses : List Nat} {distance : Nat} {name : String}
    (models : Models store addresses scopes) (ready : Ready scopes distance name) :
    ∃ address, addresses[distance]? = some address ∧ store.binds name address := by
  induction models generalizing distance with
  | globals =>
    obtain ⟨scope, found, _⟩ := ready
    cases found
  | @inside address scope outer scopes _ below bound _ ih =>
    obtain ⟨found, there, value⟩ := ready
    cases distance with
    | zero =>
      cases there
      exact ⟨address, rfl, bound name value⟩
    | succ distance => exact ih ⟨found, there, value⟩

/-- The environment at a distance is the one whose address stands there in the chain. -/
theorem Environment.scope_ancestor? (here : Environment) (distance : Nat) :
    (here.ancestor? distance).map Environment.scope = here.scopes[distance]? := by
  induction distance generalizing here with
  | zero => rfl
  | succ distance ih =>
    obtain ⟨scope, outer⟩ := here
    cases outer with
    | nil => rfl
    | cons next outer => exact ih ⟨next, outer⟩

theorem Store.getAt?_eq (store : Store) (here : Environment) (distance : Nat) (name : String) :
    store.getAt? here distance name =
      here.scopes[distance]?.bind (store.lookup? · name) := by
  rw [getAt?, ← here.scope_ancestor?, Option.bind_map]
  rfl

theorem Store.slotAt?_eq (store : Store) (here : Environment) (distance : Nat) (name : String) :
    store.slotAt? here distance name =
      here.scopes[distance]?.bind fun address =>
        if store.binds name address then some address else none := by
  rw [slotAt?, ← here.scope_ancestor?, Option.bind_map]
  rfl

theorem Store.slot?_binds {name : String} {address : Nat}
    (found : store.slot? here name = some address) : store.binds name address :=
  List.find?_some found

theorem Store.slotAt?_binds {distance : Nat} {name : String} {address : Nat}
    (found : store.slotAt? here distance name = some address) : store.binds name address := by
  rw [slotAt?_eq] at found
  obtain ⟨candidate, _, chosen⟩ := Option.bind_eq_some_iff.mp found
  split at chosen
  · rename_i bound
    cases chosen
    exact bound
  · cases chosen

/-! ### Declaring and entering -/

theorem Describes.pending {name : String} (describes : Describes store here scopes)
    (undeclared : Undeclared scopes name) : Describes store here (marked scopes name false) := by
  obtain ⟨models, complete⟩ := describes
  obtain ⟨address, addresses⟩ := here
  cases scopes with
  | nil => exact ⟨models, complete⟩
  | cons scope outer =>
    have unbound : scope.find? name = none := undeclared scope rfl
    cases models with
    | inside inner below bound around =>
      refine ⟨.inside inner below ?_ around, ?_⟩
      · intro other ready
        rw [Bindings.find?_insert] at ready
        split at ready
        · cases ready
        · exact bound other ready
      · intro found first other there
        cases first
        have ready := complete scope rfl other there
        rw [Bindings.find?_insert, if_neg]
        · exact ready
        · intro same
          rw [same, unbound] at ready
          cases ready

theorem Describes.define (describes : Describes store here scopes) (name : String)
    (value : Value) :
    Describes (store.define here name value) here (marked scopes name true) := by
  have kept := store.keeps_write here.scope name value
  have inside := describes.models.scope_lt
  obtain ⟨models, complete⟩ := describes
  obtain ⟨address, addresses⟩ := here
  cases scopes with
  | nil => exact ⟨models.keeps kept, fun _ => nofun⟩
  | cons scope outer =>
    cases models with
    | inside inner below bound around =>
      refine ⟨.inside inner (Nat.lt_of_lt_of_le below kept.size) ?_ (around.keeps kept), ?_⟩
      · intro other ready
        rw [Bindings.find?_insert] at ready
        rw [Store.define, Store.binds_write]
        split at ready
        · rename_i same
          simp [same, inside]
        · rw [bound other ready, Bool.or_true]
      · intro found first other there
        cases first
        rw [Store.define, Store.binds_write] at there
        rw [Bindings.find?_insert]
        split
        · rfl
        · rename_i apart
          have old : store.binds other address := by simpa [apart] using there
          exact complete scope rfl other old

theorem Describes.enter {outer : Environment} {scope : Bindings Bool}
    {bindings : Bindings Value} (models : Models store outer.scopes scopes)
    (matching : ∀ name, scope.find? name = some true ↔ bindings.contains name) :
    Describes (store.enter outer bindings).2 (store.enter outer bindings).1 (scope :: scopes) := by
  have kept := store.keeps_enter outer bindings
  have fresh : ∀ name, (store.enter outer bindings).2.binds name
      (store.enter outer bindings).1.scope = bindings.contains name := by
    intro name
    rw [Store.binds_enter]
    exact if_pos rfl
  refine ⟨.inside (Nat.ne_of_gt models.positive) (by simp [Store.enter, Environment.within]) ?_
    (models.keeps kept), ?_⟩
  · intro name ready
    rw [fresh]
    exact (matching name).mp ready
  · intro found first name bound
    cases first
    rw [matching, ← fresh]
    exact bound

theorem Bindings.find?_ofList {α : Type} (pairs : List (String × α)) (name : String) (value : α)
    (found : (Bindings.ofList pairs).find? name = some value) : (name, value) ∈ pairs := by
  have general : ∀ bindings : Bindings α,
      (pairs.foldl (fun bindings pair => bindings.insert pair.1 pair.2) bindings).find? name =
        some value → (name, value) ∈ pairs ∨ bindings.find? name = some value := by
    clear found
    induction pairs with
    | nil => exact fun _ found => .inr found
    | cons pair rest ih =>
      intro bindings found
      rcases ih (bindings.insert pair.1 pair.2) found with later | earlier
      · exact .inl (List.mem_cons_of_mem _ later)
      · rw [find?_insert] at earlier
        split at earlier
        · rename_i same
          cases earlier
          exact .inl (by simp [same])
        · exact .inr earlier
  rcases general .empty found with member | none
  · exact member
  · cases none

theorem Bindings.contains_ofList {α : Type} (pairs : List (String × α)) (name : String) :
    (Bindings.ofList pairs).contains name ↔ name ∈ pairs.map Prod.fst := by
  have general : ∀ bindings : Bindings α,
      (pairs.foldl (fun bindings pair => bindings.insert pair.1 pair.2) bindings).contains name ↔
        name ∈ pairs.map Prod.fst ∨ bindings.contains name := by
    induction pairs with
    | nil => simp
    | cons pair rest ih =>
      intro bindings
      rw [List.foldl_cons, ih, contains, find?_insert, List.map_cons, List.mem_cons]
      by_cases same : name = pair.1 <;> simp [same, contains]
  exact (general .empty).trans (by simp [contains])

/-- A call with an argument for each parameter binds the parameters. -/
theorem contains_parameterBindings {params : List Token} {arguments : List Value}
    (arity : arguments.length = params.length) (name : String) :
    (paramScope params).find? name = some true ↔
      (parameterBindings params arguments).contains name := by
  have first : ((params.map Token.lexeme).zip arguments).map Prod.fst = params.map Token.lexeme :=
    List.map_fst_zip (by simp [arity])
  rw [parameterBindings, Bindings.contains_ofList, first, find?_paramScope]
  split <;> simp [*]

end Lox
