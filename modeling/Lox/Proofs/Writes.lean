import Lox.Proofs.Transitions

/-! What a step writes. New scopes are bound as a whole; a scope that is there already gets a binding
from a declaration that is executed in it, or from an assignment that finds the name there. -/

namespace Lox

/-- Scopes become more, and what the old ones hold stays. -/
structure Store.Steady (before after : Store) : Prop where
  size : before.scopes.size ≤ after.scopes.size
  same : ∀ address < before.scopes.size, ∀ name,
    after.lookup? address name = before.lookup? address name

namespace Store.Steady

variable {before middle after : Store}

theorem refl (store : Store) : Steady store store := ⟨Nat.le_refl _, fun _ _ _ => rfl⟩

theorem trans (first : Steady before middle) (second : Steady middle after) :
    Steady before after := by
  refine ⟨Nat.le_trans first.size second.size, ?_⟩
  intro address below name
  rw [second.same address (Nat.lt_of_lt_of_le below first.size), first.same address below]

theorem enter (store : Store) (outer : Environment) (bindings : Bindings Value) :
    Steady store (store.enter outer bindings).2 := by
  refine ⟨by simp [Store.enter], ?_⟩
  intro address below name
  rw [Store.enter, lookup?_push, if_neg (Nat.ne_of_lt below)]

/-- What is bound stays bound. -/
theorem keeps (steady : before.Steady after) : before.Keeps after := by
  refine ⟨steady.size, fun name address bound => ?_⟩
  have below : address < before.scopes.size := by
    refine Nat.lt_of_not_le fun outside => ?_
    rw [Store.binds, Store.lookup?_of_size_le outside] at bound
    cases bound
  rw [Store.binds, steady.same address below name]
  exact bound

end Store.Steady

namespace Machine

variable {config after : Config} {state : State} {stack : List Frame} {arguments : List Value}
  {line address : Nat} {name : String}

theorem steady_instantiate (state : State) (c : Class) :
    state.store.Steady (state.instantiate c).2.store := ⟨Nat.le_refl _, fun _ _ _ => rfl⟩

theorem steady_applied (applied : Applied arguments line stack state after) :
    state.store.Steady after.state.store := by
  cases applied with
  | refused _ => exact .refl _
  | native result called => cases result <;> exact .refl _
  | entered f => exact .enter _ f.closure _
  | made c => exact steady_instantiate state c
  | initialized c f =>
    let made := (state.instantiate c).1
    have bound : state.store.Steady ((state.instantiate c).2.bindMethod f made).2.store :=
      (steady_instantiate state c).trans (.enter _ f.closure _)
    exact bound.trans (.enter _ ((state.instantiate c).2.bindMethod f made).1.closure _)

theorem steady_enterSuper (state : State) (above : Option Class) :
    state.store.Steady (state.enterSuper above).store := by
  cases above with
  | none => exact .refl _
  | some c => exact .enter _ state.current _

theorem Config.Declares.here (declares : config.Declares name) :
    config.state.current.scope = config.left.current.scope := by
  cases declares <;> rfl

/-- At most one name is written, and either its declaration stands in the scope or it was found
there. -/
theorem Transition.writes (transition : Transition config after) :
    config.state.store.Steady after.state.store ∨
      ∃ (middle : Store) (scope : Nat) (name : String) (value : Value),
        config.state.store.Steady middle ∧ after.state.store = middle.write scope name value ∧
          ((config.Declares name ∧ config.state.current.scope = scope) ∨
            ∃ target, config.Assigns target scope ∧ target.name.lexeme = name) := by
  have still := Store.Steady.refl config.state.store
  rw [← config.store_left] at still ⊢
  cases transition with
  | moves _ | under _ _ | prints _ => exact .inl still
  | binds method receiver => exact .inl (.enter _ method.closure _)
  | calls gathers => exact .inl (config.store_left ▸ steady_applied (applied_call _ _))
  | opens body stack state => exact .inl (.enter _ state.current _)
  | sets value i name stack state => exact .inl ⟨Nat.le_refl _, fun _ _ _ => rfl⟩
  | defines value declares =>
    exact .inr ⟨_, _, _, value, still, rfl, .inl ⟨declares, declares.here⟩⟩
  | closes declares => exact .inr ⟨_, _, _, _, still, rfl, .inl ⟨declares, declares.here⟩⟩
  | @builds _ name above methods declares =>
    obtain ⟨born, own, _, whole⟩ := config.left.declareClass_eq name above methods
    exact .inr ⟨_, _, _, _, steady_enterSuper config.left above, congrArg State.store whole,
      .inl ⟨declares, declares.here⟩⟩
  | assigns value assigns => exact .inr ⟨_, _, _, value, still, rfl, .inr ⟨_, assigns, rfl⟩⟩

/-- What is in a scope changes only by a declaration in it or by an assignment that finds it. -/
theorem lookup?_step (below : address < config.state.store.scopes.size)
    (undeclared : ¬(config.Declares name ∧ config.state.current.scope = address))
    (unassigned : ∀ target, config.Assigns target address → target.name.lexeme ≠ name) :
    (step config).state.store.lookup? address name = config.state.store.lookup? address name := by
  rcases (transition_step config).writes with steady | ⟨middle, scope, word, value, steady, written, told⟩
  · exact steady.same address below name
  · rw [written, Store.lookup?_write, if_neg, steady.same address below name]
    rintro ⟨rfl, rfl, _⟩
    rcases told with declared | ⟨target, assigns, same⟩
    · exact undeclared declared
    · exact unassigned target assigns same

/-- Whatever a step does, what is bound stays bound. -/
theorem keeps_step (config : Config) : config.state.store.Keeps (step config).state.store := by
  rcases (transition_step config).writes with steady | ⟨middle, scope, name, value, steady, written, _⟩
  · exact steady.keeps
  · rw [written]
    exact steady.keeps.trans (middle.keeps_write scope name value)

theorem keeps_declareClass (state : State) (name : Token) (above : Option Class)
    (methods : List FunctionDecl) :
    state.store.Keeps (state.declareClass name above methods).store := by
  obtain ⟨born, own, _, whole⟩ := state.declareClass_eq name above methods
  rw [whole]
  exact (steady_enterSuper state above).keeps.trans (Store.keeps_write _ _ _ _)

end Machine
end Lox
