import Mathlib
import Lox.Proofs.Keywords
import Lox.Proofs.Permanent

/-! Superclasses. Which method `super` stands for is settled when the class around it is made: it is
the one of the nearest class from the superclass on, whatever the receiver is an instance of. -/

namespace Lox

open Machine Resolution

/-- The uses of `super` in a method, those in the methods of further classes apart. -/
def FunctionDecl.supers (depth : Nat) (f : FunctionDecl) : List Use :=
  f.keywords superName depth

/-! ### Executions -/

section Executions

variable {records : Records} {depth : Nat} {openings : Openings} {session running : Session}
  {config current : Config}
  {methods : List FunctionDecl} {c above : Class} {f : Function} {i : Instance}

/-- The references in the methods of a subclass are told apart, and those of `super` lead to the
environment around the methods. -/
theorem Machine.Config.Seated.told {conduct : Conduct}
    (seated : config.Seated conduct records openings)
    (derives : config.Derives methods c above) :
    (identifiers (methodUses 1 methods)).Nodup ∧
      ∀ declaration ∈ methods, Told records (declaration.supers 1) := by
  cases derives with
  | @made name superclass methods c above stack state found bound =>
    have seated := List.forall_mem_singleton.mp seated.control
    refine ⟨Lox.Seated.distinct_methods seated, ?_⟩
    intro declaration member
    obtain ⟨scopes, _, _, _, resolved⟩ := seated.resolved
    have around : distanceIn (scopeOf thisName :: scopeOf superName ::
        marked scopes name.lexeme true) superName = some 1 := by
      refine found_inside (by decide) ?_
      rw [distanceIn_cons, if_pos (by decide)]
    have keyword : ¬Ordinary superName := fun ordinary => ordinary.notSuper rfl
    exact declaration.keywords_told keyword around (methodsProper_mem seated.proper.2.2 member)
      (resolved_of_mem resolved declaration member)

/-- The method of the nearest class that declares it. -/
theorem findMethod?_nearest {nearer further : List Layer} {layer : Layer} {name : String}
    (layers : c.layers = nearer ++ layer :: further)
    (skipped : ∀ other ∈ nearer, other.methods.find? name = none)
    (declared : layer.methods.find? name = some f) : c.findMethod? name = some f := by
  rw [Class.findMethod?, layers, List.findSome?_append, List.findSome?_eq_none_iff.mpr skipped,
    List.findSome?_cons, declared]
  rfl

/-- Where `super` is looked at, if it is known which environment for a superclass it leads to. -/
theorem Moment.Seated.superMethod
    (seated : (Moment.busy session config).Seated .strict openings)
    {reference : Reference} {method : Token} {address : Nat}
    (control : config.control = .eval (.super reference method))
    (recorded : config.state.distance? reference = some depth)
    (there : config.state.current.scopes[depth]? = some address)
    (opened : openings[address]? = some (.superclass above methods)) :
    ∃ i, config.state.store.get? config.state.current thisName = some (.object i) ∧
      (above.findMethod? method.lexeme = none → step config =
        .failed (.undefinedProperty method.lexeme method.line) config.stack config.state) ∧
      ∀ found, above.findMethod? method.lexeme = some found → step config =
        .done (.function (config.state.bindMethod found i).1) config.stack
          (config.state.bindMethod found i).2 := by
  have whole := seated.config session config rfl
  obtain ⟨_, stack, state⟩ := config
  cases control
  obtain ⟨scopes, lodged, reads⟩ := (List.forall_mem_singleton.mp whole.control).resolved
  have reads : ReadsSuper _ scopes reference := reads
  have tells := whole.seating.seated.tells
  have distance : distanceIn scopes superName = some depth := reads.nearest.symm.trans recorded
  rw [reads.receiver] at distance
  obtain ⟨inner, receiver, rfl⟩ := Option.map_eq_some_iff.mp distance
  obtain ⟨i, _, place, at', made, nearest⟩ := lodged.nearest tells receiver
  have held : state.store.lookup? place thisName = some (.object i) :=
    (tells place _ made thisName).trans (if_pos rfl)
  have superclass : state.store.getAt? state.current (inner + 1) superName =
      some (.klass above) := by
    rw [Store.getAt?_eq, there]
    exact (tells address _ opened superName).trans (if_pos rfl)
  have this : state.store.getAt? state.current inner thisName = some (.object i) := by
    rw [Store.getAt?_eq, at']
    exact held
  refine ⟨i, ?_, ?_, ?_⟩
  · have slot : state.store.slot? state.current thisName = some place := nearest
    rw [Store.get?, slot]
    exact held
  · intro undeclared
    simp only [step, eval, Machine.superMethod, recorded, reads.word, superclass,
      Nat.add_sub_cancel, this, undeclared]
  · intro found declared
    simp only [step, eval, Machine.superMethod, recorded, reads.word, superclass,
      Nat.add_sub_cancel, this, declared]

/-- A function is a method bound to an instance: it has the method's declaration, in an environment
inside of the method's own in which `this` is the instance. -/
structure Function.BoundTo (bound method : Function) (i : Instance) (state : State) : Prop where
  declaration : bound.declaration = method.declaration
  isInitializer : bound.isInitializer = method.isInitializer
  around : bound.closure.outer = method.closure.scopes
  receiver : state.store.get? bound.closure thisName = some (.object i)

theorem boundTo_bindMethod (state : State) (method : Function) (i : Instance) :
    (state.bindMethod method i).1.BoundTo method i (state.bindMethod method i).2 := by
  refine ⟨rfl, rfl, rfl, ?_⟩
  have held : (state.bindMethod method i).2.store.lookup? state.store.scopes.size thisName =
      some (.object i) := by
    refine (Store.lookup?_push _ _ _ _).trans ?_
    rw [if_pos rfl, Bindings.find?_insert, if_pos rfl]
  have bound : (state.bindMethod method i).2.store.binds thisName state.store.scopes.size := by
    rw [Store.binds, held]
    rfl
  have slot : (state.bindMethod method i).2.store.slot? (state.bindMethod method i).1.closure
      thisName = some state.store.scopes.size := List.find?_cons_of_pos bound
  rw [Store.get?, slot]
  exact held

/-- Inside of a method of a subclass `super` is settled by the superclass the class was made with:
it is the method of the nearest class from there on, bound to what is `this` there. -/
theorem super_nearest {word : String} {reference : Reference} {method : Token}
    (reached : Reachable Honest (.busy session config)) (derives : config.Derives methods c above)
    (later : Later Honest (.busy session (step config)) (.busy running current))
    (control : current.control = .eval (.super reference method))
    (inside : ∃ declaration ∈ methods, ∃ use ∈ declaration.supers 1, use.reference = reference)
    (own : c.own.methods.find? word = some f)
    (through : f.closure.scopes <:+ current.state.current.scopes) :
    ∃ i, current.state.store.get? current.state.current thisName = some (.object i) ∧
      (∀ nearer layer further found, above.layers = nearer ++ layer :: further →
        (∀ other ∈ nearer, other.methods.find? method.lexeme = none) →
        layer.methods.find? method.lexeme = some found →
          ∃ bound after, step current = .done (.function bound) current.stack after ∧
            bound.BoundTo found i after) ∧
      ((∀ layer ∈ above.layers, layer.methods.find? method.lexeme = none) →
        step current = .failed (.undefinedProperty method.lexeme method.line) current.stack
          current.state) ∧
      ∀ fault, (step current).control = .signal (.failed fault) →
        fault = .undefinedProperty method.lexeme method.line := by
  obtain ⟨openings, seated⟩ := (reached.staged .strict).seated
  have whole := seated.moment.config session config rfl
  obtain ⟨stepped, closures⟩ := whole.derives derives
  obtain ⟨distinct, told⟩ := whole.told derives
  have next := seated.stepped _ stepped
  have natives := (Next.step derives.going).natives reached.natives
  obtain ⟨more, now⟩ := (later.staged natives .strict []).seated next
  have now := now.moment
  have grown := later.extends
  rw [Moment.records_step] at grown
  -- The environment around the methods of the class stands somewhere around what runs now.
  obtain ⟨inner, split⟩ := through
  rw [closures word f own] at split
  have there : current.state.current.scopes[inner.length]? =
      some config.state.store.scopes.size := by
    rw [← split, List.getElem?_append_right (Nat.le_refl _), Nat.sub_self]
    rfl
  have opened : (openings ++ [.superclass above methods] ++ more)[config.state.store.scopes.size]? =
      some (.superclass above methods) := by
    rw [whole.seating.seated.size]
    exact getElem?_grow List.getElem?_concat_length more
  obtain ⟨declaration, listed, use, member, same⟩ := inside
  have uses : ⟨inner.length, false, reference⟩ ∈ methodUses 1 methods := by
    have seat := (now.config running current rfl).control (.expr (.super reference method)) (by
      rw [control]
      exact List.mem_singleton.mpr rfl)
    obtain ⟨scopes, lodged, _⟩ := seat.resolved
    exact lodged.within there opened (List.mem_singleton.mpr rfl)
  have within : declaration.supers 1 ⊆ methodUses 1 methods :=
    List.Subset.trans (declaration.keywords_sublist 1).subset (methodUses_mem 1 listed).subset
  obtain ⟨old, distance⟩ := (told declaration listed).distance distinct within member same uses
  have recorded : current.state.distance? reference = some inner.length :=
    (grown.distance reference.id old).trans distance
  obtain ⟨i, this, failing, binding⟩ := now.superMethod control recorded there opened
  refine ⟨i, this, ?_, ?_, ?_⟩
  · intro nearer layer further found layers skipped declared
    exact ⟨_, _, binding found (findMethod?_nearest layers skipped declared),
      boundTo_bindMethod current.state found i⟩
  · intro undeclared
    exact failing (List.findSome?_eq_none_iff.mpr undeclared)
  · intro fault failed
    cases found : above.findMethod? method.lexeme with
    | none =>
      rw [failing found] at failed
      cases failed
      rfl
    | some other =>
      rw [binding other found] at failed
      cases failed

end Executions

namespace Inheriting

/-- An initializer takes a method from the superclass. -/
def source : String := "class A\x7bm()\x7b\x7d\x7d class B<A\x7binit()\x7bsuper.m;\x7d\x7d B();"

def a : Token := ⟨.identifier, "A", 1⟩

def b : Token := ⟨.identifier, "B", 1⟩

def m : Token := ⟨.identifier, "m", 1⟩

def paren : Token := ⟨.symbol .rightParen, ")", 1⟩

def inherited : Reference := ⟨1, ⟨.keyword .super, "super", 1⟩⟩

def init : FunctionDecl := ⟨⟨.identifier, "init", 1⟩, [], [.expression (.super inherited m)]⟩

def calling : Stmt := .expression (.call (.variable ⟨2, b⟩) paren [])

def program : List Stmt :=
  [.classDecl a none [⟨m, [], []⟩], .classDecl b (some ⟨0, a⟩) [init], calling]

def first : Session := .start (fun _ => 0) false

set_option maxRecDepth 4000 in
theorem prepared : ∃ running, first.prepare source = (running, some program) ∧
    running.machine = { first.machine with distances := running.machine.distances } ∧
    ∀ id : Nat, running.machine.distances[id]? = [(1, 2)].lookup id := by
  have accepted : (first.prepare source).2 = some program := by cbv
  have recorded : resolve program = .ok [(1, 2)] := by cbv
  exact Session.prepare_first (fun _ => Std.HashMap.getElem?_empty) accepted recorded

def found : Function := ⟨0, ⟨m, [], []⟩, globals, false⟩

def above : Class := ⟨⟨1, "A", Bindings.empty.insert "m" found⟩, []⟩

def f : Function := ⟨2, init, ⟨1, [0]⟩, true⟩

def c : Class := ⟨⟨3, "B", Bindings.empty.insert "init" f⟩, [above.own]⟩

variable (d : Distances)

/-- The superclass is there. -/
def before : State := (advance 3 (interpreting program { first.machine with distances := d })).state

def making : Config :=
  ⟨.exec (.classDecl b (some ⟨0, a⟩) [init]), [.program [calling]], before d⟩

/-- Both classes are there. -/
def after : State := (before d).declareClass b (some above) [init]

def called : Config := .done (.klass c) [.callee paren [], .program []] (after d)

/-- In the initializer. -/
def current : Config := advance 3 (called d)

variable {d}

theorem finds (global : d[0]? = none) : (before d).lookup? ⟨0, a⟩ = some (.klass above) := by
  have absent : (before d).distance? ⟨0, a⟩ = none := global
  have superclass : (before d).store.get? globals "A" = some (.klass above) := by cbv
  exact (State.lookup?_global absent).trans superclass

theorem declares (global : d[0]? = none) :
    step (making d) = .done .nil [.program [calling]] (after d) := by
  simp only [making, step, exec, declareClass, finds global]
  rfl

theorem derives (global : d[0]? = none) : (making d).Derives [init] c above := by
  have made : (after d).store.lookup? 0 "B" = some (.klass c) := by cbv
  refine .made (finds global) ?_
  rw [← making, declares global]
  exact made

theorem calls (global : d[2]? = none) :
    step (advance 3 (.done .nil [.program [calling]] (after d))) = called d := by
  have absent : (after d).distance? ⟨2, b⟩ = none := global
  have callee : (after d).store.get? globals "B" = some (.klass c) := by cbv
  exact step_variable rfl ((State.lookup?_global absent).trans callee)

end Inheriting

section Inheriting

open Inheriting

theorem super_nearest_in_initializer : ∃ (session running : Session) (config current : Config)
    (c above : Class) (methods : List FunctionDecl) (i : Instance) (found bound : Function)
    (after : State), Reachable Honest (.busy session config) ∧ config.Derives methods c above ∧
      Later Honest (.busy session (step config)) (.busy running current) ∧
      above.own.methods.find? "m" = some found ∧
      step current = .done (.function bound) current.stack after ∧ bound.BoundTo found i after := by
  obtain ⟨running, prepared, machine, distances⟩ := prepared
  let d := running.machine.distances
  have reached : Reachable Honest (.busy running (making d)) := by
    have begun : Later Honest (.idle first)
        (.busy running (interpreting program running.machine)) := .next (.refl _) (.begin prepared)
    rw [machine] at begun
    exact ⟨_, _, begun.trans (later_advance running 3 _)⟩
  have later : Later Honest (.busy running (step (making d))) (.busy running (current d)) := by
    have called : Later Honest _ (.busy running (called d)) :=
      calls (distances 2) ▸ (later_advance running 3 _).next (.step rfl)
    rw [declares (distances 0)]
    exact called.trans (later_advance running 3 _)
  have control : (current d).control = .eval (.super inherited m) := rfl
  have through : f.closure.scopes <:+ (current d).state.current.scopes := ⟨[3, 2], rfl⟩
  have inside : ∃ declaration ∈ [init], ∃ use ∈ declaration.supers 1, use.reference = inherited :=
    ⟨init, List.mem_singleton.mpr rfl, ⟨2, false, inherited⟩, List.mem_singleton.mpr rfl, rfl⟩
  have own : c.own.methods.find? "init" = some f := rfl
  obtain ⟨i, _, nearest, _⟩ :=
    super_nearest reached (derives (distances 0)) later control inside own through
  obtain ⟨bound, after, stepped, boundTo⟩ :=
    nearest [] above.own [] found rfl (List.forall_mem_nil _) rfl
  exact ⟨running, running, making d, current d, c, above, [init], i, found, bound, after, reached,
    derives (distances 0), later, rfl, stepped, boundTo⟩

end Inheriting

end Lox
