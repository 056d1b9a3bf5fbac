import Mathlib
import Lox.Proofs.Alike
import Lox.Proofs.Confined

/-! Walks and jumps. A name looked for from scope to scope is found in the slot a jump to the nearest
binder finds, and an assignment changes that one slot in a tree of shared scopes. -/

namespace Lox

open Machine

/-- What comes of looking for a slot: a name that has none is undefined. -/
def Token.found {α : Type} (name : Token) : Option α → Except RuntimeFault α
  | some there => .ok there
  | none => .error (.undefinedVariable name.lexeme name.line)

namespace Store

def read (store : Store) (here : Environment) (name : Token) : Except RuntimeFault Value :=
  name.found (store.get? here name.lexeme)

def readAt (store : Store) (here : Environment) (distance : Nat) (name : Token) :
    Except RuntimeFault Value :=
  name.found (store.getAt? here distance name.lexeme)

/-- The environment a distance out exists and binds the name itself. -/
def BindsAt (store : Store) (here : Environment) (distance : Nat) (name : String) : Prop :=
  ∃ target, here.ancestor? distance = some target ∧ store.binds name target.scope

/-- The least distance at which the name is bound. -/
structure Nearest (store : Store) (here : Environment) (distance : Nat) (name : String) : Prop where
  binds : store.BindsAt here distance name
  least : ∀ nearer < distance, ¬store.BindsAt here nearer name

end Store

/-! ### Worlds -/

/-- A store, and the environments made in it so far. -/
structure World where
  store : Store
  environments : List Environment

inductive Act
  | outermost
  | enter (outer : Environment)
  | define (here : Environment) (name : String) (value : Value)
  | assign (here : Environment) (name : Token) (value : Value)
  | assignAt (here : Environment) (distance : Nat) (name : Token) (value : Value)

/-- What an assignment writes, and under which name. -/
def Act.assigns? : Act → Option (Token × Value)
  | .assign _ name value | .assignAt _ _ name value => some (name, value)
  | .outermost | .enter _ | .define .. => none

namespace World

def empty : World := ⟨.empty, []⟩

/-- An assignment that fails leaves everything as it is. -/
def settle (world : World) : Except RuntimeFault Store → Except RuntimeFault Unit × World
  | .ok store => (.ok (), { world with store })
  | .error fault => (.error fault, world)

def perform (world : World) : Act → Except RuntimeFault Unit × World
  | .outermost =>
    let (made, store) := world.store.outermost
    (.ok (), ⟨store, made :: world.environments⟩)
  | .enter outer =>
    let (made, store) := world.store.enter outer .empty
    (.ok (), ⟨store, made :: world.environments⟩)
  | .define here name value => (.ok (), { world with store := world.store.define here name value })
  | .assign here name value =>
    world.settle (name.found (world.store.assign? here name.lexeme value))
  | .assignAt here distance name value =>
    world.settle (name.found (world.store.assignAt? here distance name.lexeme value))

/-- Acts are on environments that have been made. -/
def Offers (world : World) : Act → Prop
  | .outermost => True
  | .enter here | .define here _ _ | .assign here _ _ | .assignAt here _ _ _ =>
    here ∈ world.environments

/-- What any sequence of acts leads to, those that fail among them. -/
inductive Built : World → Prop
  | empty : Built .empty
  | perform {world : World} {act : Act} :
      Built world → world.Offers act → Built (world.perform act).2

/-- An assignment is to the nearest binder, and one at a distance to the environment there. -/
inductive Hits (world : World) : Act → Environment → Token → Value → Prop
  | assign {here target : Environment} {distance : Nat} {name : Token} {value : Value} :
      world.store.Nearest here distance name.lexeme → here.ancestor? distance = some target →
      world.Hits (.assign here name value) target name value
  | assignAt {here target : Environment} {distance : Nat} {name : Token} {value : Value} :
      here.ancestor? distance = some target → world.store.binds name.lexeme target.scope →
      world.Hits (.assignAt here distance name value) target name value

/-- One binding of one environment has another value, and nothing else is changed. -/
structure Rebinds (before : World) (target : Environment) (name : Token) (value : Value)
    (after : World) : Prop where
  known : target ∈ before.environments
  bound : before.store.binds name.lexeme target.scope
  rebound : after.store.lookup? target.scope name.lexeme = some value
  others : ∀ other ∈ before.environments, ∀ key, other ≠ target ∨ key ≠ name.lexeme →
    after.store.lookup? other.scope key = before.store.lookup? other.scope key
  fields : after.store.fields = before.store.fields
  environments : after.environments = before.environments
  /-- Every environment whose nearest binder this is reads the value. -/
  reads : ∀ reader ∈ before.environments, ∀ distance,
    before.store.Nearest reader distance name.lexeme → reader.ancestor? distance = some target →
      after.store.read reader name = .ok value

/-- Each environment made has a scope of its own, and those around it were made too. -/
structure Sound (world : World) : Prop where
  inside : ∀ here ∈ world.environments, here.scope < world.store.scopes.size
  apart : ∀ here ∈ world.environments, ∀ there ∈ world.environments,
    here.scope = there.scope → here = there
  closed : ∀ here ∈ world.environments, ∀ outer, here.enclosing? = some outer →
    outer ∈ world.environments

end World

variable {store : Store} {here target : Environment} {distance : Nat} {name : Token}
  {value : Value} {world : World} {act : Act}

@[simp] theorem Token.found_eq_ok {α : Type} (name : Token) {slot : Option α} {there : α} :
    name.found slot = .ok there ↔ slot = some there := by
  cases slot <;> simp [found]

/-! ### Finding a slot -/

namespace Store

theorem bindsAt_iff {key : String} : store.BindsAt here distance key ↔
    ∃ address, here.scopes[distance]? = some address ∧ store.binds key address := by
  rw [← here.scope_ancestor?]
  simp only [BindsAt, Option.map_eq_some_iff]
  constructor
  · intro ⟨target, out, bound⟩
    exact ⟨target.scope, ⟨target, out, rfl⟩, bound⟩
  · intro ⟨address, ⟨target, out, same⟩, bound⟩
    exact ⟨target, out, same ▸ bound⟩

theorem slotAt?_of_ancestor {key : String} (out : here.ancestor? distance = some target)
    (bound : store.binds key target.scope) :
    store.slotAt? here distance key = some target.scope := by
  rw [slotAt?, out, Option.bind_some, if_pos bound]

theorem slotAt?_eq_none {key : String} (missing : ¬store.BindsAt here distance key) :
    store.slotAt? here distance key = none := by
  cases found : store.slotAt? here distance key with
  | none => rfl
  | some address =>
    obtain ⟨target, out, chosen⟩ := Option.bind_eq_some_iff.mp found
    have bound : store.binds key target.scope := (Option.ite_none_right_eq_some.mp chosen).1
    exact absurd ⟨target, out, bound⟩ missing

/-- A jump reads the slot it finds. -/
theorem getAt?_slotAt? (key : String) : store.getAt? here distance key =
    (store.slotAt? here distance key).bind (store.lookup? · key) := by
  rw [getAt?, slotAt?, Option.bind_assoc]
  congr 1
  funext target
  by_cases bound : store.binds key target.scope
  · rw [if_pos bound, Option.bind_some]
  · rw [if_neg bound, Option.bind_none]
    exact Option.not_isSome_iff_eq_none.mp bound

/-- The walk outwards stops where a jump to the nearest binder lands. -/
theorem Nearest.slot? {key : String} (nearest : store.Nearest here distance key) :
    store.slot? here key = store.slotAt? here distance key := by
  obtain ⟨address, there, bound⟩ := bindsAt_iff.mp nearest.binds
  have jump : store.slotAt? here distance key = some address := by
    rw [slotAt?_eq, there, Option.bind_some, if_pos bound]
  obtain ⟨inside, at_distance⟩ := List.getElem?_eq_some_iff.mp there
  rw [jump, Store.slot?, List.find?_eq_some_iff_getElem]
  refine ⟨bound, distance, inside, at_distance, ?_⟩
  intro nearer under
  have unbound := nearest.least nearer under
  rw [bindsAt_iff] at unbound
  have here_too := List.getElem?_eq_getElem (Nat.lt_trans under inside)
  simpa using fun bound => unbound ⟨_, here_too, bound⟩

theorem Nearest.read (nearest : store.Nearest here distance name.lexeme) :
    store.read here name = store.readAt here distance name := by
  rw [Store.read, readAt, get?, getAt?_slotAt?, nearest.slot?]

theorem Nearest.unique {key : String} {other : Nat} (nearest : store.Nearest here distance key)
    (also : store.Nearest here other key) : distance = other := by
  obtain below | same | above := Nat.lt_trichotomy distance other
  · exact absurd nearest.binds (also.least distance below)
  · exact same
  · exact absurd also.binds (nearest.least other above)

theorem exists_nearest {key : String} (bound : ∃ distance, store.BindsAt here distance key) :
    ∃ distance, store.Nearest here distance key := by
  classical
  exact ⟨Nat.find bound, Nat.find_spec bound, fun _ nearer => Nat.find_min bound nearer⟩

theorem slot?_eq_none {key : String} (nowhere : ∀ distance, ¬store.BindsAt here distance key) :
    store.slot? here key = none := by
  rw [slot?, List.find?_eq_none]
  intro address member bound
  obtain ⟨distance, there⟩ := List.mem_iff_getElem?.mp member
  exact nowhere distance (bindsAt_iff.mpr ⟨address, there, bound⟩)

end Store

/-! ### Writing to a slot -/

namespace Store

variable {key : String} {address : Nat}

theorem lt_of_binds (bound : store.binds key address) : address < store.scopes.size := by
  by_contra outside
  rw [binds, lookup?_of_size_le (Nat.le_of_not_lt outside)] at bound
  cases bound

/-- The slot that was written to has the value, and every other one what it had. -/
theorem lookup?_write_of_binds (bound : store.binds key address) (other : Nat) (word : String) :
    (store.write address key value).lookup? other word =
      if other = address ∧ word = key then some value else store.lookup? other word := by
  rw [lookup?_write]
  simp only [lt_of_binds bound, and_true]

/-- Writing to a slot leaves every walk where it was. -/
theorem slot?_write_of_binds (bound : store.binds key address) (here : Environment)
    (word : String) : (store.write address key value).slot? here word = store.slot? here word := by
  have same : ∀ scope, (store.write address key value).binds word scope = store.binds word scope :=
    fun scope => same_write_of_binds bound value (scope + 1) scope (Nat.lt_succ_self _) word
  rw [slot?, slot?, funext same]

/-- Writing to a slot adds no name to its scope, and takes none away. -/
theorem names_write_of_binds (bound : store.binds key address) (here : Environment) :
    (store.write address key value).names here = store.names here := by
  simp only [names, write, Array.getElem?_modify]
  by_cases same : address = here.scope
  · cases found : store.scopes[here.scope]? with
    | none => simp
    | some bindings =>
      have member : key ∈ bindings.names := by
        rw [bindings.mem_names, Bindings.contains]
        rwa [same, binds, lookup?, found] at bound
      simp [same, Bindings.names_insert, member]
  · simp [same]

theorem names_push (store : Store) (bindings : Bindings Value)
    (inside : here.scope < store.scopes.size) :
    names { store with scopes := store.scopes.push bindings } here = store.names here := by
  simp only [names, Array.getElem?_push_lt inside, Array.getElem?_eq_getElem inside]

end Store

/-! ### What is built -/

namespace World

/-- An environment in a scope that was not there before. -/
theorem Sound.push (sound : world.Sound) {made : Environment} {bindings : Bindings Value}
    (fresh : made.scope = world.store.scopes.size)
    (around : ∀ outer, made.enclosing? = some outer → outer ∈ world.environments) :
    Sound ⟨{ world.store with scopes := world.store.scopes.push bindings },
      made :: world.environments⟩ := by
  have unused : ∀ other ∈ world.environments, other.scope ≠ made.scope := by
    intro other member same
    exact absurd (sound.inside other member) (by simp [same, fresh])
  constructor
  · intro here member
    rw [Array.size_push]
    cases List.mem_cons.mp member with
    | inl new => simp [new, fresh]
    | inr old => exact Nat.lt_succ_of_lt (sound.inside here old)
  · intro here member there other same
    cases List.mem_cons.mp member with
    | inl new =>
      cases List.mem_cons.mp other with
      | inl also => rw [new, also]
      | inr old => exact absurd (new ▸ same.symm) (unused there old)
    | inr old =>
      cases List.mem_cons.mp other with
      | inl new => exact absurd (new ▸ same) (unused here old)
      | inr also => exact sound.apart here old there also same
  · intro here member outer out
    cases List.mem_cons.mp member with
    | inl new => exact List.mem_cons_of_mem _ (around outer (new ▸ out))
    | inr old => exact List.mem_cons_of_mem _ (sound.closed here old outer out)

theorem Sound.write (sound : world.Sound) (address : Nat) (key : String) (value : Value) :
    Sound { world with store := world.store.write address key value } :=
  ⟨fun here member => (sound.inside here member).trans_eq (Store.size_write ..).symm, sound.apart,
    sound.closed⟩

theorem Sound.settle (sound : world.Sound) {slot : Option Nat} {key : String} :
    (world.settle (name.found (slot.map (world.store.write · key value)))).2.Sound := by
  cases slot with
  | none => exact sound
  | some address => exact sound.write address key value

theorem Sound.perform (sound : world.Sound) (offered : world.Offers act) :
    (world.perform act).2.Sound := by
  cases act with
  | outermost => exact sound.push rfl nofun
  | enter outer =>
    refine sound.push rfl ?_
    intro around out
    obtain rfl : outer = around := Option.some.inj out
    exact offered
  | define here name value => exact sound.write here.scope name value
  | assign here name value => exact sound.settle
  | assignAt here distance name value => exact sound.settle

theorem Built.sound (built : world.Built) : world.Sound := by
  induction built with
  | empty => exact ⟨nofun, nofun, nofun⟩
  | perform _ offered ih => exact ih.perform offered

/-- Every environment out from one that was made was made too. -/
theorem Sound.ancestor (sound : world.Sound) (known : here ∈ world.environments)
    (out : here.ancestor? distance = some target) : target ∈ world.environments := by
  induction distance generalizing here with
  | zero => exact Option.some.inj out ▸ known
  | succ distance ih =>
    obtain ⟨next, around, further⟩ := Option.bind_eq_some_iff.mp out
    exact ih (sound.closed here known next around) further

theorem Sound.rebinds (sound : world.Sound) (known : target ∈ world.environments)
    (bound : world.store.binds name.lexeme target.scope) :
    world.Rebinds target name value
      { world with store := world.store.write target.scope name.lexeme value } where
  known := known
  bound := bound
  rebound := by rw [Store.lookup?_write_of_binds bound, if_pos ⟨rfl, rfl⟩]
  others := by
    intro other member key different
    rw [Store.lookup?_write_of_binds bound, if_neg]
    intro ⟨place, word⟩
    cases different with
    | inl elsewhere => exact elsewhere (sound.apart other member target known place)
    | inr otherwise => exact otherwise word
  fields := rfl
  environments := rfl
  reads := by
    intro reader _ distance nearest out
    obtain ⟨landed, there, bound_there⟩ := nearest.binds
    obtain rfl : target = landed := Option.some.inj (out.symm.trans there)
    have walked : world.store.slot? reader name.lexeme = some target.scope :=
      nearest.slot?.trans (Store.slotAt?_of_ancestor out bound_there)
    rw [Store.read, Store.get?, Store.slot?_write_of_binds bound, walked, Option.bind_some,
      Store.lookup?_write_of_binds bound, if_pos ⟨rfl, rfl⟩]
    rfl

/-! ### Acts -/

theorem perform_assign (nearest : world.store.Nearest here distance name.lexeme) :
    world.perform (.assign here name value) = world.perform (.assignAt here distance name value) := by
  rw [perform, perform, Store.assign?, Store.assignAt?, nearest.slot?]

theorem perform_assignAt (out : here.ancestor? distance = some target)
    (bound : world.store.binds name.lexeme target.scope) :
    world.perform (.assignAt here distance name value) =
      (.ok (), { world with store := world.store.write target.scope name.lexeme value }) := by
  rw [perform, Store.assignAt?, Store.slotAt?_of_ancestor out bound]
  rfl

theorem perform_assignAt_missing (missing : ¬world.store.BindsAt here distance name.lexeme) :
    world.perform (.assignAt here distance name value) =
      (.error (.undefinedVariable name.lexeme name.line), world) := by
  rw [perform, Store.assignAt?, Store.slotAt?_eq_none missing]
  rfl

theorem perform_assign_nowhere
    (nowhere : ∀ distance, ¬world.store.BindsAt here distance name.lexeme) :
    world.perform (.assign here name value) =
      (.error (.undefinedVariable name.lexeme name.line), world) := by
  rw [perform, Store.assign?, Store.slot?_eq_none nowhere]
  rfl

theorem Hits.binds (hits : world.Hits act target name value) :
    world.store.binds name.lexeme target.scope := by
  cases hits with
  | assign nearest out =>
    obtain ⟨landed, there, bound⟩ := nearest.binds
    obtain rfl := Option.some.inj (out.symm.trans there)
    exact bound
  | assignAt _ bound => exact bound

theorem Sound.hit (sound : world.Sound) (offered : world.Offers act)
    (hits : world.Hits act target name value) : target ∈ world.environments := by
  cases hits with
  | assign _ out => exact sound.ancestor offered out
  | assignAt out _ => exact sound.ancestor offered out

/-- Every assignment hits a slot or fails. -/
theorem assigned (world : World) (act : Act) {name : Token} {value : Value}
    (assigns : act.assigns? = some (name, value)) :
    (∃ target, world.Hits act target name value ∧ world.perform act =
      (.ok (), { world with store := world.store.write target.scope name.lexeme value })) ∨
    world.perform act = (.error (.undefinedVariable name.lexeme name.line), world) := by
  cases act with
  | outermost | enter | define => cases assigns
  | assign here name value =>
    cases assigns
    by_cases bound : ∃ distance, world.store.BindsAt here distance name.lexeme
    · obtain ⟨distance, nearest⟩ := Store.exists_nearest bound
      obtain ⟨target, out, binds⟩ := nearest.binds
      exact .inl ⟨target, .assign nearest out,
        (perform_assign nearest).trans (perform_assignAt out binds)⟩
    · exact .inr (perform_assign_nowhere (not_exists.mp bound))
  | assignAt here distance name value =>
    cases assigns
    by_cases bound : world.store.BindsAt here distance name.lexeme
    · obtain ⟨target, out, binds⟩ := bound
      exact .inl ⟨target, .assignAt out binds, perform_assignAt out binds⟩
    · exact .inr (perform_assignAt_missing bound)

theorem eq_of_error {fault : RuntimeFault} {after : World}
    (performed : world.perform act = (.error fault, after)) : after = world := by
  cases assigns : act.assigns? with
  | none => cases act <;> cases assigns <;> cases performed
  | some written =>
    obtain ⟨target, _, succeeded⟩ | failed := assigned world act assigns
    · rw [succeeded] at performed
      cases performed
    · rw [failed] at performed
      cases performed
      rfl

/-- Only a definition gives an environment that was there a name, or takes one from it. -/
theorem Sound.names_perform (sound : world.Sound)
    (keeps : ∀ here key value, act ≠ .define here key value) {other : Environment}
    (known : other ∈ world.environments) :
    (world.perform act).2.store.names other = world.store.names other := by
  have assignment : ∀ name value, act.assigns? = some (name, value) →
      (world.perform act).2.store.names other = world.store.names other := by
    intro name value assigns
    obtain ⟨target, hits, performed⟩ | failed := assigned world act assigns
    · rw [performed]
      exact Store.names_write_of_binds hits.binds other
    · rw [failed]
  cases act with
  | outermost => exact Store.names_push _ _ (sound.inside other known)
  | enter outer => exact Store.names_push _ _ (sound.inside other known)
  | define here key value => exact absurd rfl (keeps here key value)
  | assign here name value => exact assignment name value rfl
  | assignAt here distance name value => exact assignment name value rfl

end World

/-! ### The machine -/

namespace Machine

variable {stack : List Frame} {state : State}

/-- A reference with a distance is read by a jump, and any other by a walk from the globals. -/
theorem readName_eq (reference : Reference) : readName reference stack state =
    .ofExcept (match state.distance? reference with
      | some distance => state.store.readAt state.current distance reference.name
      | none => state.store.read globals reference.name) stack state := by
  simp only [readName, State.lookup?]
  cases state.distance? reference with
  | none =>
    simp only [Store.read]
    cases state.store.get? globals reference.name.lexeme <;> rfl
  | some distance =>
    simp only [Store.readAt]
    cases state.store.getAt? state.current distance reference.name.lexeme <;> rfl

/-- And so it is assigned to; what fails is reported at the name. -/
theorem writeName_eq (target : Reference) (environments : List Environment) :
    writeName target value stack state =
      match World.perform ⟨state.store, environments⟩ (match state.distance? target with
        | some distance => .assignAt state.current distance target.name value
        | none => .assign globals target.name value) with
      | (.ok (), after) => .done value stack { state with store := after.store }
      | (.error fault, after) => .failed fault stack { state with store := after.store } := by
  simp only [writeName, State.slot?]
  cases state.distance? target with
  | none =>
    simp only [World.perform, Store.assign?]
    cases state.store.slot? globals target.name.lexeme <;> rfl
  | some distance =>
    simp only [World.perform, Store.assignAt?]
    cases state.store.slotAt? state.current distance target.name.lexeme <;> rfl

end Machine

/-! ### Every world -/

theorem slots_agree (built : world.Built) :
    (∀ here ∈ world.environments, ∀ (name : Token) (value : Value),
      (∀ distance, world.store.Nearest here distance name.lexeme →
        world.store.read here name = world.store.readAt here distance name ∧
        world.perform (.assign here name value) =
          world.perform (.assignAt here distance name value)) ∧
      ((∀ distance, ¬world.store.Nearest here distance name.lexeme) →
        world.store.read here name = .error (.undefinedVariable name.lexeme name.line) ∧
        world.perform (.assign here name value) =
          (.error (.undefinedVariable name.lexeme name.line), world)) ∧
      ∀ distance,
        (∀ found, world.store.readAt here distance name = .ok found ↔
          ∃ target, here.ancestor? distance = some target ∧
            world.store.lookup? target.scope name.lexeme = some found) ∧
        (world.store.BindsAt here distance name.lexeme →
          (world.perform (.assignAt here distance name value)).1 = .ok ()) ∧
        (¬world.store.BindsAt here distance name.lexeme →
          world.store.readAt here distance name =
            .error (.undefinedVariable name.lexeme name.line) ∧
          world.perform (.assignAt here distance name value) =
            (.error (.undefinedVariable name.lexeme name.line), world))) ∧
    ∀ act, world.Offers act →
      (∀ name value after, act.assigns? = some (name, value) →
        world.perform act = (.ok (), after) →
          ∃ target, world.Hits act target name value ∧ world.Rebinds target name value after) ∧
      (∀ fault after, world.perform act = (.error fault, after) → after = world) ∧
      ((∀ here key value, act ≠ .define here key value) → ∀ other ∈ world.environments,
        (world.perform act).2.store.names other = world.store.names other) := by
  have sound := built.sound
  constructor
  · intro here known name value
    refine ⟨?_, ?_, ?_⟩
    · intro distance nearest
      exact ⟨nearest.read, World.perform_assign nearest⟩
    · intro nowhere
      have unbound : ∀ distance, ¬world.store.BindsAt here distance name.lexeme := by
        intro distance bound
        obtain ⟨least, nearest⟩ := Store.exists_nearest ⟨distance, bound⟩
        exact nowhere least nearest
      refine ⟨?_, World.perform_assign_nowhere unbound⟩
      rw [Store.read, Store.get?, Store.slot?_eq_none unbound]
      rfl
    · intro distance
      refine ⟨?_, ?_, ?_⟩
      · intro found
        rw [Store.readAt, name.found_eq_ok, Store.getAt?, Option.bind_eq_some_iff]
      · intro binds
        obtain ⟨target, out, bound⟩ := binds
        rw [World.perform_assignAt out bound]
      · intro missing
        refine ⟨?_, World.perform_assignAt_missing missing⟩
        rw [Store.readAt, Store.getAt?_slotAt?, Store.slotAt?_eq_none missing]
        rfl
  · intro act offered
    refine ⟨?_, ?_, ?_⟩
    · intro name value after assigns performed
      obtain ⟨target, hits, written⟩ | failed := World.assigned world act assigns
      · rw [written] at performed
        cases performed
        exact ⟨target, hits, sound.rebinds (sound.hit offered hits) hits.binds⟩
      · rw [failed] at performed
        cases performed
    · intro fault after performed
      exact World.eq_of_error performed
    · intro keeps other known
      exact sound.names_perform keeps known

theorem slots_agree_shadowed : ∃ (world after : World) (inner middle outer : Environment)
    (name : Token), world.Built ∧ world.environments = [inner, middle, outer] ∧
    world.store.Nearest inner 1 name.lexeme ∧
    world.store.read inner name = .ok (.bool false) ∧
    world.store.readAt inner 1 name = .ok (.bool false) ∧
    world.perform (.assign inner name .nil) = (.ok (), after) ∧
    world.Rebinds middle name .nil after ∧
    after.store.lookup? outer.scope name.lexeme = some (.bool true) := by
  let outer : Environment := ⟨0, []⟩
  let middle : Environment := ⟨1, [0]⟩
  let inner : Environment := ⟨2, [1, 0]⟩
  let name : Token := ⟨.identifier, "a", 1⟩
  let acts : List Act := [.outermost, .define outer "a" (.bool true), .enter outer,
    .define middle "a" (.bool false), .enter middle]
  let world : World := acts.foldl (fun world act => (world.perform act).2) .empty
  have built : world.Built := by
    refine .perform (.perform (.perform (.perform (.perform .empty ?_) ?_) ?_) ?_) ?_
    · trivial
    · exact List.mem_cons_self
    · exact List.mem_cons_self
    · exact List.mem_cons_self
    · exact List.mem_cons_self
  have known : inner ∈ world.environments := List.mem_cons_self
  have nearest : world.store.Nearest inner 1 name.lexeme := by
    refine ⟨⟨middle, rfl, by cbv⟩, ?_⟩
    intro nearer under
    obtain rfl : nearer = 0 := by omega
    intro binds
    obtain ⟨target, out, bound⟩ := binds
    cases out
    cases bound
  obtain ⟨reads, acts⟩ := slots_agree built
  obtain ⟨walk, _, jump⟩ := reads inner known name .nil
  obtain ⟨same, performed⟩ := walk 1 nearest
  have read : world.store.readAt inner 1 name = .ok (.bool false) :=
    (jump 1).1 (.bool false) |>.mpr ⟨middle, rfl, by cbv⟩
  rcases wrote : world.perform (.assign inner name .nil) with ⟨result, after⟩
  obtain rfl : result = .ok () := by
    rw [← (jump 1).2.1 nearest.binds, ← performed, wrote]
  obtain ⟨target, hits, rebinds⟩ :=
    (acts (.assign inner name .nil) known).1 name .nil after rfl wrote
  obtain rfl : target = middle := by
    cases hits with
    | assign other out =>
      obtain rfl := other.unique nearest
      exact (Option.some.inj out).symm
  have untouched : after.store.lookup? outer.scope name.lexeme = some (.bool true) := by
    refine (rebinds.others outer ?_ name.lexeme (.inl ?_)).trans (by cbv)
    · exact List.mem_cons_of_mem _ (List.mem_cons_of_mem _ List.mem_cons_self)
    · exact fun same => absurd (congrArg Environment.scope same) (by decide)
  exact ⟨world, after, inner, middle, outer, name, built, rfl, nearest, same.trans read, read, wrote,
    rebinds, untouched⟩

end Lox
