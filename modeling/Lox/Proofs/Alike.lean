import Mathlib.Data.List.Forall2
import Lox.Proofs.Contents
import Lox.Proofs.Moments

/-! Values that cannot be told apart. They are the same but for the functions they hold, which are
related in a way that a host function does not see. -/

namespace Lox

/-! ### Maps -/

theorem rel_imp {α β : Type} {relation weaker : α → β → Prop} {first : Option α} {second : Option β}
    (given : Option.Rel relation first second) (implies : ∀ a b, relation a b → weaker a b) :
    Option.Rel weaker first second := by
  cases given with
  | none => exact .none
  | some here => exact .some (implies _ _ here)

/-- Maps that bind like things, in one order, under names of which some may have been changed. -/
structure Bindings.Like {α β : Type} (rename : String → String) (like : α → β → Prop)
    (first : Bindings α) (second : Bindings β) : Prop where
  names : second.names = first.names.map rename
  find? : ∀ name, Option.Rel like (first.find? name) (second.find? (rename name))

theorem Bindings.names_insert {α : Type} (bindings : Bindings α) (name : String) (value : α) :
    (bindings.insert name value).names =
      if name ∈ bindings.names then bindings.names else bindings.names ++ [name] := by
  unfold Bindings.names Bindings.insert
  dsimp only
  induction bindings.entries with
  | nil => rfl
  | cons entry rest ih =>
    obtain ⟨key, old⟩ := entry
    simp only [put]
    by_cases here : name = key
    · simp [here]
    · simp only [here, if_false, List.map_cons, ih, List.mem_cons, false_or]
      split <;> rfl

namespace Bindings.Like

variable {α β : Type} {rename : String → String} {like other : α → β → Prop}
  {first : Bindings α} {second : Bindings β} {name : String} {value : α} {twin : β}

theorem empty : Like rename like .empty .empty := ⟨rfl, fun _ => .none⟩

theorem imp (alike : Like rename like first second) (implies : ∀ a b, like a b → other a b) :
    Like rename other first second := by
  refine ⟨alike.names, ?_⟩
  intro name
  have found := alike.find? name
  generalize first.find? name = value, second.find? (rename name) = twin at found ⊢
  cases found with
  | none => exact .none
  | some given => exact .some (implies _ _ given)

theorem insert (alike : Like rename like first second) (injective : Function.Injective rename)
    (name : String) (given : like value twin) :
    Like rename like (first.insert name value) (second.insert (rename name) twin) := by
  constructor
  · rw [names_insert, names_insert, alike.names]
    simp only [List.mem_map_of_injective injective]
    split
    · rfl
    · rw [List.map_append, List.map_singleton]
  · intro found
    rw [find?_insert, find?_insert]
    by_cases same : found = name
    · rw [if_pos same, if_pos (congrArg rename same)]
      exact .some given
    · rw [if_neg same, if_neg fun equal => same (injective equal)]
      exact alike.find? found

end Bindings.Like

/-! ### Values -/

/-- What can be told of functions from outside. -/
structure Function.Alike (first second : Function) : Prop where
  identity : second.identity = first.identity
  name : second.name = first.name
  arity : second.arity = first.arity
  isInitializer : second.isInitializer = first.isInitializer

section Values

variable (function method : Function → Function → Prop)

structure Layer.Like (first second : Layer) : Prop where
  identity : second.identity = first.identity
  name : second.name = first.name
  methods : Bindings.Like id method first.methods second.methods

structure Class.Like (first second : Class) : Prop where
  own : first.own.Like method second.own
  inherited : List.Forall₂ (Layer.Like method) first.inherited second.inherited

inductive Value.Like : Value → Value → Prop
  | nil : Value.Like .nil .nil
  | bool (value : Bool) : Value.Like (.bool value) (.bool value)
  | number (value : Float) : Value.Like (.number value) (.number value)
  | string (text : String) : Value.Like (.string text) (.string text)
  | native (native : Native) : Value.Like (.native native) (.native native)
  | function {first second : Function} : function first second →
      Value.Like (.function first) (.function second)
  | klass {first second : Class} : first.Like method second →
      Value.Like (.klass first) (.klass second)
  | object (identity : Nat) {first second : Class} : first.Like method second →
      Value.Like (.object ⟨identity, first⟩) (.object ⟨identity, second⟩)

end Values

variable {function method : Function → Function → Prop}

section Imp

variable {otherFunction otherMethod : Function → Function → Prop}

theorem Layer.Like.imp {first second : Layer} (alike : first.Like method second)
    (methods : ∀ f g, method f g → otherMethod f g) : first.Like otherMethod second :=
  ⟨alike.identity, alike.name, alike.methods.imp methods⟩

theorem Class.Like.imp {first second : Class} (alike : first.Like method second)
    (methods : ∀ f g, method f g → otherMethod f g) : first.Like otherMethod second :=
  ⟨alike.own.imp methods, alike.inherited.imp fun _ _ layer => layer.imp methods⟩

theorem Value.Like.imp {first second : Value} (alike : first.Like function method second)
    (functions : ∀ f g, function f g → otherFunction f g)
    (methods : ∀ f g, method f g → otherMethod f g) :
    first.Like otherFunction otherMethod second := by
  cases alike with
  | nil => exact .nil
  | bool value => exact .bool value
  | number value => exact .number value
  | string text => exact .string text
  | native native => exact .native native
  | function given => exact .function (functions _ _ given)
  | klass given => exact .klass (given.imp methods)
  | object identity given => exact .object identity (given.imp methods)

end Imp

theorem Class.Like.layers {first second : Class} (alike : first.Like method second) :
    List.Forall₂ (Layer.Like method) first.layers second.layers :=
  .cons alike.own alike.inherited

theorem Class.Like.findMethod? {first second : Class} (alike : first.Like method second)
    (name : String) : Option.Rel method (first.findMethod? name) (second.findMethod? name) := by
  have layers := alike.layers
  unfold Class.findMethod?
  generalize first.layers = own, second.layers = twins at layers ⊢
  induction layers with
  | nil => exact .none
  | @cons layer twin rest others here _ ih =>
    have found := here.methods.find? name
    rw [List.findSome?_cons, List.findSome?_cons]
    rw [id] at found
    cases own : layer.methods.find? name with
    | some value =>
      rw [own] at found
      cases other : twin.methods.find? name with
      | none => rw [other] at found; cases found
      | some value' => rwa [other] at found
    | none =>
      rw [own] at found
      cases other : twin.methods.find? name with
      | none => exact ih
      | some value' => rw [other] at found; cases found

section Alike

variable {first second : Value}

theorem Class.Like.arity (methods : ∀ f g, method f g → f.Alike g) {first second : Class}
    (alike : first.Like method second) : second.arity = first.arity := by
  have found := alike.findMethod? initializerName
  unfold Class.arity Class.initializer?
  generalize first.findMethod? initializerName = own, second.findMethod? initializerName = twin
    at found ⊢
  cases found with
  | none => rfl
  | some given => exact (methods _ _ given).arity

theorem Value.Like.text (functions : ∀ f g, function f g → f.Alike g)
    (alike : first.Like function method second) : second.text = first.text := by
  cases alike with
  | function given => rw [Value.text, Value.text, (functions _ _ given).name]
  | klass given => exact given.own.name
  | object identity given => exact congrArg (· ++ " instance") given.own.name
  | _ => rfl

theorem Value.Like.isTruthy (alike : first.Like function method second) :
    second.isTruthy = first.isTruthy := by
  cases alike <;> rfl

theorem Value.Like.arity? (functions : ∀ f g, function f g → f.Alike g)
    (methods : ∀ f g, method f g → f.Alike g) (alike : first.Like function method second) :
    second.arity? = first.arity? := by
  cases alike with
  | function given => exact congrArg some (functions _ _ given).arity
  | klass given => exact congrArg some (given.arity methods)
  | _ => rfl

theorem Value.Like.equals (functions : ∀ f g, function f g → f.Alike g)
    {third fourth : Value} (alike : first.Like function method second)
    (others : third.Like function method fourth) : second.equals fourth = first.equals third := by
  cases alike <;> cases others <;> try rfl
  · rename_i given _ _ other
    simp only [Value.equals, (functions _ _ given).identity, (functions _ _ other).identity]
  · rename_i given _ _ other
    simp only [Value.equals, given.own.identity, other.own.identity]

theorem Value.like_ofLiteral (literal : Literal) :
    (Value.ofLiteral literal).Like function method (.ofLiteral literal) := by
  cases literal with
  | number value => exact .number value
  | string text => exact .string text
  | true => exact .bool true
  | false => exact .bool false
  | nil => exact .nil

end Alike

/-! ### A value and itself -/

section Diagonal

variable {only onlyMethod : Function → Prop}

theorem Class.Holds.like {c : Class} (holds : c.Holds onlyMethod)
    (methods : ∀ f, onlyMethod f → method f f) : c.Like method c := by
  have layer : ∀ layer ∈ c.layers, layer.Like method layer := by
    intro layer member
    refine ⟨rfl, rfl, (List.map_id _).symm, ?_⟩
    intro name
    rw [id]
    cases found : layer.methods.find? name with
    | none => exact .none
    | some f => exact .some (methods f (holds layer member name f found))
  refine ⟨layer c.own List.mem_cons_self, ?_⟩
  rw [List.forall₂_same]
  intro own member
  exact layer own (List.mem_cons_of_mem _ member)

theorem Value.Holds.like {value : Value} (holds : value.Holds only onlyMethod)
    (functions : ∀ f, only f → function f f) (methods : ∀ f, onlyMethod f → method f f) :
    value.Like function method value := by
  cases value with
  | nil => exact .nil
  | bool value => exact .bool value
  | number value => exact .number value
  | string text => exact .string text
  | native native => exact .native native
  | function f => exact .function (functions f holds)
  | klass c => exact .klass (Class.Holds.like holds methods)
  | object i => exact .object i.identity (Class.Holds.like holds methods)

theorem Class.Like.holds {first second : Class}
    (alike : first.Like (fun f g => f = g ∧ onlyMethod f) second) : first.Holds onlyMethod := by
  have held : ∀ layer twin : Layer, layer.Like (fun f g => f = g ∧ onlyMethod f) twin →
      ∀ name f, layer.methods.find? name = some f → onlyMethod f := by
    intro layer twin like name f found
    have both := like.methods.find? name
    rw [found] at both
    generalize twin.methods.find? (id name) = other at both
    cases both with
    | some given => exact given.2
  have layers : List.Forall₂ (fun layer (_ : Layer) =>
      (∀ name f, layer.methods.find? name = some f → onlyMethod f) ∧ True)
      first.layers second.layers :=
    alike.layers.imp fun layer twin like => ⟨held layer twin like, trivial⟩
  exact ((List.forall₂_and_left _ _).mp layers).1

theorem Value.Like.holds {first second : Value}
    (alike : first.Like (fun f g => f = g ∧ only f) (fun f g => f = g ∧ onlyMethod f) second) :
    first.Holds only onlyMethod := by
  cases alike with
  | function given => exact given.2
  | klass given => exact Class.Like.holds given
  | object identity given => exact Class.Like.holds given
  | _ => trivial

end Diagonal

/-! ### Host functions -/

/-- A host function that does not look into functions: it cannot tell apart what cannot be told apart
from outside. -/
def Machine.Discreet (act : Machine.HostFunction) : Prop :=
  ∀ function method : Function → Function → Prop, (∀ f g, function f g → f.Alike g) →
    (∀ f g, method f g → f.Alike g) → ∀ (now : Float) (arguments twins : List Value),
      List.Forall₂ (Value.Like function method) arguments twins →
        (∃ value twin, act now arguments = .ok value ∧ act now twins = .ok twin ∧
          value.Like function method twin) ∨
        ∃ message, act now arguments = .error message ∧ act now twins = .error message

theorem Machine.discreet_clock : Discreet fun now _ => .ok (.number now) :=
  fun _ _ _ _ now _ _ _ => .inl ⟨_, _, rfl, rfl, .number now⟩

/-- What does not look into functions does not make any either. -/
theorem Machine.Discreet.honest {act : HostFunction} (discreet : Discreet act) : Honest act := by
  intro function method now arguments value given returned
  have alike : ∀ (kind : Function → Prop) (f g : Function), f = g ∧ kind f → f.Alike g :=
    fun _ _ _ same => same.1 ▸ ⟨rfl, rfl, rfl, rfl⟩
  have arguments' : List.Forall₂ (Value.Like (fun f g => f = g ∧ function f)
      (fun f g => f = g ∧ method f)) arguments arguments :=
    List.forall₂_same.mpr fun argument member =>
      Value.Holds.like (given argument member) (fun _ holds => ⟨rfl, holds⟩)
        (fun _ holds => ⟨rfl, holds⟩)
  rcases discreet _ _ (alike function) (alike method) now arguments arguments arguments' with
    result | refused
  · obtain ⟨first, second, same, _, like⟩ := result
    rw [returned] at same
    cases same
    exact like.holds
  · obtain ⟨message, same, _⟩ := refused
    rw [returned] at same
    cases same

theorem Reachable.honest {moment : Moment} (reached : Reachable Machine.Discreet moment) :
    Reachable Machine.Honest moment := by
  obtain ⟨clock, broken, path⟩ := reached
  exact ⟨clock, broken, path.imp fun _ discreet => discreet.honest⟩

end Lox
