/-!
Finite maps from names. A name keeps the place of its first binding, and binding it again only
changes what it stands for; everything else is read through `find?`.
-/

namespace Lox

structure Bindings (α : Type) where
  entries : List (String × α)
deriving Inhabited

namespace Bindings

variable {α : Type}

def empty : Bindings α := ⟨[]⟩

def find? (bindings : Bindings α) (name : String) : Option α :=
  bindings.entries.lookup name

def contains (bindings : Bindings α) (name : String) : Bool :=
  (bindings.find? name).isSome

def names (bindings : Bindings α) : List String :=
  bindings.entries.map Prod.fst

def put (name : String) (value : α) : List (String × α) → List (String × α)
  | [] => [(name, value)]
  | (other, old) :: rest =>
    if name = other then (name, value) :: rest else (other, old) :: put name value rest

def insert (bindings : Bindings α) (name : String) (value : α) : Bindings α :=
  ⟨put name value bindings.entries⟩

/-- The last of several pairs with one name wins. -/
def ofList (pairs : List (String × α)) : Bindings α :=
  pairs.foldl (fun bindings (name, value) => bindings.insert name value) empty

@[simp] theorem find?_empty (name : String) : (empty : Bindings α).find? name = none := rfl

theorem lookup_cons (name key : String) (value : α) (rest : List (String × α)) :
    ((key, value) :: rest).lookup name = if name = key then some value else rest.lookup name := by
  by_cases same : name = key
  · simp [same]
  · simp [List.lookup_cons, same, beq_false_of_ne same]

@[simp] theorem find?_insert (bindings : Bindings α) (name other : String) (value : α) :
    (bindings.insert name value).find? other =
      if other = name then some value else bindings.find? other := by
  obtain ⟨entries⟩ := bindings
  simp only [insert, find?]
  induction entries with
  | nil => simp [put, lookup_cons]
  | cons entry rest ih =>
    obtain ⟨key, old⟩ := entry
    by_cases here : name = key
    · subst here
      by_cases same : other = name <;> simp [put, lookup_cons, same]
    · by_cases same : other = key
      · subst same
        simp [put, here, Ne.symm here]
      · simp [put, lookup_cons, here, same, ih]

@[simp] theorem mem_names_insert (bindings : Bindings α) (name other : String) (value : α) :
    other ∈ (bindings.insert name value).names ↔ other = name ∨ other ∈ bindings.names := by
  obtain ⟨entries⟩ := bindings
  simp only [insert, names]
  induction entries with
  | nil => simp [put]
  | cons entry rest ih =>
    obtain ⟨key, old⟩ := entry
    by_cases here : name = key
    · simp [put, here]
    · simp only [put, here, if_false, List.map_cons, List.mem_cons, ih]
      constructor <;> (rintro (h | h | h) <;> simp [h])

end Bindings
end Lox
