import Lox.Tree

/-! What a tree mentions: its references, each with the number of scopes that are opened between the
tree's own scope and the reference, and the words its names are made of. -/

namespace Lox

/-- A reference and how many scopes stand between it and where it is looked at from. -/
structure Use where
  depth : Nat
  writes : Bool
  reference : Reference

def Use.id (use : Use) : Nat := use.reference.id

mutual

def Expr.uses (depth : Nat) : Expr → List Use
  | .literal _ => []
  | .unary _ operand => operand.uses depth
  | .binary left _ right => left.uses depth ++ right.uses depth
  | .logical left _ right => left.uses depth ++ right.uses depth
  | .grouping inner => inner.uses depth
  | .variable reference => [⟨depth, false, reference⟩]
  | .assign target value => value.uses depth ++ [⟨depth, true, target⟩]
  | .call callee _ arguments => callee.uses depth ++ exprUses depth arguments
  | .get object _ => object.uses depth
  | .set object _ value => object.uses depth ++ value.uses depth
  | .this reference => [⟨depth, false, reference⟩]
  | .super reference _ => [⟨depth, false, reference⟩]

def exprUses (depth : Nat) : List Expr → List Use
  | [] => []
  | first :: rest => first.uses depth ++ exprUses depth rest

end

def optionalUses (depth : Nat) : Option Expr → List Use
  | none => []
  | some e => e.uses depth

/-- The scopes a class puts around its methods: one for the receiver, and one for the superclass. -/
def classDepth (superclass : Option Reference) : Nat := if superclass.isSome then 2 else 1

def superclassUses (depth : Nat) : Option Reference → List Use
  | none => []
  | some reference => [⟨depth, false, reference⟩]

mutual

def Stmt.uses (depth : Nat) : Stmt → List Use
  | .expression e => e.uses depth
  | .print e => e.uses depth
  | .var _ initializer => optionalUses depth initializer
  | .block body => stmtUses (depth + 1) body
  | .conditional condition thenBranch elseBranch =>
    condition.uses depth ++ thenBranch.uses depth ++ branchUses depth elseBranch
  | .loop condition body => condition.uses depth ++ body.uses depth
  | .function declaration => declaration.uses depth
  | .ret _ value => optionalUses depth value
  | .classDecl _ superclass methods =>
    superclassUses depth superclass ++ methodUses (depth + classDepth superclass) methods

def stmtUses (depth : Nat) : List Stmt → List Use
  | [] => []
  | first :: rest => first.uses depth ++ stmtUses depth rest

def branchUses (depth : Nat) : Option Stmt → List Use
  | none => []
  | some s => s.uses depth

/-- The body of a function is one scope further in than the function. -/
def FunctionDecl.uses (depth : Nat) : FunctionDecl → List Use
  | ⟨_, _, body⟩ => stmtUses (depth + 1) body

def methodUses (depth : Nat) : List FunctionDecl → List Use
  | [] => []
  | first :: rest => first.uses depth ++ methodUses depth rest

end

/-- The numbers of the references in a list of uses. -/
def identifiers (uses : List Use) : List Nat := uses.map Use.id

@[simp] theorem identifiers_nil : identifiers [] = [] := rfl

@[simp] theorem identifiers_append (first second : List Use) :
    identifiers (first ++ second) = identifiers first ++ identifiers second :=
  List.map_append

@[simp] theorem identifiers_singleton (depth : Nat) (writes : Bool) (reference : Reference) :
    identifiers [⟨depth, writes, reference⟩] = [reference.id] := rfl

/-- The name a statement binds in the scope it stands in. -/
def Stmt.declared? : Stmt → Option Token
  | .var name _ => some name
  | .function declaration => some declaration.name
  | .classDecl name _ _ => some name
  | _ => none

mutual

/-- All the names that a statement binds in the scope it stands in. A branch that is not in a block
stands in the same scope as the condition. -/
def Stmt.declares : Stmt → List Token
  | .var name _ => [name]
  | .function declaration => [declaration.name]
  | .classDecl name _ _ => [name]
  | .conditional _ thenBranch elseBranch => thenBranch.declares ++ branchDeclares elseBranch
  | .loop _ body => body.declares
  | .expression _ | .print _ | .block _ | .ret _ _ => []

def branchDeclares : Option Stmt → List Token
  | none => []
  | some s => s.declares

end

/-- The parameters and the statements of one scope. -/
structure Body where
  params : List Token
  statements : List Stmt

mutual

/-- The bodies of the blocks and functions in a statement. -/
def Stmt.bodies : Stmt → List Body
  | .block body => ⟨[], body⟩ :: stmtBodies body
  | .conditional _ thenBranch elseBranch => thenBranch.bodies ++ branchBodies elseBranch
  | .loop _ body => body.bodies
  | .function declaration => declaration.bodies
  | .classDecl _ _ methods => methodBodies methods
  | .expression _ | .print _ | .var _ _ | .ret _ _ => []

def stmtBodies : List Stmt → List Body
  | [] => []
  | first :: rest => first.bodies ++ stmtBodies rest

def branchBodies : Option Stmt → List Body
  | none => []
  | some s => s.bodies

def FunctionDecl.bodies : FunctionDecl → List Body
  | ⟨_, params, body⟩ => ⟨params, body⟩ :: stmtBodies body

def methodBodies : List FunctionDecl → List Body
  | [] => []
  | first :: rest => first.bodies ++ methodBodies rest

end

/-! ### Words

`good` stands for whatever is known of all tokens of the source. -/

section Words

variable (good : Token → Prop)

def Named (name : Token) : Prop := name.kind = .identifier ∧ good name

def Worded (word : Keyword) (name : Token) : Prop := name.kind = .keyword word ∧ good name

mutual

/-- Names are identifiers, and the receiver and the superclass stand under their keywords. -/
def Expr.Proper : Expr → Prop
  | .literal _ => True
  | .unary _ operand => operand.Proper
  | .binary left _ right => left.Proper ∧ right.Proper
  | .logical left _ right => left.Proper ∧ right.Proper
  | .grouping inner => inner.Proper
  | .variable reference => Named good reference.name
  | .assign target value => Named good target.name ∧ value.Proper
  | .call callee _ arguments => callee.Proper ∧ exprsProper arguments
  | .get object _ => object.Proper
  | .set object _ value => object.Proper ∧ value.Proper
  | .this reference => Worded good .this reference.name
  | .super reference _ => Worded good .super reference.name

def exprsProper : List Expr → Prop
  | [] => True
  | first :: rest => first.Proper ∧ exprsProper rest

end

def optionalProper : Option Expr → Prop
  | none => True
  | some e => e.Proper good

def superclassProper : Option Reference → Prop
  | none => True
  | some reference => Named good reference.name

mutual

/-- What hangs on a condition declares nothing, so that a scope has its names whatever is chosen. -/
def Stmt.Proper : Stmt → Prop
  | .expression e => e.Proper good
  | .print e => e.Proper good
  | .var name initializer => Named good name ∧ optionalProper good initializer
  | .block body => stmtsProper body
  | .conditional condition thenBranch elseBranch =>
    condition.Proper good ∧ (thenBranch.Proper ∧ thenBranch.declared? = none) ∧
      branchProper elseBranch
  | .loop condition body => condition.Proper good ∧ body.Proper ∧ body.declared? = none
  | .function declaration => declaration.Proper
  | .ret _ value => optionalProper good value
  | .classDecl name superclass methods =>
    Named good name ∧ superclassProper good superclass ∧ methodsProper methods

def stmtsProper : List Stmt → Prop
  | [] => True
  | first :: rest => first.Proper ∧ stmtsProper rest

def branchProper : Option Stmt → Prop
  | none => True
  | some s => s.Proper ∧ s.declared? = none

def FunctionDecl.Proper : FunctionDecl → Prop
  | ⟨name, params, body⟩ => Named good name ∧ (∀ param ∈ params, Named good param) ∧ stmtsProper body

def methodsProper : List FunctionDecl → Prop
  | [] => True
  | first :: rest => first.Proper ∧ methodsProper rest

end

end Words

mutual

/-- Where the branches declare nothing, a statement declares one name at most. -/
theorem Stmt.declares_eq {good : Token → Prop} :
    (s : Stmt) → s.Proper good → s.declares = s.declared?.toList
  | .expression _, _ | .print _, _ | .block _, _ | .ret _ _, _ => rfl
  | .var _ _, _ | .function _, _ | .classDecl _ _ _, _ => rfl
  | .conditional _ thenBranch elseBranch, proper => by
    rw [Stmt.declares, thenBranch.declares_eq proper.2.1.1, proper.2.1.2,
      branchDeclares_eq elseBranch proper.2.2]
    rfl
  | .loop _ body, proper => by
    rw [Stmt.declares, body.declares_eq proper.2.1, proper.2.2]
    rfl

theorem branchDeclares_eq {good : Token → Prop} :
    (s : Option Stmt) → branchProper good s → branchDeclares s = []
  | none, _ => rfl
  | some s, proper => by
    rw [branchDeclares, s.declares_eq proper.1, proper.2]
    rfl

end

@[simp] theorem stmtUses_append (depth : Nat) (first second : List Stmt) :
    stmtUses depth (first ++ second) = stmtUses depth first ++ stmtUses depth second := by
  induction first with
  | nil => rfl
  | cons s rest ih => simp only [List.cons_append, stmtUses, ih, List.append_assoc]

@[simp] theorem stmtsProper_append (good : Token → Prop) (first second : List Stmt) :
    stmtsProper good (first ++ second) ↔ stmtsProper good first ∧ stmtsProper good second := by
  induction first with
  | nil => simp [stmtsProper]
  | cons s rest ih => simp [stmtsProper, ih, and_assoc]

/-! ### Members -/

section Members

variable {good : Token → Prop} {e : Expr} {es : List Expr} {s : Stmt} {body : List Stmt}
  {f : FunctionDecl} {methods : List FunctionDecl}

/-- What is asked of each member of a list in turn holds of every member. -/
theorem holds_of_mem {α : Type} {one : α → Prop} {all : List α → Prop}
    (cons : ∀ first rest, all (first :: rest) → one first ∧ all rest) {x : α} :
    {xs : List α} → all xs → x ∈ xs → one x
  | first :: rest, holds, member => by
    obtain ⟨here, onwards⟩ := cons first rest holds
    rcases List.mem_cons.mp member with rfl | later
    · exact here
    · exact holds_of_mem cons onwards later

/-- What is gathered from each member of a list in turn lies among what is gathered. -/
theorem sublist_of_mem {α β : Type} {one : α → List β} {all : List α → List β}
    (cons : ∀ first rest, all (first :: rest) = one first ++ all rest) {x : α} :
    {xs : List α} → x ∈ xs → (one x).Sublist (all xs)
  | first :: rest, member => by
    rw [cons]
    rcases List.mem_cons.mp member with rfl | later
    · exact List.sublist_append_left _ _
    · exact (sublist_of_mem cons later).trans (List.sublist_append_right _ _)

theorem exprsProper_mem (proper : exprsProper good es) (member : e ∈ es) : e.Proper good :=
  holds_of_mem (fun _ _ proper => proper) proper member

theorem stmtsProper_mem (proper : stmtsProper good body) (member : s ∈ body) : s.Proper good :=
  holds_of_mem (fun _ _ proper => proper) proper member

theorem methodsProper_mem (proper : methodsProper good methods) (member : f ∈ methods) :
    f.Proper good :=
  holds_of_mem (fun _ _ proper => proper) proper member

theorem exprUses_mem (depth : Nat) (member : e ∈ es) :
    (e.uses depth).Sublist (exprUses depth es) :=
  sublist_of_mem (fun _ _ => rfl) member

theorem stmtUses_mem (depth : Nat) (member : s ∈ body) :
    (s.uses depth).Sublist (stmtUses depth body) :=
  sublist_of_mem (fun _ _ => rfl) member

theorem methodUses_mem (depth : Nat) (member : f ∈ methods) :
    (f.uses depth).Sublist (methodUses depth methods) :=
  sublist_of_mem (fun _ _ => rfl) member

end Members

end Lox
