import Lox.Proofs.Walks

/-! Resolution as a judgement on trees. A tree is resolved in a stack of scopes if the distance on
record for each of its references is the one the scopes give, and if what is found there can be
read. -/

namespace Lox
namespace Resolution

/-- The distances on record, and the number of the next reference. -/
structure Records where
  distance? : Nat → Option Nat
  next : Nat

/-- What is on record for old references stays as it is. -/
structure Records.Extends (before after : Records) : Prop where
  next : before.next ≤ after.next
  distance : ∀ id < before.next, after.distance? id = before.distance? id

theorem Records.Extends.refl (records : Records) : records.Extends records :=
  ⟨Nat.le_refl _, fun _ _ => rfl⟩

theorem Records.Extends.trans {first middle last : Records} (earlier : first.Extends middle)
    (later : middle.Extends last) : first.Extends last := by
  refine ⟨Nat.le_trans earlier.next later.next, ?_⟩
  intro id below
  rw [later.distance id (Nat.lt_of_lt_of_le below earlier.next), earlier.distance id below]

/-- How many scopes out a name is bound. -/
def distanceIn (scopes : List (Bindings Bool)) (name : String) : Option Nat :=
  scopes.findIdx? (·.contains name)

def Ready (scopes : List (Bindings Bool)) (distance : Nat) (name : String) : Prop :=
  ∃ scope, scopes[distance]? = some scope ∧ scope.find? name = some true

/-- The name whose initializer is being looked at. -/
def Pending (scopes : List (Bindings Bool)) (name : String) : Prop :=
  ∃ scope, scopes[0]? = some scope ∧ scope.find? name = some false

/-- A name that can be declared here. In the global scope every name can. -/
def Undeclared (scopes : List (Bindings Bool)) (name : String) : Prop :=
  ∀ scope, scopes[0]? = some scope → scope.find? name = none

/-! ### Uses -/

structure Reads (records : Records) (scopes : List (Bindings Bool)) (reference : Reference) :
    Prop where
  numbered : reference.id < records.next
  recorded : records.distance? reference.id = distanceIn scopes reference.name.lexeme
  ready : ∀ distance, records.distance? reference.id = some distance →
    Ready scopes distance reference.name.lexeme

/-- An assignment may stand in the initializer of the variable it assigns to. -/
structure Writes (records : Records) (scopes : List (Bindings Bool)) (target : Reference) :
    Prop where
  numbered : target.id < records.next
  recorded : records.distance? target.id = distanceIn scopes target.name.lexeme
  ready : ∀ distance, records.distance? target.id = some distance →
    Ready scopes distance target.name.lexeme ∨
      distance = 0 ∧ Pending scopes target.name.lexeme

structure ReadsThis (records : Records) (scopes : List (Bindings Bool)) (reference : Reference) :
    Prop where
  numbered : reference.id < records.next
  word : reference.name.lexeme = thisName
  ready : ∃ distance, records.distance? reference.id = some distance ∧
    Ready scopes distance thisName
  nearest : records.distance? reference.id = distanceIn scopes thisName

/-- The receiver stands one scope inside the superclass. -/
structure ReadsSuper (records : Records) (scopes : List (Bindings Bool)) (reference : Reference) :
    Prop where
  numbered : reference.id < records.next
  word : reference.name.lexeme = superName
  ready : ∃ distance, records.distance? reference.id = some (distance + 1) ∧
    Ready scopes (distance + 1) superName ∧ Ready scopes distance thisName
  nearest : records.distance? reference.id = distanceIn scopes superName
  receiver : distanceIn scopes superName = (distanceIn scopes thisName).map (· + 1)

end Resolution

/-! ### Trees -/

open Resolution

section Trees

variable (records : Records)

mutual

def Expr.Resolved (scopes : List (Bindings Bool)) : Expr → Prop
  | .literal _ => True
  | .unary _ operand => operand.Resolved scopes
  | .binary left _ right => left.Resolved scopes ∧ right.Resolved scopes
  | .logical left _ right => left.Resolved scopes ∧ right.Resolved scopes
  | .grouping inner => inner.Resolved scopes
  | .variable reference => Reads records scopes reference
  | .assign target value => Writes records scopes target ∧ value.Resolved scopes
  | .call callee _ arguments => callee.Resolved scopes ∧ exprsResolved scopes arguments
  | .get object _ => object.Resolved scopes
  | .set object _ value => object.Resolved scopes ∧ value.Resolved scopes
  | .this reference => ReadsThis records scopes reference
  | .super reference _ => ReadsSuper records scopes reference

def exprsResolved (scopes : List (Bindings Bool)) : List Expr → Prop
  | [] => True
  | first :: rest => first.Resolved scopes ∧ exprsResolved scopes rest

end

def optionalResolved (scopes : List (Bindings Bool)) : Option Expr → Prop
  | none => True
  | some e => e.Resolved records scopes

def superclassResolved (scopes : List (Bindings Bool)) : Option Reference → Prop
  | none => True
  | some reference => Reads records scopes reference

mutual

def Stmt.Resolved (scopes : List (Bindings Bool)) : Stmt → Prop
  | .expression e => e.Resolved records scopes
  | .print e => e.Resolved records scopes
  | .var name initializer =>
    Undeclared scopes name.lexeme ∧
      optionalResolved records (marked scopes name.lexeme false) initializer
  | .block body => stmtsResolved (.empty :: scopes) body
  | .conditional condition thenBranch elseBranch =>
    condition.Resolved records scopes ∧
      (thenBranch.Resolved scopes ∧ thenBranch.declared? = none) ∧
      branchResolved scopes elseBranch
  | .loop condition body =>
    condition.Resolved records scopes ∧ body.Resolved scopes ∧ body.declared? = none
  | .function declaration =>
    Undeclared scopes declaration.name.lexeme ∧
      declaration.Resolved (marked scopes declaration.name.lexeme true)
  | .ret _ value => optionalResolved records scopes value
  | .classDecl name superclass methods =>
    Undeclared scopes name.lexeme ∧ superclassResolved records scopes superclass ∧
      methodsResolved (classScopes superclass ++ marked scopes name.lexeme true) methods

def stmtsResolved (scopes : List (Bindings Bool)) : List Stmt → Prop
  | [] => True
  | first :: rest => first.Resolved scopes ∧ stmtsResolved (after first scopes) rest

def branchResolved (scopes : List (Bindings Bool)) : Option Stmt → Prop
  | none => True
  | some s => s.Resolved scopes ∧ s.declared? = none

def FunctionDecl.Resolved (scopes : List (Bindings Bool)) : FunctionDecl → Prop
  | ⟨_, params, body⟩ =>
    (params.map Token.lexeme).Nodup ∧ stmtsResolved (paramScope params :: scopes) body

def methodsResolved (scopes : List (Bindings Bool)) : List FunctionDecl → Prop
  | [] => True
  | first :: rest => first.Resolved scopes ∧ methodsResolved scopes rest

end

end Trees

/-! ### Later records -/

section Later

variable {before after : Records} {scopes : List (Bindings Bool)} {reference : Reference}

theorem Resolution.Reads.later (reads : Reads before scopes reference)
    (grown : before.Extends after) : Reads after scopes reference := by
  have same := grown.distance _ reads.numbered
  refine ⟨Nat.lt_of_lt_of_le reads.numbered grown.next, same.trans reads.recorded, ?_⟩
  rw [same]
  exact reads.ready

theorem Resolution.Writes.later (writes : Writes before scopes reference)
    (grown : before.Extends after) : Writes after scopes reference := by
  have same := grown.distance _ writes.numbered
  refine ⟨Nat.lt_of_lt_of_le writes.numbered grown.next, same.trans writes.recorded, ?_⟩
  rw [same]
  exact writes.ready

theorem Resolution.ReadsThis.later (reads : ReadsThis before scopes reference)
    (grown : before.Extends after) : ReadsThis after scopes reference := by
  have same := grown.distance _ reads.numbered
  refine ⟨Nat.lt_of_lt_of_le reads.numbered grown.next, reads.word, ?_,
    same.trans reads.nearest⟩
  rw [same]
  exact reads.ready

theorem Resolution.ReadsSuper.later (reads : ReadsSuper before scopes reference)
    (grown : before.Extends after) : ReadsSuper after scopes reference := by
  have same := grown.distance _ reads.numbered
  refine ⟨Nat.lt_of_lt_of_le reads.numbered grown.next, reads.word, ?_,
    same.trans reads.nearest, reads.receiver⟩
  rw [same]
  exact reads.ready

mutual

theorem Expr.Resolved.later (grown : before.Extends after) :
    (e : Expr) → e.Resolved before scopes → e.Resolved after scopes
  | .literal _, _ => trivial
  | .unary _ operand, resolved => Expr.Resolved.later grown operand resolved
  | .binary left _ right, resolved | .logical left _ right, resolved =>
    ⟨Expr.Resolved.later grown left resolved.1, Expr.Resolved.later grown right resolved.2⟩
  | .grouping inner, resolved => Expr.Resolved.later grown inner resolved
  | .variable _, resolved => Reads.later resolved grown
  | .assign _ value, resolved => ⟨resolved.1.later grown, Expr.Resolved.later grown value resolved.2⟩
  | .call callee _ arguments, resolved =>
    ⟨Expr.Resolved.later grown callee resolved.1, exprsResolved_later grown arguments resolved.2⟩
  | .get object _, resolved => Expr.Resolved.later grown object resolved
  | .set object _ value, resolved =>
    ⟨Expr.Resolved.later grown object resolved.1, Expr.Resolved.later grown value resolved.2⟩
  | .this _, resolved => ReadsThis.later resolved grown
  | .super _ _, resolved => ReadsSuper.later resolved grown

theorem exprsResolved_later (grown : before.Extends after) :
    (es : List Expr) → exprsResolved before scopes es → exprsResolved after scopes es
  | [], _ => trivial
  | first :: rest, resolved =>
    ⟨Expr.Resolved.later grown first resolved.1, exprsResolved_later grown rest resolved.2⟩

end

theorem optionalResolved_later (grown : before.Extends after) :
    (e : Option Expr) → optionalResolved before scopes e → optionalResolved after scopes e
  | none, _ => trivial
  | some e, resolved => Expr.Resolved.later grown e resolved

theorem superclassResolved_later (grown : before.Extends after) :
    (reference : Option Reference) → superclassResolved before scopes reference →
      superclassResolved after scopes reference
  | none, _ => trivial
  | some _, resolved => Reads.later resolved grown

mutual

theorem Stmt.Resolved.later (grown : before.Extends after) {scopes : List (Bindings Bool)} :
    (s : Stmt) → s.Resolved before scopes → s.Resolved after scopes
  | .expression e, resolved | .print e, resolved => Expr.Resolved.later grown e resolved
  | .var _ initializer, resolved =>
    ⟨resolved.1, optionalResolved_later grown initializer resolved.2⟩
  | .block body, resolved => stmtsResolved_later grown body resolved
  | .conditional condition thenBranch elseBranch, resolved =>
    ⟨Expr.Resolved.later grown condition resolved.1,
      ⟨Stmt.Resolved.later grown thenBranch resolved.2.1.1, resolved.2.1.2⟩,
      branchResolved_later grown elseBranch resolved.2.2⟩
  | .loop condition body, resolved =>
    ⟨Expr.Resolved.later grown condition resolved.1, Stmt.Resolved.later grown body resolved.2.1,
      resolved.2.2⟩
  | .function declaration, resolved =>
    ⟨resolved.1, FunctionDecl.Resolved.later grown declaration resolved.2⟩
  | .ret _ value, resolved => optionalResolved_later grown value resolved
  | .classDecl _ superclass methods, resolved =>
    ⟨resolved.1, superclassResolved_later grown superclass resolved.2.1,
      methodsResolved_later grown methods resolved.2.2⟩

theorem stmtsResolved_later (grown : before.Extends after) {scopes : List (Bindings Bool)} :
    (body : List Stmt) → stmtsResolved before scopes body → stmtsResolved after scopes body
  | [], _ => trivial
  | first :: rest, resolved =>
    ⟨Stmt.Resolved.later grown first resolved.1, stmtsResolved_later grown rest resolved.2⟩

theorem branchResolved_later (grown : before.Extends after) {scopes : List (Bindings Bool)} :
    (s : Option Stmt) → branchResolved before scopes s → branchResolved after scopes s
  | none, _ => trivial
  | some s, resolved => ⟨Stmt.Resolved.later grown s resolved.1, resolved.2⟩

theorem FunctionDecl.Resolved.later (grown : before.Extends after)
    {scopes : List (Bindings Bool)} :
    (f : FunctionDecl) → f.Resolved before scopes → f.Resolved after scopes
  | ⟨_, _, body⟩, resolved => ⟨resolved.1, stmtsResolved_later grown body resolved.2⟩

theorem methodsResolved_later (grown : before.Extends after) {scopes : List (Bindings Bool)} :
    (fs : List FunctionDecl) → methodsResolved before scopes fs → methodsResolved after scopes fs
  | [], _ => trivial
  | first :: rest, resolved =>
    ⟨FunctionDecl.Resolved.later grown first resolved.1,
      methodsResolved_later grown rest resolved.2⟩

end

end Later

/-! ### Inside of resolved trees -/

section Inside

variable {records : Records}

mutual

theorem Expr.Resolved.numbered {scopes : List (Bindings Bool)} (depth : Nat) : (e : Expr) →
    e.Resolved records scopes → ∀ use ∈ e.uses depth, use.id < records.next
  | .literal _, _ => by simp [Expr.uses]
  | .unary _ operand, resolved => Expr.Resolved.numbered depth operand resolved
  | .binary left _ right, resolved | .logical left _ right, resolved => by
    intro use member
    rcases List.mem_append.mp member with first | second
    · exact Expr.Resolved.numbered depth left resolved.1 use first
    · exact Expr.Resolved.numbered depth right resolved.2 use second
  | .grouping inner, resolved => Expr.Resolved.numbered depth inner resolved
  | .variable reference, resolved => by
    intro use member
    rw [List.mem_singleton.mp member]
    exact Reads.numbered resolved
  | .assign target value, resolved => by
    intro use member
    rcases List.mem_append.mp member with inner | here
    · exact Expr.Resolved.numbered depth value resolved.2 use inner
    · rw [List.mem_singleton.mp here]
      exact resolved.1.numbered
  | .call callee _ arguments, resolved => by
    intro use member
    rcases List.mem_append.mp member with first | second
    · exact Expr.Resolved.numbered depth callee resolved.1 use first
    · exact exprsResolved_numbered depth arguments resolved.2 use second
  | .get object _, resolved => Expr.Resolved.numbered depth object resolved
  | .set object _ value, resolved => by
    intro use member
    rcases List.mem_append.mp member with first | second
    · exact Expr.Resolved.numbered depth object resolved.1 use first
    · exact Expr.Resolved.numbered depth value resolved.2 use second
  | .this reference, resolved => by
    intro use member
    rw [List.mem_singleton.mp member]
    exact ReadsThis.numbered resolved
  | .super reference _, resolved => by
    intro use member
    rw [List.mem_singleton.mp member]
    exact ReadsSuper.numbered resolved

theorem exprsResolved_numbered {scopes : List (Bindings Bool)} (depth : Nat) : (es : List Expr) →
    exprsResolved records scopes es → ∀ use ∈ exprUses depth es, use.id < records.next
  | [], _ => by simp [exprUses]
  | first :: rest, resolved => by
    intro use member
    rcases List.mem_append.mp member with here | later
    · exact Expr.Resolved.numbered depth first resolved.1 use here
    · exact exprsResolved_numbered depth rest resolved.2 use later

end

theorem optionalResolved_numbered {scopes : List (Bindings Bool)} (depth : Nat) :
    (e : Option Expr) → optionalResolved records scopes e →
      ∀ use ∈ optionalUses depth e, use.id < records.next
  | none, _ => by simp [optionalUses]
  | some e, resolved => Expr.Resolved.numbered depth e resolved

theorem superclassResolved_numbered {scopes : List (Bindings Bool)} (depth : Nat) :
    (superclass : Option Reference) → superclassResolved records scopes superclass →
      ∀ use ∈ superclassUses depth superclass, use.id < records.next
  | none, _ => by simp [superclassUses]
  | some reference, resolved => by
    intro use member
    rw [List.mem_singleton.mp member]
    exact Reads.numbered resolved

mutual

theorem Stmt.Resolved.numbered {scopes : List (Bindings Bool)} (depth : Nat) : (s : Stmt) →
    s.Resolved records scopes → ∀ use ∈ s.uses depth, use.id < records.next
  | .expression e, resolved | .print e, resolved => Expr.Resolved.numbered depth e resolved
  | .var _ initializer, resolved => optionalResolved_numbered depth initializer resolved.2
  | .block body, resolved => stmtsResolved_numbered (depth + 1) body resolved
  | .conditional condition thenBranch elseBranch, resolved => by
    obtain ⟨test, chosen, otherwise⟩ := resolved
    intro use member
    rcases List.mem_append.mp member with member | last
    · rcases List.mem_append.mp member with first | second
      · exact Expr.Resolved.numbered depth condition test use first
      · exact Stmt.Resolved.numbered depth thenBranch chosen.1 use second
    · exact branchResolved_numbered depth elseBranch otherwise use last
  | .loop condition body, resolved => by
    intro use member
    rcases List.mem_append.mp member with first | second
    · exact Expr.Resolved.numbered depth condition resolved.1 use first
    · exact Stmt.Resolved.numbered depth body resolved.2.1 use second
  | .function declaration, resolved =>
    FunctionDecl.Resolved.numbered depth declaration resolved.2
  | .ret _ value, resolved => optionalResolved_numbered depth value resolved
  | .classDecl _ superclass methods, resolved => by
    intro use member
    rcases List.mem_append.mp member with first | second
    · exact superclassResolved_numbered depth superclass resolved.2.1 use first
    · exact methodsResolved_numbered _ methods resolved.2.2 use second

theorem stmtsResolved_numbered {scopes : List (Bindings Bool)} (depth : Nat) :
    (body : List Stmt) → stmtsResolved records scopes body →
      ∀ use ∈ stmtUses depth body, use.id < records.next
  | [], _ => by simp [stmtUses]
  | first :: rest, resolved => by
    intro use member
    rcases List.mem_append.mp member with here | later
    · exact Stmt.Resolved.numbered depth first resolved.1 use here
    · exact stmtsResolved_numbered depth rest resolved.2 use later

theorem branchResolved_numbered {scopes : List (Bindings Bool)} (depth : Nat) :
    (s : Option Stmt) → branchResolved records scopes s →
      ∀ use ∈ branchUses depth s, use.id < records.next
  | none, _ => by simp [branchUses]
  | some s, resolved => Stmt.Resolved.numbered depth s resolved.1

theorem FunctionDecl.Resolved.numbered {scopes : List (Bindings Bool)} (depth : Nat) :
    (f : FunctionDecl) → f.Resolved records scopes →
      ∀ use ∈ f.uses depth, use.id < records.next
  | ⟨_, _, body⟩, resolved => stmtsResolved_numbered (depth + 1) body resolved.2

theorem methodsResolved_numbered {scopes : List (Bindings Bool)} (depth : Nat) :
    (fs : List FunctionDecl) → methodsResolved records scopes fs →
      ∀ use ∈ methodUses depth fs, use.id < records.next
  | [], _ => by simp [methodUses]
  | first :: rest, resolved => by
    intro use member
    rcases List.mem_append.mp member with here | later
    · exact FunctionDecl.Resolved.numbered depth first resolved.1 use here
    · exact methodsResolved_numbered depth rest resolved.2 use later

end

/-- A body in a resolved tree: its parameters are distinct, and its statements are resolved. -/
def Body.Resolved (records : Records) (body : Body) : Prop :=
  (body.params.map Token.lexeme).Nodup ∧
    ∃ scopes, stmtsResolved records (paramScope body.params :: scopes) body.statements

mutual

theorem Stmt.Resolved.bodies {scopes : List (Bindings Bool)} : (s : Stmt) →
    s.Resolved records scopes → ∀ body ∈ s.bodies, body.Resolved records
  | .expression _, _ | .print _, _ | .var _ _, _ | .ret _ _, _ => by simp [Stmt.bodies]
  | .block statements, resolved => by
    intro body member
    rcases List.mem_cons.mp member with here | inner
    · exact here ▸ ⟨List.nodup_nil, scopes, resolved⟩
    · exact stmtsResolved_bodies statements resolved body inner
  | .conditional _ thenBranch elseBranch, resolved => by
    intro body member
    rcases List.mem_append.mp member with first | second
    · exact Stmt.Resolved.bodies thenBranch resolved.2.1.1 body first
    · exact branchResolved_bodies elseBranch resolved.2.2 body second
  | .loop _ inner, resolved => Stmt.Resolved.bodies inner resolved.2.1
  | .function declaration, resolved => FunctionDecl.Resolved.bodies declaration resolved.2
  | .classDecl _ _ methods, resolved => methodsResolved_bodies methods resolved.2.2

theorem stmtsResolved_bodies {scopes : List (Bindings Bool)} : (statements : List Stmt) →
    stmtsResolved records scopes statements →
      ∀ body ∈ stmtBodies statements, body.Resolved records
  | [], _ => by simp [stmtBodies]
  | first :: rest, resolved => by
    intro body member
    rcases List.mem_append.mp member with here | later
    · exact Stmt.Resolved.bodies first resolved.1 body here
    · exact stmtsResolved_bodies rest resolved.2 body later

theorem branchResolved_bodies {scopes : List (Bindings Bool)} : (s : Option Stmt) →
    branchResolved records scopes s → ∀ body ∈ branchBodies s, body.Resolved records
  | none, _ => by simp [branchBodies]
  | some s, resolved => Stmt.Resolved.bodies s resolved.1

theorem FunctionDecl.Resolved.bodies {scopes : List (Bindings Bool)} : (f : FunctionDecl) →
    f.Resolved records scopes → ∀ body ∈ f.bodies, body.Resolved records
  | ⟨_, _, statements⟩, resolved => by
    intro body member
    rcases List.mem_cons.mp member with here | inner
    · exact here ▸ ⟨resolved.1, scopes, resolved.2⟩
    · exact stmtsResolved_bodies statements resolved.2 body inner

theorem methodsResolved_bodies {scopes : List (Bindings Bool)} : (fs : List FunctionDecl) →
    methodsResolved records scopes fs → ∀ body ∈ methodBodies fs, body.Resolved records
  | [], _ => by simp [methodBodies]
  | first :: rest, resolved => by
    intro body member
    rcases List.mem_append.mp member with here | later
    · exact FunctionDecl.Resolved.bodies first resolved.1 body here
    · exact methodsResolved_bodies rest resolved.2 body later

end

end Inside
end Lox
