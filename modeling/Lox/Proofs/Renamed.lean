import Mathlib
import Lox.Proofs.Accounts
import Lox.Proofs.Refused
import Lox.Proofs.Rewalks

/-! A local can be given a name that occurs nowhere else: the program is still accepted, every
reference keeps its distance, and nothing else that is executed can tell. -/

namespace Lox

open Machine Resolution Likeness

/-! ### Renaming -/

section Renaming

variable (x y : String) (table : Nat → Option Nat)

def Token.renamed (name : Token) : Token :=
  if name.lexeme = x then { name with lexeme := y } else name

/-- Only references to the scope that stands so many scopes out are renamed. -/
def Reference.renamed (depth : Nat) (reference : Reference) : Reference :=
  if table reference.id = some depth then { reference with name := reference.name.renamed x y }
  else reference

mutual

def Expr.renamed (depth : Nat) : Expr → Expr
  | .literal literal => .literal literal
  | .unary operator operand => .unary operator (operand.renamed depth)
  | .binary left operator right => .binary (left.renamed depth) operator (right.renamed depth)
  | .logical left operator right => .logical (left.renamed depth) operator (right.renamed depth)
  | .grouping inner => .grouping (inner.renamed depth)
  | .variable reference => .variable (reference.renamed x y table depth)
  | .assign target value => .assign (target.renamed x y table depth) (value.renamed depth)
  | .call callee paren arguments => .call (callee.renamed depth) paren (exprsRenamed depth arguments)
  | .get object name => .get (object.renamed depth) name
  | .set object name value => .set (object.renamed depth) name (value.renamed depth)
  | .this reference => .this reference
  | .super reference method => .super reference method

def exprsRenamed (depth : Nat) : List Expr → List Expr
  | [] => []
  | first :: rest => first.renamed depth :: exprsRenamed depth rest

end

mutual

/-- In the scope itself, at depth zero, the variables it declares are renamed too. -/
def Stmt.renamed (depth : Nat) : Stmt → Stmt
  | .expression e => .expression (e.renamed x y table depth)
  | .print e => .print (e.renamed x y table depth)
  | .var name initializer =>
    .var (if depth = 0 then name.renamed x y else name)
      (initializer.map (Expr.renamed x y table depth))
  | .block body => .block (stmtsRenamed (depth + 1) body)
  | .conditional condition thenBranch elseBranch =>
    .conditional (condition.renamed x y table depth) (thenBranch.renamed depth)
      (branchRenamed depth elseBranch)
  | .loop condition body => .loop (condition.renamed x y table depth) (body.renamed depth)
  | .function declaration => .function (declaration.renamed (depth + 1))
  | .ret keyword value => .ret keyword (value.map (Expr.renamed x y table depth))
  | .classDecl name superclass methods =>
    .classDecl name (superclass.map (Reference.renamed x y table depth))
      (methodsRenamed (depth + classDepth superclass + 1) methods)

def stmtsRenamed (depth : Nat) : List Stmt → List Stmt
  | [] => []
  | first :: rest => first.renamed depth :: stmtsRenamed depth rest

def branchRenamed (depth : Nat) : Option Stmt → Option Stmt
  | none => none
  | some s => some (s.renamed depth)

/-- `depth` is that of the function's own scope, further in than the one where the name is bound. -/
def FunctionDecl.renamed (depth : Nat) : FunctionDecl → FunctionDecl
  | ⟨name, params, body⟩ => ⟨name, params, stmtsRenamed depth body⟩

def methodsRenamed (depth : Nat) : List FunctionDecl → List FunctionDecl
  | [] => []
  | first :: rest => first.renamed depth :: methodsRenamed depth rest

end

/-- A variable of this name is declared by one of the statements. -/
def DeclaresVar (body : List Stmt) : Prop :=
  ∃ name initializer, .var name initializer ∈ body ∧ name.lexeme = x

mutual

/-- The local `x` of one scope somewhere inside is renamed, in its declaration and wherever it is
referred to. -/
inductive StmtRenaming : Stmt → Stmt → Prop
  | block {body : List Stmt} : DeclaresVar x body →
      StmtRenaming (.block body) (.block (stmtsRenamed x y table 0 body))
  | inBlock {body body' : List Stmt} : StmtsRenaming body body' →
      StmtRenaming (.block body) (.block body')
  | inThen {condition : Expr} {thenBranch thenBranch' : Stmt} {elseBranch : Option Stmt} :
      StmtRenaming thenBranch thenBranch' →
      StmtRenaming (.conditional condition thenBranch elseBranch)
        (.conditional condition thenBranch' elseBranch)
  | inElse {condition : Expr} {thenBranch elseBranch elseBranch' : Stmt} :
      StmtRenaming elseBranch elseBranch' →
      StmtRenaming (.conditional condition thenBranch (some elseBranch))
        (.conditional condition thenBranch (some elseBranch'))
  | inLoop {condition : Expr} {body body' : Stmt} : StmtRenaming body body' →
      StmtRenaming (.loop condition body) (.loop condition body')
  | inFunction {declaration declaration' : FunctionDecl} :
      FunctionRenaming declaration declaration' →
      StmtRenaming (.function declaration) (.function declaration')
  | inClass {name : Token} {superclass : Option Reference} {methods methods' : List FunctionDecl} :
      FunctionsRenaming methods methods' →
      StmtRenaming (.classDecl name superclass methods) (.classDecl name superclass methods')

inductive StmtsRenaming : List Stmt → List Stmt → Prop
  | here {first first' : Stmt} {rest : List Stmt} : StmtRenaming first first' →
      StmtsRenaming (first :: rest) (first' :: rest)
  | later {first : Stmt} {rest rest' : List Stmt} : StmtsRenaming rest rest' →
      StmtsRenaming (first :: rest) (first :: rest')

inductive FunctionRenaming : FunctionDecl → FunctionDecl → Prop
  | scope {name : Token} {params : List Token} {body : List Stmt} :
      x ∈ params.map Token.lexeme ∨ DeclaresVar x body →
      FunctionRenaming ⟨name, params, body⟩
        ⟨name, params.map (Token.renamed x y), stmtsRenamed x y table 0 body⟩
  | inBody {name : Token} {params : List Token} {body body' : List Stmt} :
      StmtsRenaming body body' → FunctionRenaming ⟨name, params, body⟩ ⟨name, params, body'⟩

inductive FunctionsRenaming : List FunctionDecl → List FunctionDecl → Prop
  | here {first first' : FunctionDecl} {rest : List FunctionDecl} :
      FunctionRenaming first first' → FunctionsRenaming (first :: rest) (first' :: rest)
  | later {first : FunctionDecl} {rest rest' : List FunctionDecl} :
      FunctionsRenaming rest rest' → FunctionsRenaming (first :: rest) (first :: rest')

end

end Renaming

/-! ### Renamed programs are alike -/

/-- Two names that are not those of the receiver or the superclass. -/
structure Swappable (x y : String) : Prop where
  this : thisName ≠ x ∧ thisName ≠ y
  super : superName ≠ x ∧ superName ≠ y

/-- In marked scopes two names are swapped. -/
def swapping {x y : String} (table : Nat → Option Nat) (swappable : Swappable x y) : Likeness where
  table := table
  line := Eq
  number := id
  swap := Equiv.swap x y
  line_refl _ := rfl
  swap_swap := Equiv.swap_apply_self x y
  swap_this := Equiv.swap_apply_of_ne_of_ne swappable.this.1 swappable.this.2
  swap_super := Equiv.swap_apply_of_ne_of_ne swappable.super.1 swappable.super.2

theorem swapping_fixes {x y : String} {table : Nat → Option Nat} {swappable : Swappable x y}
    (uses : List Use) : (swapping table swappable).Fixes uses := fun _ _ => rfl

/-- The scope that stands so many scopes out is marked, and no other. -/
def OnlyAt (depth : Nat) (marks : List Bool) : Prop :=
  ∀ distance, marks[distance]?.getD false = true ↔ distance = depth

section Alike

variable {x y : String} {table : Nat → Option Nat} {swappable : Swappable x y} {marks : List Bool}
  {depth : Nat} {good : Token → Prop}

theorem OnlyAt.here (plain : Plain marks) : OnlyAt 0 (true :: marks) := by
  intro distance
  cases distance with
  | zero => simp
  | succ distance =>
    cases found : marks[distance]? with
    | none => simp [found]
    | some mark => simp [found, plain mark (List.mem_of_getElem? found)]

theorem OnlyAt.enter (only : OnlyAt depth marks) : OnlyAt (depth + 1) (false :: marks) := by
  intro distance
  cases distance with
  | zero => simp
  | succ distance => simpa using only distance

theorem OnlyAt.enterClass (only : OnlyAt depth marks) (superclass : Option Reference) :
    OnlyAt (depth + classDepth superclass) (classMarks superclass ++ marks) := by
  cases superclass with
  | none => exact only.enter
  | some _ => exact only.enter.enter

theorem OnlyAt.markOf (only : OnlyAt depth marks) (id : Nat) :
    (swapping table swappable).markOf marks id = true ↔ table id = some depth := by
  unfold Likeness.markOf
  change ((table id).bind (marks[·]?)).getD false = true ↔ _
  cases table id with
  | none => simp
  | some distance => simpa using only distance

theorem OnlyAt.innermost (only : OnlyAt depth marks) : innermost marks = decide (depth = 0) := by
  have first : (marks[0]?.getD false = true) = (depth = 0) :=
    propext ((only 0).trans eq_comm)
  simp only [← first, Bool.decide_eq_true]
  cases marks <;> rfl

/-! ### Words -/

variable (y) in
/-- A token of a text in which a name does not occur. -/
def Without (token : Token) : Prop := token.Genuine ∧ token.lexeme ≠ y

variable {name : Token} {reference : Reference}

theorem identifier_ne {name : String} (identifier : Keyword.ofText? name = none) (word : Keyword) :
    word.text ≠ name := by
  intro same
  rw [← same] at identifier
  cases word <;> exact absurd identifier (by decide)

theorem Named.identifier (named : Named (Without y) name) : Keyword.ofText? name.lexeme = none := by
  obtain ⟨kind, genuine, _⟩ := named
  unfold Token.Genuine at genuine
  rw [kind] at genuine
  exact genuine

theorem Worded.lexeme {word : Keyword} (worded : Worded (Without y) word name) :
    name.lexeme = word.text := by
  obtain ⟨kind, genuine, _⟩ := worded
  unfold Token.Genuine at genuine
  rw [kind] at genuine
  exact genuine

variable (swappable table) in
theorem names_renamed (fresh : name.lexeme ≠ y) :
    (swapping table swappable).Names true name (name.renamed x y) := by
  unfold Token.renamed
  refine ⟨by split <;> rfl, ?_, by split <;> rfl⟩
  change _ = Equiv.swap x y name.lexeme
  split
  · rename_i same
    rw [same, Equiv.swap_apply_left]
  · rename_i other
    rw [Equiv.swap_apply_of_ne_of_ne other fresh]

variable (swappable table) in
theorem names_kept (mark : Bool) (other : mark = true → name.lexeme ≠ x) (fresh : name.lexeme ≠ y) :
    (swapping table swappable).Names mark name name := by
  cases mark with
  | false => exact .refl name
  | true => exact ⟨rfl, (Equiv.swap_apply_of_ne_of_ne (other rfl) fresh).symm, rfl⟩

theorem refers_renamed (only : OnlyAt depth marks) (fresh : reference.name.lexeme ≠ y) :
    (swapping table swappable).Refers marks reference (reference.renamed x y table depth) := by
  unfold Reference.renamed
  split
  · rename_i there
    refine ⟨rfl, ?_⟩
    rw [(only.markOf reference.id).mpr there]
    exact names_renamed table swappable fresh
  · rename_i elsewhere
    have unmarked : (swapping table swappable).markOf marks reference.id = false := by
      rw [← Bool.not_eq_true, only.markOf]
      exact elsewhere
    refine ⟨rfl, ?_⟩
    rw [unmarked]
    exact .refl _

theorem refers_word {text : String} (kept : (swapping table swappable).swap text = text)
    (word : reference.name.lexeme = text) :
    (swapping table swappable).Refers marks reference reference := by
  refine ⟨rfl, rfl, ?_, rfl⟩
  unfold Likeness.named
  split
  · rw [word, kept]
  · rfl

/-! ### Trees -/

mutual

theorem Expr.like_renamed (only : OnlyAt depth marks) : (e : Expr) → e.Proper (Without y) →
    (swapping table swappable).LikeExpr marks e (e.renamed x y table depth)
  | .literal literal, _ => .literal literal
  | .unary operator operand, proper => .unary (.refl operator) (operand.like_renamed only proper)
  | .binary left operator right, proper =>
    .binary (left.like_renamed only proper.1) (.refl operator) (right.like_renamed only proper.2)
  | .logical left operator right, proper =>
    .logical (left.like_renamed only proper.1) (.refl operator) (right.like_renamed only proper.2)
  | .grouping inner, proper => .grouping (inner.like_renamed only proper)
  | .variable _, proper => .name (refers_renamed only proper.2.2)
  | .assign _ value, proper =>
    .assign (refers_renamed only proper.1.2.2) (value.like_renamed only proper.2)
  | .call callee paren arguments, proper =>
    .call (callee.like_renamed only proper.1) (.refl paren)
      (exprs_like_renamed only arguments proper.2)
  | .get object name, proper => .get (object.like_renamed only proper) (.refl name)
  | .set object name value, proper =>
    .set (object.like_renamed only proper.1) (.refl name) (value.like_renamed only proper.2)
  | .this _, proper => .this (refers_word (swapping table swappable).swap_this proper.lexeme)
  | .super _ method, proper =>
    .super (refers_word (swapping table swappable).swap_super proper.lexeme) (.refl method)

theorem exprs_like_renamed (only : OnlyAt depth marks) : (es : List Expr) →
    exprsProper (Without y) es →
    (swapping table swappable).LikeExprs marks es (exprsRenamed x y table depth es)
  | [], _ => .nil
  | first :: rest, proper =>
    .cons (first.like_renamed only proper.1) (exprs_like_renamed only rest proper.2)

end

theorem optional_like_renamed (only : OnlyAt depth marks) (e : Option Expr)
    (proper : optionalProper (Without y) e) :
    (swapping table swappable).LikeOptional marks e (e.map (Expr.renamed x y table depth)) := by
  cases e with
  | none => exact .none
  | some e => exact .some (e.like_renamed only proper)

theorem superclass_like_renamed (only : OnlyAt depth marks) (superclass : Option Reference)
    (proper : superclassProper (Without y) superclass) :
    (swapping table swappable).LikeSuperclass marks superclass
      (superclass.map (Reference.renamed x y table depth)) := by
  cases superclass with
  | none => exact .none
  | some reference => exact .some (refers_renamed only proper.2.2)

variable (x depth) in
/-- If this stands in the renamed scope itself, it is a variable that has the old name there. -/
def OnlyVar (s : Stmt) : Prop :=
  depth = 0 → ∀ name, s.declared? = some name → name.lexeme = x →
    ∃ initializer, s = .var name initializer

theorem OnlyVar.keeps {s : Stmt} (var : OnlyVar x depth s) (only : OnlyAt depth marks)
    (declared : s.declared? = some name) (other : ∀ name initializer, s ≠ .var name initializer)
    (fresh : name.lexeme ≠ y) :
    (swapping table swappable).Names (innermost marks) name name := by
  refine names_kept table swappable _ ?_ fresh
  intro marked same
  rw [only.innermost, decide_eq_true_eq] at marked
  obtain ⟨initializer, shape⟩ := var marked name declared same
  exact other _ _ shape

mutual

theorem Stmt.like_renamed {depth : Nat} {marks : List Bool} (only : OnlyAt depth marks) :
    (s : Stmt) → s.Proper (Without y) → OnlyVar x depth s →
      (swapping table swappable).LikeStmt marks s (s.renamed x y table depth)
  | .expression e, proper, _ => .expression (e.like_renamed only proper)
  | .print e, proper, _ => .print (e.like_renamed only proper)
  | .var name initializer, proper, _ => by
    refine .var ?_ (optional_like_renamed only initializer proper.2)
    rw [only.innermost]
    by_cases inside : depth = 0
    · rw [if_pos inside, decide_eq_true inside]
      exact names_renamed table swappable proper.1.2.2
    · rw [if_neg inside, decide_eq_false inside]
      exact .refl name
  | .block body, proper, _ =>
    .block false (stmts_like_renamed only.enter body proper fun _ _ => nofun)
  | .conditional condition thenBranch elseBranch, proper, _ =>
    .conditional (condition.like_renamed only proper.1)
      (thenBranch.like_renamed only proper.2.1.1 fun _ name => by simp [proper.2.1.2])
      (branch_like_renamed only elseBranch proper.2.2)
  | .loop condition body, proper, _ =>
    .loop (condition.like_renamed only proper.1)
      (body.like_renamed only proper.2.1 fun _ name => by simp [proper.2.2])
  | .function declaration, proper, var => by
    refine .function ?_ (declaration.like_renamed only proper)
    obtain ⟨name, params, body⟩ := declaration
    exact OnlyVar.keeps var only rfl (fun _ _ => nofun) proper.1.2.2
  | .ret keyword value, proper, _ => .ret (.refl keyword) (optional_like_renamed only value proper)
  | .classDecl name superclass methods, proper, var =>
    .classDecl (.refl name) (OnlyVar.keeps var only rfl (fun _ _ => nofun) proper.1.2.2)
      (superclass_like_renamed only superclass proper.2.1)
      (methods_like_renamed (only.enterClass superclass) methods proper.2.2)

theorem stmts_like_renamed {depth : Nat} {marks : List Bool} (only : OnlyAt depth marks) :
    (body : List Stmt) → stmtsProper (Without y) body → (∀ s ∈ body, OnlyVar x depth s) →
      (swapping table swappable).LikeStmts marks body (stmtsRenamed x y table depth body)
  | [], _, _ => .nil
  | first :: rest, proper, var =>
    .cons (first.like_renamed only proper.1 (var first List.mem_cons_self))
      (stmts_like_renamed only rest proper.2 fun s member => var s (List.mem_cons_of_mem _ member))

theorem branch_like_renamed {depth : Nat} {marks : List Bool} (only : OnlyAt depth marks) :
    (s : Option Stmt) → branchProper (Without y) s →
      (swapping table swappable).LikeBranch marks s (branchRenamed x y table depth s)
  | none, _ => .none
  | some s, proper => .some (s.like_renamed only proper.1 fun _ name => by simp [proper.2])

theorem FunctionDecl.like_renamed {depth : Nat} {marks : List Bool} (only : OnlyAt depth marks) :
    (f : FunctionDecl) → f.Proper (Without y) →
      (swapping table swappable).LikeFunction marks f (f.renamed x y table (depth + 1))
  | ⟨name, _, body⟩, proper =>
    .mk false (.refl name) (List.forall₂_same.mpr fun param _ => .refl param)
      (stmts_like_renamed only.enter body proper.2.2 fun _ _ => nofun)

theorem methods_like_renamed {depth : Nat} {marks : List Bool} (only : OnlyAt depth marks) :
    (fs : List FunctionDecl) → methodsProper (Without y) fs →
      (swapping table swappable).LikeFunctions marks fs (methodsRenamed x y table (depth + 1) fs)
  | [], _ => .nil
  | first :: rest, proper =>
    .cons (first.like_renamed only proper.1) (methods_like_renamed only rest proper.2)

end

/-! ### Where a local is renamed -/

variable {records : Records} {scope : Bindings Bool} {scopes : List (Bindings Bool)}

theorem undeclared_of_resolved {scopes : List (Bindings Bool)} {s : Stmt}
    (resolved : s.Resolved records scopes) (declared : s.declared? = some name) :
    Undeclared scopes name.lexeme := by
  cases s with
  | var | function | classDecl =>
    cases declared
    exact resolved.1
  | expression | print | block | conditional | loop | ret => cases declared

theorem after_inside (s : Stmt) (scope : Bindings Bool) (scopes : List (Bindings Bool)) :
    ∃ grown, Resolution.after s (scope :: scopes) = grown :: scopes ∧
      ∀ absent, grown.find? absent = none → scope.find? absent = none ∧
        ∀ name, s.declared? = some name → name.lexeme ≠ absent := by
  unfold Resolution.after
  cases s.declared? with
  | none => exact ⟨_, rfl, fun absent unbound => ⟨unbound, by simp⟩⟩
  | some name =>
    refine ⟨_, rfl, fun absent unbound => ?_⟩
    rw [Bindings.find?_insert] at unbound
    split at unbound
    · cases unbound
    · rename_i other
      refine ⟨unbound, fun given same => ?_⟩
      cases same
      exact Ne.symm other

/-- What a statement of a scope declares is not in the scope before. -/
theorem declared_fresh {body : List Stmt} {s : Stmt}
    (resolved : stmtsResolved records (scope :: scopes) body) (member : s ∈ body)
    (declared : s.declared? = some name) : scope.find? name.lexeme = none := by
  induction body generalizing scope with
  | nil => cases member
  | cons first rest ih =>
    rcases List.mem_cons.mp member with rfl | later
    · exact undeclared_of_resolved resolved.1 declared scope rfl
    · obtain ⟨grown, shape, absent⟩ := after_inside first scope scopes
      exact (absent _ (ih (shape ▸ resolved.2) later)).1

theorem declared_once {body : List Stmt} {s t : Stmt} {other : Token}
    (resolved : stmtsResolved records (scope :: scopes) body)
    (first : s ∈ body) (second : t ∈ body) (declared : s.declared? = some name)
    (declared' : t.declared? = some other) (same : name.lexeme = other.lexeme) : s = t := by
  induction body generalizing scope with
  | nil => cases first
  | cons head rest ih =>
    obtain ⟨grown, shape, absent⟩ := after_inside head scope scopes
    have later := shape ▸ resolved.2
    rcases List.mem_cons.mp first with here | first <;>
      rcases List.mem_cons.mp second with there | second
    · exact here.trans there.symm
    · have fresh := (absent _ (declared_fresh later second declared')).2
      exact absurd same (fresh name (here ▸ declared))
    · have fresh := (absent _ (declared_fresh later first declared)).2
      exact absurd same.symm (fresh other (there ▸ declared'))
    · exact ih later first second

/-- A scope has only one local of a name, so no function or class of a variable's scope has its
name. -/
theorem only_var {body : List Stmt} (resolved : stmtsResolved records (scope :: scopes) body)
    (declares : scope.find? x ≠ none ∨ DeclaresVar x body) : ∀ s ∈ body, OnlyVar x 0 s := by
  intro s member _ name declared same
  rcases declares with bound | ⟨var, initializer, there, named⟩
  · exact absurd (same ▸ declared_fresh resolved member declared) bound
  · have one := declared_once resolved member there declared rfl (same.trans named.symm)
    subst one
    cases declared
    exact ⟨initializer, rfl⟩

theorem FunctionRenaming.names {f f' : FunctionDecl} (renames : FunctionRenaming x y table f f') :
    f'.name = f.name := by
  cases renames <;> rfl

mutual

theorem StmtRenaming.like {marks : List Bool} (plain : Plain marks) {scopes : List (Bindings Bool)} :
    {s s' : Stmt} → StmtRenaming x y table s s' → s.Proper (Without y) →
      s.Resolved records scopes → (swapping table swappable).LikeStmt marks s s'
  | _, _, .block declares, proper, resolved =>
    .block true (stmts_like_renamed (.here plain) _ proper (only_var resolved (.inr declares)))
  | _, _, .inBlock inside, proper, resolved =>
    .block false (StmtsRenaming.like plain.cons inside proper resolved)
  | .conditional condition _ elseBranch, _, .inThen inside, proper, resolved =>
    .conditional (.refl plain condition (swapping_fixes (condition.uses 0)))
      (StmtRenaming.like plain inside proper.2.1.1 resolved.2.1.1)
      (.refl plain elseBranch (swapping_fixes (branchUses 0 elseBranch)))
  | .conditional condition thenBranch _, _, .inElse inside, proper, resolved =>
    .conditional (.refl plain condition (swapping_fixes (condition.uses 0)))
      (.refl plain thenBranch (swapping_fixes (thenBranch.uses 0)))
      (.some (StmtRenaming.like plain inside proper.2.2.1 resolved.2.2.1))
  | .loop condition _, _, .inLoop inside, proper, resolved =>
    .loop (.refl plain condition (swapping_fixes (condition.uses 0)))
      (StmtRenaming.like plain inside proper.2.1 resolved.2.1)
  | .function declaration, _, .inFunction inside, proper, resolved =>
    .function (by rw [inside.names]; exact names_refl plain declaration.name)
      (FunctionRenaming.like plain inside proper resolved.2)
  | .classDecl name superclass _, _, .inClass inside, proper, resolved =>
    .classDecl (.refl name) (names_refl plain name)
      (.refl plain superclass (swapping_fixes (superclassUses 0 superclass)))
      (FunctionsRenaming.like (plain.classMarks superclass) inside proper.2.2 resolved.2.2)

theorem StmtsRenaming.like {marks : List Bool} (plain : Plain marks) {scopes : List (Bindings Bool)} :
    {body body' : List Stmt} → StmtsRenaming x y table body body' → stmtsProper (Without y) body →
      stmtsResolved records scopes body → (swapping table swappable).LikeStmts marks body body'
  | _ :: rest, _, .here inside, proper, resolved =>
    .cons (StmtRenaming.like plain inside proper.1 resolved.1)
      (.refl plain rest (swapping_fixes (stmtUses 0 rest)))
  | first :: _, _, .later inside, proper, resolved =>
    .cons (.refl plain first (swapping_fixes (first.uses 0)))
      (StmtsRenaming.like plain inside proper.2 resolved.2)

theorem FunctionRenaming.like {marks : List Bool} (plain : Plain marks)
    {scopes : List (Bindings Bool)} :
    {f f' : FunctionDecl} → FunctionRenaming x y table f f' → f.Proper (Without y) →
      f.Resolved records scopes → (swapping table swappable).LikeFunction marks f f'
  | ⟨name, params, body⟩, _, .scope declares, proper, resolved => by
    refine .mk true (.refl name) ?_ (stmts_like_renamed (.here plain) body proper.2.2 ?_)
    · rw [List.forall₂_map_right_iff]
      exact List.forall₂_same.mpr fun param member =>
        names_renamed table swappable (proper.2.1 param member).2.2
    · refine only_var resolved.2 (declares.imp (fun param => ?_) id)
      rw [find?_paramScope, if_pos param]
      exact Option.some_ne_none true
  | ⟨name, params, body⟩, _, .inBody inside, proper, resolved =>
    .mk false (.refl name) (List.forall₂_same.mpr fun param _ => .refl param)
      (StmtsRenaming.like plain.cons inside proper.2.2 resolved.2)

theorem FunctionsRenaming.like {marks : List Bool} (plain : Plain marks)
    {scopes : List (Bindings Bool)} :
    {fs fs' : List FunctionDecl} → FunctionsRenaming x y table fs fs' →
      methodsProper (Without y) fs → methodsResolved records scopes fs →
      (swapping table swappable).LikeFunctions marks fs fs'
  | _ :: rest, _, .here inside, proper, resolved =>
    .cons (FunctionRenaming.like plain inside proper.1 resolved.1)
      (.refl plain rest (swapping_fixes (methodUses 0 rest)))
  | first :: _, _, .later inside, proper, resolved =>
    .cons (.refl plain first (swapping_fixes (first.uses 0)))
      (FunctionsRenaming.like plain inside proper.2 resolved.2)

end

theorem DeclaresVar.identifier {body : List Stmt} (declares : DeclaresVar x body)
    (proper : stmtsProper (Without y) body) : Keyword.ofText? x = none := by
  obtain ⟨name, initializer, member, rfl⟩ := declares
  exact Named.identifier (stmtsProper_mem proper member).1

mutual

/-- Only identifiers are renamed. -/
theorem StmtRenaming.identifier : {s s' : Stmt} → StmtRenaming x y table s s' →
    s.Proper (Without y) → Keyword.ofText? x = none
  | _, _, .block declares, proper => declares.identifier proper
  | _, _, .inBlock inside, proper => StmtsRenaming.identifier inside proper
  | _, _, .inThen inside, proper => StmtRenaming.identifier inside proper.2.1.1
  | _, _, .inElse inside, proper => StmtRenaming.identifier inside proper.2.2.1
  | _, _, .inLoop inside, proper => StmtRenaming.identifier inside proper.2.1
  | _, _, .inFunction inside, proper => FunctionRenaming.identifier inside proper
  | _, _, .inClass inside, proper => FunctionsRenaming.identifier inside proper.2.2

theorem StmtsRenaming.identifier : {body body' : List Stmt} → StmtsRenaming x y table body body' →
    stmtsProper (Without y) body → Keyword.ofText? x = none
  | _, _, .here inside, proper => StmtRenaming.identifier inside proper.1
  | _, _, .later inside, proper => StmtsRenaming.identifier inside proper.2

theorem FunctionRenaming.identifier : {f f' : FunctionDecl} → FunctionRenaming x y table f f' →
    f.Proper (Without y) → Keyword.ofText? x = none
  | _, _, .scope declares, proper => by
    rcases declares with among | declares
    · obtain ⟨param, member, same⟩ := List.mem_map.mp among
      exact same ▸ Named.identifier (proper.2.1 param member)
    · exact declares.identifier proper.2.2
  | _, _, .inBody inside, proper => StmtsRenaming.identifier inside proper.2.2

theorem FunctionsRenaming.identifier : {fs fs' : List FunctionDecl} →
    FunctionsRenaming x y table fs fs' → methodsProper (Without y) fs → Keyword.ofText? x = none
  | _, _, .here inside, proper => FunctionRenaming.identifier inside proper.1
  | _, _, .later inside, proper => FunctionsRenaming.identifier inside proper.2

end

end Alike

/-! ### Runs -/

/-- A fault without the name of the variable that it says is undefined. -/
def RuntimeFault.unnamed : RuntimeFault → RuntimeFault
  | .undefinedVariable _ line => .undefinedVariable "" line
  | fault => fault

def Machine.Signal.fault? : Signal → Option RuntimeFault
  | .failed fault => some fault
  | .done _ | .returned _ => none

theorem fault_like {x y : String} {table : Nat → Option Nat} {swappable : Swappable x y}
    {flags : List Bool} {signal twin : Signal}
    (alike : (swapping table swappable).LikeSignal flags signal twin) :
    twin.fault?.map RuntimeFault.unnamed = signal.fault?.map RuntimeFault.unnamed := by
  cases alike with
  | done _ | returned _ => rfl
  | failed fault =>
    cases fault <;> rename_i same <;> cases same <;> rfl

/-- A local of an accepted text may be given any name that does not occur in the text. -/
theorem renamed_local {x y : String} {session after : Session} {source : String}
    {program program' : List Stmt} (reached : Reachable Discreet (.idle session))
    (accepted : session.prepare source = (after, some program))
    (identifier : Keyword.ofText? y = none)
    (unused : ∀ token ∈ Source.tokens (Source.scan source), token.lexeme ≠ y)
    (renames : StmtsRenaming x y (fun id => after.machine.distances[id]?) program program') :
    (∃ distances, resolve program = .ok distances ∧ resolve program' = .ok distances ∧
      after.machine = session.machine.record distances) ∧
    ∀ steps, Option.Rel (fun ending ending' => ending'.2.output = ending.2.output ∧
        ending'.1.fault?.map RuntimeFault.unnamed = ending.1.fault?.map RuntimeFault.unnamed)
      (Machine.run steps (interpreting program after.machine))
      (Machine.run steps (interpreting program' after.machine)) := by
  have gated := session.gated_prepare source
  rw [accepted] at gated
  cases gated with
  | @accepted _ distances passes resolved _ machine =>
    have words : ∀ token ∈ Source.tokens (Source.scan source), Without y token :=
      fun token member => ⟨Source.tokens_genuine source token member, unused token member⟩
    have read := (Tree.parse_read words passes.parsed).2
    have identifier' := StmtsRenaming.identifier renames read.proper
    have swappable : Swappable x y :=
      ⟨⟨identifier_ne identifier' .this, identifier_ne identifier .this⟩,
        ⟨identifier_ne identifier' .super, identifier_ne identifier .super⟩⟩
    obtain ⟨table, prepared⟩ := Session.prepared_of_prepare accepted
    have rests := prepared.rests reached.honest.fits
    have trees := prepared.resolved reached.honest.fits.unused
    have like : (swapping (fun id => after.machine.distances[id]?) swappable).LikeStmts [false] program
        program' := renames.like (plain_replicate 1) read.proper trees
    have nextId : (session.parsed source).nextId = after.nextId := by
      have same := Session.prepare_resolved passes.parsed resolved
      rw [accepted] at same
      exact (congrArg (·.1.nextId) same).symm
    let records : Records := ⟨fun id => after.machine.distances[id]?, after.nextId⟩
    have table : (swapping (fun id => after.machine.distances[id]?) swappable).table =
        records.distance? := rfl
    have recorded : ∀ id, session.nextId ≤ id →
        records.distance? id = distances.reverse.lookup id := by
      intro id above
      change after.machine.distances[id]? = _
      rw [machine, State.distances_record, reached.honest.fits.unused id above, Option.or_none]
    have avoids : (swapping (fun id => after.machine.distances[id]?) swappable).Avoids (· ≠ y) := by
      refine ⟨swappable.this.2, swappable.super.2, fun name old => ?_⟩
      by_cases same : name = x
      · exact .inr fun new => new (same ▸ Equiv.swap_apply_left x y)
      · exact .inl (Equiv.swap_apply_of_ne_of_ne same old)
    refine ⟨⟨distances, resolved, ?_, machine⟩, fun steps => ?_⟩
    · have again := resolve_like avoids table (fun token (good : Without y token) => good.2) read
        resolved (Nat.le_of_eq nextId) recorded like
      rw [again]
      exact congrArg _ (List.map_id _)
    · have discreet : ∀ act ∈ after.machine.hosts, Discreet act := machine ▸ reached.discreet
      have state : (swapping (fun id => after.machine.distances[id]?) swappable).LikeState
          (unmarked after.machine.store) after.nextId after.machine after.machine :=
        .refl (fun _ _ => rfl) rests.sound rests.rooted discreet fun _ _ => rfl
      have config := state.interpret rests.atGlobals like
      refine rel_imp (config.run (rests.interpreting trees) steps) fun _ _ ends => ?_
      obtain ⟨more, ending⟩ := ends
      exact ⟨ending.state.output, fault_like ending.signal⟩

theorem renamed_local_in_block : ∃ (session : Session) (program program' : List Stmt),
    StmtsRenaming "a" "b" (fun id => session.machine.distances[id]?) program program' ∧
      ∃ distances, resolve program' = .ok distances := by
  let source := "\x7bvar a=nil;a;\x7d"
  let name : Token := ⟨.identifier, "a", 1⟩
  let statements : List Stmt := [.var name (some (.literal .nil)), .expression (.variable ⟨0, name⟩)]
  have accepted : ((Session.start (fun _ => 0) false).prepare source).2 =
      some [.block statements] := by cbv
  have words : (Source.tokens (Source.scan source)).map Token.lexeme =
      ["\x7b", "var", "a", "=", "nil", ";", "a", ";", "\x7d", ""] := by cbv
  have unused : ∀ token ∈ Source.tokens (Source.scan source), token.lexeme ≠ "b" := by
    intro token member same
    have among := List.mem_map_of_mem (f := Token.lexeme) member
    rw [words, same] at among
    exact absurd among (by decide)
  have reached : Reachable Discreet (.idle (Session.start (fun _ => 0) false)) := ⟨_, _, .refl _⟩
  rcases prepared : (Session.start (fun _ => 0) false).prepare source with ⟨after, program⟩
  rw [prepared] at accepted
  cases accepted
  have renames : StmtsRenaming "a" "b" (fun id => after.machine.distances[id]?)
      [.block statements] _ := .here (.block ⟨name, _, List.mem_cons_self, rfl⟩)
  obtain ⟨distances, _, again, _⟩ := (renamed_local reached prepared (by decide) unused renames).1
  exact ⟨after, _, _, renames, distances, again⟩

end Lox
