import Mathlib.Data.List.Forall2
import Lox.Proofs.References

/-! Programs that are alike. They have one shape, but their tokens may stand on other lines, their
references may have other numbers, and in some of their scopes names may be swapped for others. -/

namespace Lox

/-- How two programs may differ, given the distances that are on record for the first. -/
structure Likeness where
  table : Nat → Option Nat
  line : Nat → Nat → Prop
  /-- What the number of a reference becomes. -/
  number : Nat → Nat
  /-- What a name becomes in a marked scope. -/
  swap : String → String
  line_refl : ∀ place, line place place
  swap_swap : ∀ name, swap (swap name) = name
  swap_this : swap thisName = thisName
  swap_super : swap superName = superName

namespace Likeness

variable (L : Likeness)

def named (marked : Bool) (name : String) : String := if marked then L.swap name else name

/-- Whether a reference is to a marked scope. -/
def markOf (marks : List Bool) (id : Nat) : Bool := ((L.table id).bind (marks[·]?)).getD false

/-- Tokens that differ in their lines only. -/
structure Same (first second : Token) : Prop where
  kind : second.kind = first.kind
  lexeme : second.lexeme = first.lexeme
  line : L.line first.line second.line

/-- Names that are bound in scopes with one mark. -/
structure Names (marked : Bool) (first second : Token) : Prop where
  kind : second.kind = first.kind
  lexeme : second.lexeme = L.named marked first.lexeme
  line : L.line first.line second.line

structure Refers (marks : List Bool) (first second : Reference) : Prop where
  id : second.id = L.number first.id
  names : L.Names (L.markOf marks first.id) first.name second.name

/-- The mark of the innermost scope. -/
def innermost (marks : List Bool) : Bool := marks.headD false

mutual

inductive LikeExpr (marks : List Bool) : Expr → Expr → Prop
  | literal (literal : Literal) : LikeExpr marks (.literal literal) (.literal literal)
  | unary {operator operator' : Token} {operand operand' : Expr} :
      L.Same operator operator' → LikeExpr marks operand operand' →
      LikeExpr marks (.unary operator operand) (.unary operator' operand')
  | binary {left left' right right' : Expr} {operator operator' : Token} :
      LikeExpr marks left left' → L.Same operator operator' → LikeExpr marks right right' →
      LikeExpr marks (.binary left operator right) (.binary left' operator' right')
  | logical {left left' right right' : Expr} {operator operator' : Token} :
      LikeExpr marks left left' → L.Same operator operator' → LikeExpr marks right right' →
      LikeExpr marks (.logical left operator right) (.logical left' operator' right')
  | grouping {inner inner' : Expr} :
      LikeExpr marks inner inner' → LikeExpr marks (.grouping inner) (.grouping inner')
  | name {reference reference' : Reference} :
      L.Refers marks reference reference' →
      LikeExpr marks (.variable reference) (.variable reference')
  | assign {target target' : Reference} {value value' : Expr} :
      L.Refers marks target target' → LikeExpr marks value value' →
      LikeExpr marks (.assign target value) (.assign target' value')
  | call {callee callee' : Expr} {paren paren' : Token} {arguments arguments' : List Expr} :
      LikeExpr marks callee callee' → L.Same paren paren' →
      LikeExprs marks arguments arguments' →
      LikeExpr marks (.call callee paren arguments) (.call callee' paren' arguments')
  | get {object object' : Expr} {name name' : Token} :
      LikeExpr marks object object' → L.Same name name' →
      LikeExpr marks (.get object name) (.get object' name')
  | set {object object' value value' : Expr} {name name' : Token} :
      LikeExpr marks object object' → L.Same name name' → LikeExpr marks value value' →
      LikeExpr marks (.set object name value) (.set object' name' value')
  | this {reference reference' : Reference} :
      L.Refers marks reference reference' →
      LikeExpr marks (.this reference) (.this reference')
  | super {reference reference' : Reference} {method method' : Token} :
      L.Refers marks reference reference' → L.Same method method' →
      LikeExpr marks (.super reference method) (.super reference' method')

inductive LikeExprs (marks : List Bool) : List Expr → List Expr → Prop
  | nil : LikeExprs marks [] []
  | cons {first first' : Expr} {rest rest' : List Expr} :
      LikeExpr marks first first' → LikeExprs marks rest rest' →
      LikeExprs marks (first :: rest) (first' :: rest')

end

inductive LikeOptional (marks : List Bool) : Option Expr → Option Expr → Prop
  | none : LikeOptional marks none none
  | some {e e' : Expr} : L.LikeExpr marks e e' → LikeOptional marks (some e) (some e')

inductive LikeSuperclass (marks : List Bool) : Option Reference → Option Reference → Prop
  | none : LikeSuperclass marks none none
  | some {reference reference' : Reference} :
      L.Refers marks reference reference' →
      LikeSuperclass marks (some reference) (some reference')

/-- The scopes of a class are never marked. -/
def classMarks (superclass : Option Reference) : List Bool :=
  List.replicate (classDepth superclass) false

mutual

/-- Each scope that is opened may be marked or not. -/
inductive LikeStmt : List Bool → Stmt → Stmt → Prop
  | expression {marks : List Bool} {e e' : Expr} :
      L.LikeExpr marks e e' → LikeStmt marks (.expression e) (.expression e')
  | print {marks : List Bool} {e e' : Expr} :
      L.LikeExpr marks e e' → LikeStmt marks (.print e) (.print e')
  | var {marks : List Bool} {name name' : Token} {initializer initializer' : Option Expr} :
      L.Names (innermost marks) name name' → L.LikeOptional marks initializer initializer' →
      LikeStmt marks (.var name initializer) (.var name' initializer')
  | block {marks : List Bool} (mark : Bool) {body body' : List Stmt} :
      LikeStmts (mark :: marks) body body' → LikeStmt marks (.block body) (.block body')
  | conditional {marks : List Bool} {condition condition' : Expr}
      {thenBranch thenBranch' : Stmt} {elseBranch elseBranch' : Option Stmt} :
      L.LikeExpr marks condition condition' → LikeStmt marks thenBranch thenBranch' →
      LikeBranch marks elseBranch elseBranch' →
      LikeStmt marks (.conditional condition thenBranch elseBranch)
        (.conditional condition' thenBranch' elseBranch')
  | loop {marks : List Bool} {condition condition' : Expr} {body body' : Stmt} :
      L.LikeExpr marks condition condition' → LikeStmt marks body body' →
      LikeStmt marks (.loop condition body) (.loop condition' body')
  | function {marks : List Bool} {declaration declaration' : FunctionDecl} :
      L.Names (innermost marks) declaration.name declaration'.name →
      LikeFunction marks declaration declaration' →
      LikeStmt marks (.function declaration) (.function declaration')
  | ret {marks : List Bool} {keyword keyword' : Token} {value value' : Option Expr} :
      L.Same keyword keyword' → L.LikeOptional marks value value' →
      LikeStmt marks (.ret keyword value) (.ret keyword' value')
  | classDecl {marks : List Bool} {name name' : Token} {superclass superclass' : Option Reference}
      {methods methods' : List FunctionDecl} :
      L.Same name name' → L.Names (innermost marks) name name' →
      L.LikeSuperclass marks superclass superclass' →
      LikeFunctions (classMarks superclass ++ marks) methods methods' →
      LikeStmt marks (.classDecl name superclass methods)
        (.classDecl name' superclass' methods')

inductive LikeStmts : List Bool → List Stmt → List Stmt → Prop
  | nil {marks : List Bool} : LikeStmts marks [] []
  | cons {marks : List Bool} {first first' : Stmt} {rest rest' : List Stmt} :
      LikeStmt marks first first' → LikeStmts marks rest rest' →
      LikeStmts marks (first :: rest) (first' :: rest')

inductive LikeBranch : List Bool → Option Stmt → Option Stmt → Prop
  | none {marks : List Bool} : LikeBranch marks none none
  | some {marks : List Bool} {s s' : Stmt} :
      LikeStmt marks s s' → LikeBranch marks (some s) (some s')

/-- Functions are shown by their names, which therefore are never swapped. -/
inductive LikeFunction : List Bool → FunctionDecl → FunctionDecl → Prop
  | mk {marks : List Bool} (mark : Bool) {name name' : Token} {params params' : List Token}
      {body body' : List Stmt} :
      L.Same name name' → List.Forall₂ (L.Names mark) params params' →
      LikeStmts (mark :: marks) body body' →
      LikeFunction marks ⟨name, params, body⟩ ⟨name', params', body'⟩

inductive LikeFunctions : List Bool → List FunctionDecl → List FunctionDecl → Prop
  | nil {marks : List Bool} : LikeFunctions marks [] []
  | cons {marks : List Bool} {first first' : FunctionDecl} {rest rest' : List FunctionDecl} :
      LikeFunction marks first first' → LikeFunctions marks rest rest' →
      LikeFunctions marks (first :: rest) (first' :: rest')

end

/-! ### A program and itself -/

section Diagonal

variable {L} {marks : List Bool}

/-- None of these scopes is marked. -/
def Plain (marks : List Bool) : Prop := ∀ mark ∈ marks, mark = false

theorem Plain.cons (plain : Plain marks) : Plain (false :: marks) := by
  intro mark member
  rcases List.mem_cons.mp member with here | there
  · exact here
  · exact plain mark there

theorem Plain.classMarks (plain : Plain marks) (superclass : Option Reference) :
    Plain (classMarks superclass ++ marks) := by
  intro mark member
  rcases List.mem_append.mp member with here | there
  · exact List.eq_of_mem_replicate here
  · exact plain mark there

theorem Plain.markOf (plain : Plain marks) (id : Nat) : L.markOf marks id = false := by
  unfold Likeness.markOf
  cases found : (L.table id).bind (marks[·]?) with
  | none => rfl
  | some mark =>
    obtain ⟨distance, _, there⟩ := Option.bind_eq_some_iff.mp found
    exact plain mark (List.mem_of_getElem? there)

theorem Plain.innermost (plain : Plain marks) : innermost marks = false := by
  cases marks with
  | nil => rfl
  | cons mark outer => exact plain mark List.mem_cons_self

theorem Same.refl (token : Token) : L.Same token token := ⟨rfl, rfl, L.line_refl _⟩

theorem Names.refl (token : Token) : L.Names false token token := ⟨rfl, rfl, L.line_refl _⟩

variable (L) in
/-- These references keep their numbers. -/
def Fixes (uses : List Use) : Prop := ∀ use ∈ uses, L.number use.id = use.id

theorem Fixes.left {uses others : List Use} (fixed : L.Fixes (uses ++ others)) : L.Fixes uses :=
  fun use member => fixed use (List.mem_append_left _ member)

theorem Fixes.right {uses others : List Use} (fixed : L.Fixes (uses ++ others)) : L.Fixes others :=
  fun use member => fixed use (List.mem_append_right _ member)

theorem Refers.refl (plain : Plain marks) {reference : Reference}
    (fixed : L.number reference.id = reference.id) : L.Refers marks reference reference := by
  refine ⟨fixed.symm, ?_⟩
  rw [plain.markOf]
  exact .refl _

theorem Refers.refl_use (plain : Plain marks) {depth : Nat} {writes : Bool} {reference : Reference}
    (fixed : L.Fixes [⟨depth, writes, reference⟩]) : L.Refers marks reference reference :=
  .refl plain (fixed _ (List.mem_singleton.mpr rfl))

mutual

theorem LikeExpr.refl (plain : Plain marks) {depth : Nat} :
    (e : Expr) → L.Fixes (e.uses depth) → L.LikeExpr marks e e
  | .literal literal, _ => .literal literal
  | .unary operator operand, fixed => .unary (.refl operator) (LikeExpr.refl plain operand fixed)
  | .binary left operator right, fixed =>
    .binary (LikeExpr.refl plain left fixed.left) (.refl operator)
      (LikeExpr.refl plain right fixed.right)
  | .logical left operator right, fixed =>
    .logical (LikeExpr.refl plain left fixed.left) (.refl operator)
      (LikeExpr.refl plain right fixed.right)
  | .grouping inner, fixed => .grouping (LikeExpr.refl plain inner fixed)
  | .variable _, fixed => .name (.refl_use plain fixed)
  | .assign _ value, fixed =>
    .assign (.refl_use plain fixed.right) (LikeExpr.refl plain value fixed.left)
  | .call callee paren arguments, fixed =>
    .call (LikeExpr.refl plain callee fixed.left) (.refl paren)
      (LikeExprs.refl plain arguments fixed.right)
  | .get object name, fixed => .get (LikeExpr.refl plain object fixed) (.refl name)
  | .set object name value, fixed =>
    .set (LikeExpr.refl plain object fixed.left) (.refl name)
      (LikeExpr.refl plain value fixed.right)
  | .this _, fixed => .this (.refl_use plain fixed)
  | .super _ method, fixed => .super (.refl_use plain fixed) (.refl method)

theorem LikeExprs.refl (plain : Plain marks) {depth : Nat} :
    (es : List Expr) → L.Fixes (exprUses depth es) → L.LikeExprs marks es es
  | [], _ => .nil
  | first :: rest, fixed =>
    .cons (LikeExpr.refl plain first fixed.left) (LikeExprs.refl plain rest fixed.right)

end

theorem LikeOptional.refl (plain : Plain marks) {depth : Nat} :
    (e : Option Expr) → L.Fixes (optionalUses depth e) → L.LikeOptional marks e e
  | .none, _ => .none
  | .some e, fixed => .some (.refl plain e fixed)

theorem LikeSuperclass.refl (plain : Plain marks) {depth : Nat} :
    (superclass : Option Reference) → L.Fixes (superclassUses depth superclass) →
      L.LikeSuperclass marks superclass superclass
  | .none, _ => .none
  | .some _, fixed => .some (.refl_use plain fixed)

theorem names_refl (plain : Plain marks) (name : Token) : L.Names (innermost marks) name name := by
  rw [plain.innermost]
  exact .refl name

mutual

theorem LikeStmt.refl {marks : List Bool} (plain : Plain marks) {depth : Nat} :
    (s : Stmt) → L.Fixes (s.uses depth) → L.LikeStmt marks s s
  | .expression e, fixed => .expression (.refl plain e fixed)
  | .print e, fixed => .print (.refl plain e fixed)
  | .var name initializer, fixed => .var (names_refl plain name) (.refl plain initializer fixed)
  | .block body, fixed => .block false (LikeStmts.refl plain.cons body fixed)
  | .conditional condition thenBranch elseBranch, fixed =>
    .conditional (.refl plain condition fixed.left.left)
      (LikeStmt.refl plain thenBranch fixed.left.right)
      (LikeBranch.refl plain elseBranch fixed.right)
  | .loop condition body, fixed =>
    .loop (.refl plain condition fixed.left) (LikeStmt.refl plain body fixed.right)
  | .function declaration, fixed =>
    .function (names_refl plain declaration.name) (LikeFunction.refl plain declaration fixed)
  | .ret keyword value, fixed => .ret (.refl keyword) (.refl plain value fixed)
  | .classDecl name superclass methods, fixed =>
    .classDecl (.refl name) (names_refl plain name) (.refl plain superclass fixed.left)
      (LikeFunctions.refl (plain.classMarks superclass) methods fixed.right)

theorem LikeStmts.refl {marks : List Bool} (plain : Plain marks) {depth : Nat} :
    (body : List Stmt) → L.Fixes (stmtUses depth body) → L.LikeStmts marks body body
  | [], _ => .nil
  | first :: rest, fixed =>
    .cons (LikeStmt.refl plain first fixed.left) (LikeStmts.refl plain rest fixed.right)

theorem LikeBranch.refl {marks : List Bool} (plain : Plain marks) {depth : Nat} :
    (s : Option Stmt) → L.Fixes (branchUses depth s) → L.LikeBranch marks s s
  | .none, _ => .none
  | .some s, fixed => .some (LikeStmt.refl plain s fixed)

theorem LikeFunction.refl {marks : List Bool} (plain : Plain marks) {depth : Nat} :
    (f : FunctionDecl) → L.Fixes (f.uses depth) → L.LikeFunction marks f f
  | ⟨name, _, body⟩, fixed =>
    .mk false (.refl name) (List.forall₂_same.mpr fun param _ => .refl param)
      (LikeStmts.refl plain.cons body fixed)

theorem LikeFunctions.refl {marks : List Bool} (plain : Plain marks) {depth : Nat} :
    (fs : List FunctionDecl) → L.Fixes (methodUses depth fs) → L.LikeFunctions marks fs fs
  | [], _ => .nil
  | first :: rest, fixed =>
    .cons (LikeFunction.refl plain first fixed.left) (LikeFunctions.refl plain rest fixed.right)

end

end Diagonal

end Likeness
end Lox
