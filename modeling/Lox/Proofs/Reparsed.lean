import Lox.Proofs.Likeness
import Lox.Tree.Statement

/-! Tokens that are alike are read alike: the same rules apply to both, so the programs are alike, or the
same things are complained of in the same places. -/

namespace Lox

/-- The same breach of the rules, on lines that correspond. -/
inductive StaticFault.Moved (line : Nat → Nat → Prop) : StaticFault → StaticFault → Prop
  | undefinedInInitializer (name : String) {place place' : Nat} : line place place' →
      Moved line (.undefinedInInitializer name place) (.undefinedInInitializer name place')
  | duplicateDeclaration (name : String) {place place' : Nat} : line place place' →
      Moved line (.duplicateDeclaration name place) (.duplicateDeclaration name place')
  | returnOutsideFunction {place place' : Nat} : line place place' →
      Moved line (.returnOutsideFunction place) (.returnOutsideFunction place')
  | returnValueInInitializer {place place' : Nat} : line place place' →
      Moved line (.returnValueInInitializer place) (.returnValueInInitializer place')
  | thisOutsideClass {place place' : Nat} : line place place' →
      Moved line (.thisOutsideClass place) (.thisOutsideClass place')
  | superOutsideClass {place place' : Nat} : line place place' →
      Moved line (.superOutsideClass place) (.superOutsideClass place')
  | superWithoutSuperclass {place place' : Nat} : line place place' →
      Moved line (.superWithoutSuperclass place) (.superWithoutSuperclass place')
  | selfInheritance (name : String) {place place' : Nat} : line place place' →
      Moved line (.selfInheritance name place) (.selfInheritance name place')
  | invalidAssignmentTarget {place place' : Nat} : line place place' →
      Moved line (.invalidAssignmentTarget place) (.invalidAssignmentTarget place')

/-- The same complaint of a parse, on lines that correspond. -/
inductive Fault.Moved (line : Nat → Nat → Prop) : Fault → Fault → Prop
  | parse (location : Option String) (complaint : ParseComplaint) {place place' : Nat} :
      line place place' →
      Moved line (.parse place location complaint) (.parse place' location complaint)
  | static {fault twin : StaticFault} : fault.Moved line twin →
      Moved line (.static fault) (.static twin)

namespace Fault.Moved

variable {line : Nat → Nat → Prop} {fault twin : Fault}

theorem isStatic (moved : fault.Moved line twin) : fault.isStatic := by
  cases moved <;> rfl

end Fault.Moved

theorem StaticFault.Moved.eq {fault twin : StaticFault} (moved : fault.Moved Eq twin) :
    twin = fault := by
  cases moved <;> rename_i same <;> rw [same]

theorem Fault.Moved.eq {fault twin : Fault} (moved : fault.Moved Eq twin) : twin = fault := by
  cases moved with
  | parse location complaint same => rw [same]
  | static given => rw [given.eq]

/-- Alike wherever no scope is marked. -/
def Likeness.Unmarked {α β : Type} (like : List Bool → α → β → Prop) (first : α) (second : β) :
    Prop := ∀ marks, Likeness.Plain marks → like marks first second

namespace Tree

open Likeness

variable (L : Likeness)

/-- What is still to be read is alike, and so is what was complained of. From here on references are
numbered one after the other on both sides. -/
structure Progress.Like (first second : Progress) : Prop where
  rest : List.Forall₂ L.Same first.rest second.rest
  endLine : L.line first.endLine second.endLine
  nextId : second.nextId = L.number first.nextId
  steady : ∀ id, first.nextId ≤ id → L.number (id + 1) = L.number id + 1
  faults : List.Forall₂ (Fault.Moved L.line) first.faults second.faults

variable {α β γ δ : Type}

inductive Outcome (value : α → β → Prop) :
    Except Fault α × Progress → Except Fault β × Progress → Prop
  | ok {a : α} {b : β} {first second : Progress} : value a b → first.Like L second →
      Outcome value (.ok a, first) (.ok b, second)
  | error {fault twin : Fault} {first second : Progress} : fault.Moved L.line twin →
      first.Like L second → Outcome value (.error fault, first) (.error twin, second)

/-- Rules that do the same with tokens that are alike. -/
def Agree (value : α → β → Prop) (first : Parser α) (second : Parser β) : Prop :=
  ∀ ⦃before twin⦄, Progress.Like L before twin → Outcome L value (first before) (second twin)

variable {L} {value : α → β → Prop} {other : γ → δ → Prop}

namespace Agree

theorem pure {a : α} {b : β} (same : value a b) :
    Agree L value (Pure.pure a : Parser α) (Pure.pure b) :=
  fun _ _ like => .ok same like

theorem bind {first : Parser α} {second : Parser β} {next : α → Parser γ} {next' : β → Parser δ}
    (earlier : Agree L value first second)
    (later : ∀ a b, value a b → Agree L other (next a) (next' b)) :
    Agree L other (first >>= next) (second >>= next') := by
  intro before twin like
  have outcome := earlier like
  rw [Parser.bind_apply, Parser.bind_apply]
  generalize first before = result, second twin = result' at outcome ⊢
  cases outcome with
  | ok same after => exact later _ _ same after
  | error moved after => exact .error moved after

theorem map {first : Parser α} {second : Parser β} {f : α → γ} {g : β → δ}
    (earlier : Agree L value first second) (later : ∀ a b, value a b → other (f a) (g b)) :
    Agree L other (f <$> first) (g <$> second) := by
  intro before twin like
  have outcome := earlier like
  rw [Parser.map_apply, Parser.map_apply]
  generalize first before = result, second twin = result' at outcome ⊢
  cases outcome with
  | ok same after => exact .ok (later _ _ same) after
  | error moved after => exact .error moved after

theorem ite {condition condition' : Prop} [Decidable condition] [Decidable condition']
    {yes no : Parser α} {yes' no' : Parser β} (same : condition ↔ condition')
    (whenTrue : Agree L value yes yes') (whenFalse : Agree L value no no') :
    Agree L value (if condition then yes else no) (if condition' then yes' else no') := by
  by_cases holds : condition
  · rw [if_pos holds, if_pos (same.mp holds)]
    exact whenTrue
  · rw [if_neg holds, if_neg fun holds' => holds (same.mpr holds')]
    exact whenFalse

end Agree

/-! ### Single tokens -/

namespace Parser

theorem agree_atEnd : Agree L Eq atEnd atEnd := by
  intro before twin like
  refine .ok ?_ like
  have rest := like.rest
  generalize before.rest = first, twin.rest = second at rest ⊢
  cases rest <;> rfl

theorem agree_peek : Agree L (Option.Rel L.Same) peek? peek? := by
  intro before twin like
  refine .ok ?_ like
  have rest := like.rest
  generalize before.rest = first, twin.rest = second at rest ⊢
  cases rest with
  | nil => exact .none
  | cons same _ => exact .some same

theorem agree_skip : Agree L Eq skip skip := by
  intro before twin like
  refine .ok rfl ⟨?_, like.endLine, like.nextId, like.steady, like.faults⟩
  have rest := like.rest
  dsimp only
  generalize before.rest = first, twin.rest = second at rest ⊢
  cases rest with
  | nil => exact .nil
  | cons _ rest => exact rest

theorem agree_sees (kind : Kind) : Agree L Eq (sees kind) (sees kind) := by
  intro before twin like
  obtain ⟨first, _, _, _⟩ := before
  obtain ⟨second, _, _, _⟩ := twin
  have rest : List.Forall₂ L.Same first second := like.rest
  cases rest with
  | nil => exact .ok rfl like
  | cons same rest => exact .ok (by rw [same.kind]) like

theorem agree_acceptAny (kinds : List Kind) :
    Agree L (Option.Rel L.Same) (acceptAny? kinds) (acceptAny? kinds) := by
  intro before twin like
  obtain ⟨first, _, _, _⟩ := before
  obtain ⟨second, _, _, _⟩ := twin
  have rest : List.Forall₂ L.Same first second := like.rest
  unfold acceptAny?
  cases rest with
  | nil => exact .ok .none like
  | cons same rest =>
    dsimp only
    rw [same.kind]
    split
    · exact .ok (.some same) ⟨rest, like.endLine, like.nextId, like.steady, like.faults⟩
    · exact .ok .none like

theorem agree_accept (kind : Kind) : Agree L Eq (accept kind) (accept kind) := by
  refine (agree_acceptAny [kind]).map ?_
  intro a b same
  cases same <;> rfl

theorem faultAt_moved {before twin : Progress} (like : before.Like L twin)
    (complaint : ParseComplaint) : (faultAt before complaint).Moved L.line
      (faultAt twin complaint) := by
  obtain ⟨first, _, _, _⟩ := before
  obtain ⟨second, _, _, _⟩ := twin
  have rest : List.Forall₂ L.Same first second := like.rest
  unfold faultAt
  cases rest with
  | nil => exact .parse none complaint like.endLine
  | @cons token token' _ _ same rest =>
    dsimp only
    rw [same.lexeme]
    exact .parse _ complaint same.line

theorem agree_record {fault twin : Fault} (moved : fault.Moved L.line twin) :
    Agree L Eq (record fault) (record twin) := by
  intro before twin like
  refine .ok rfl ⟨like.rest, like.endLine, like.nextId, like.steady, ?_⟩
  exact List.rel_append like.faults (.cons moved .nil)

theorem agree_giveUp (complaint : ParseComplaint) :
    Agree L value (giveUp complaint) (giveUp complaint) :=
  fun _ _ like => .error (faultAt_moved like complaint) like

theorem agree_expect (symbol : Symbol) (place : String) :
    Agree L L.Same (expect symbol place) (expect symbol place) := by
  refine (agree_acceptAny _).bind ?_
  intro a b found
  cases found with
  | none => exact agree_giveUp _
  | some same => exact .pure same

theorem agree_expectName (phrase : String) :
    Agree L L.Same (expectName phrase) (expectName phrase) := by
  refine (agree_acceptAny _).bind ?_
  intro a b found
  cases found with
  | none => exact agree_giveUp _
  | some same => exact .pure same

theorem agree_reference {name name' : Token} (same : L.Same name name') :
    Agree L (Unmarked L.Refers) (reference name) (reference name') := by
  intro before twin like
  refine .ok ?_ ⟨like.rest, like.endLine, ?_, ?_, like.faults⟩
  · intro marks plain
    refine ⟨like.nextId, ?_⟩
    rw [plain.markOf]
    exact ⟨same.kind, same.lexeme, same.line⟩
  · dsimp only
    rw [like.steady _ (Nat.le_refl _), like.nextId]
  · intro id above
    exact like.steady id (Nat.le_of_succ_le above)

/-! ### Lists -/

theorem agree_checkLimit (items : String) (count : Nat) :
    Agree L Eq (checkLimit items count) (checkLimit items count) := by
  intro before twin like
  unfold checkLimit
  split
  · exact agree_record (faultAt_moved like _) like
  · exact .ok rfl like

theorem agree_separated (items : String) {item : Parser α} {item' : Parser β}
    (each : Agree L value item item') (bound count : Nat) :
    Agree L (List.Forall₂ value) (separated items item bound count)
      (separated items item' bound count) := by
  induction bound generalizing count with
  | zero =>
    refine (agree_checkLimit items count).bind fun _ _ _ => each.bind ?_
    exact fun _ _ same => .pure (.cons same .nil)
  | succ bound ih =>
    refine (agree_checkLimit items count).bind fun _ _ _ => each.bind fun _ _ same => ?_
    refine (agree_accept _).bind fun _ _ comma => ?_
    subst comma
    refine .ite Iff.rfl ?_ (.pure (.cons same .nil))
    exact (ih (count + 1)).bind fun _ _ rest => .pure (.cons same rest)

theorem agree_listed (bound : Nat) (items : String) {item : Parser α} {item' : Parser β}
    (each : Agree L value item item') :
    Agree L (List.Forall₂ value) (listed bound items item) (listed bound items item') := by
  refine (agree_sees _).bind fun _ _ closing => ?_
  subst closing
  exact .ite Iff.rfl (.pure .nil) (agree_separated items each bound 0)

/-! ### Expressions -/

variable {whole whole' : Parser Expr}

/-- Rules for expressions. -/
abbrev AgreeExpr (L : Likeness) (first second : Parser Expr) : Prop :=
  Agree L (Unmarked L.LikeExpr) first second

theorem superExpr_agree {keyword keyword' : Token} (same : L.Same keyword keyword') :
    AgreeExpr L (superExpr keyword) (superExpr keyword') := by
  refine (agree_expect _ _).bind fun _ _ _ => (agree_expectName _).bind fun _ _ method => ?_
  exact (agree_reference same).bind fun _ _ refers =>
    .pure fun marks plain => .super (refers marks plain) method

theorem groupingExpr_agree (inner : AgreeExpr L whole whole') :
    AgreeExpr L (groupingExpr whole) (groupingExpr whole') :=
  inner.bind fun _ _ like => (agree_expect _ _).bind fun _ _ _ =>
    .pure fun marks plain => .grouping (like marks plain)

theorem primaryOf_agree (inner : AgreeExpr L whole whole') {token token' : Token}
    (same : L.Same token token') :
    Option.Rel (AgreeExpr L) (primaryOf? whole token) (primaryOf? whole' token') := by
  unfold primaryOf?
  rw [same.kind]
  split
  · exact .some (superExpr_agree same)
  · exact .some ((agree_reference same).map fun _ _ refers marks plain =>
      .this (refers marks plain))
  · exact .some ((agree_reference same).map fun _ _ refers marks plain =>
      .name (refers marks plain))
  · exact .some (groupingExpr_agree inner)
  · cases literal? token.kind with
    | none => exact .none
    | some literal => exact .some (.pure fun _ _ => .literal literal)

theorem primary_agree (inner : AgreeExpr L whole whole') :
    AgreeExpr L (primary whole) (primary whole') := by
  refine agree_peek.bind fun found found' same => ?_
  have starts : Option.Rel (AgreeExpr L) (found.bind (primaryOf? whole))
      (found'.bind (primaryOf? whole')) := by
    cases same with
    | none => exact .none
    | some same => exact primaryOf_agree inner same
  generalize found.bind (primaryOf? whole) = rule, found'.bind (primaryOf? whole') = rule'
    at starts ⊢
  cases starts with
  | none => exact agree_giveUp _
  | some rest => exact agree_skip.bind fun _ _ _ => rest

theorem likeExprs_of_forall {es es' : List Expr}
    (like : List.Forall₂ (Unmarked L.LikeExpr) es es') : Unmarked L.LikeExprs es es' := by
  intro marks plain
  induction like with
  | nil => exact .nil
  | cons first _ ih => exact .cons (first marks plain) ih

theorem postfixes_agree (inner : AgreeExpr L whole whole') (bound : Nat) {e e' : Expr}
    (like : Unmarked L.LikeExpr e e') :
    AgreeExpr L (postfixes whole bound e) (postfixes whole' bound e') := by
  induction bound generalizing e e' with
  | zero => exact .pure like
  | succ bound ih =>
    refine (agree_accept _).bind fun _ _ called => ?_
    subst called
    refine .ite Iff.rfl ?_ ?_
    · refine (agree_listed bound _ inner).bind fun _ _ arguments => ?_
      refine (agree_expect _ _).bind fun _ _ paren => ih ?_
      exact fun marks plain =>
        .call (like marks plain) paren (likeExprs_of_forall arguments marks plain)
    · refine (agree_accept _).bind fun _ _ dotted => ?_
      subst dotted
      refine .ite Iff.rfl ?_ (.pure like)
      exact (agree_expectName _).bind fun _ _ name =>
        ih fun marks plain => .get (like marks plain) name

theorem call_agree (inner : AgreeExpr L whole whole') (bound : Nat) :
    AgreeExpr L (call bound whole) (call bound whole') :=
  (primary_agree inner).bind fun _ _ like => postfixes_agree inner bound like

theorem signs_agree (bound : Nat) : Agree L (List.Forall₂ L.Same) (signs bound) (signs bound) := by
  induction bound with
  | zero => exact .pure .nil
  | succ bound ih =>
    refine (agree_acceptAny _).bind fun found found' same => ?_
    cases same with
    | none => exact .pure .nil
    | some operator => exact ih.bind fun _ _ rest => .pure (.cons operator rest)

theorem unary_agree (inner : AgreeExpr L whole whole') (bound : Nat) :
    AgreeExpr L (unary bound whole) (unary bound whole') := by
  refine (signs_agree bound).bind fun _ _ operators => ?_
  refine (call_agree inner bound).bind fun _ _ like => .pure fun marks plain => ?_
  induction operators with
  | nil => exact like marks plain
  | cons same _ ih => exact .unary same ih

/-- What an operator builds is alike if its operands are. -/
def Builds (L : Likeness) (build : Expr → Token → Expr → Expr) : Prop :=
  ∀ marks left left' operator operator' right right', L.LikeExpr marks left left' →
    L.Same operator operator' → L.LikeExpr marks right right' →
      L.LikeExpr marks (build left operator right) (build left' operator' right')

theorem chain_agree {operand operand' : Parser Expr} {build : Expr → Token → Expr → Expr}
    (inner : AgreeExpr L operand operand') (builds : Builds L build) (operators : List Kind)
    (bound : Nat) {left left' : Expr} (like : Unmarked L.LikeExpr left left') :
    AgreeExpr L (chain operators build operand bound left)
      (chain operators build operand' bound left') := by
  induction bound generalizing left left' with
  | zero => exact .pure like
  | succ bound ih =>
    refine (agree_acceptAny _).bind fun found found' same => ?_
    cases same with
    | none => exact .pure like
    | some operator =>
      refine inner.bind fun _ _ right => ih fun marks plain => ?_
      exact builds marks _ _ _ _ _ _ (like marks plain) operator (right marks plain)

theorem leftAssoc_agree {operand operand' : Parser Expr} {build : Expr → Token → Expr → Expr}
    (inner : AgreeExpr L operand operand') (builds : Builds L build) (operators : List Kind)
    (bound : Nat) :
    AgreeExpr L (leftAssoc bound operators build operand)
      (leftAssoc bound operators build operand') :=
  inner.bind fun _ _ left => chain_agree inner builds operators bound left

theorem disjunction_agree (inner : AgreeExpr L whole whole') (bound : Nat) :
    AgreeExpr L (disjunction bound whole) (disjunction bound whole') := by
  have binary : Builds L Expr.binary := fun _ _ _ _ _ _ _ left operator right =>
    .binary left operator right
  have logical : Builds L Expr.logical := fun _ _ _ _ _ _ _ left operator right =>
    .logical left operator right
  have factor := leftAssoc_agree (unary_agree inner bound) binary
    [.symbol .star, .symbol .slash] bound
  have term := leftAssoc_agree factor binary [.symbol .minus, .symbol .plus] bound
  have comparison := leftAssoc_agree term binary
    [.symbol .greater, .symbol .greaterEqual, .symbol .less, .symbol .lessEqual] bound
  have equality := leftAssoc_agree comparison binary
    [.symbol .bangEqual, .symbol .equalEqual] bound
  have conjunction := leftAssoc_agree equality logical [.keyword .and] bound
  exact leftAssoc_agree conjunction logical [.keyword .or] bound

theorem assignTo_agree {target target' value value' : Expr} {equals equals' : Token}
    (targets : Unmarked L.LikeExpr target target') (same : L.Same equals equals')
    (values : Unmarked L.LikeExpr value value') :
    AgreeExpr L (assignTo target equals value) (assignTo target' equals' value') := by
  have refused {e e' : Expr} (like : Unmarked L.LikeExpr e e') : AgreeExpr L
      (record (.static (.invalidAssignmentTarget equals.line)) >>= fun _ => pure e)
      (record (.static (.invalidAssignmentTarget equals'.line)) >>= fun _ => pure e') :=
    (agree_record (.static (.invalidAssignmentTarget same.line))).bind fun _ _ _ => .pure like
  have plain : Plain [] := fun _ => List.not_mem_nil.elim
  cases targets [] plain with
  | @name use use' refers =>
    have names : L.Same use.name use'.name := by
      obtain ⟨_, names⟩ := refers
      rw [plain.markOf] at names
      exact ⟨names.kind, names.lexeme, names.line⟩
    exact (agree_reference names).bind fun _ _ refers =>
      .pure fun marks plain => .assign (refers marks plain) (values marks plain)
  | get _ name =>
    refine .pure fun marks plain => ?_
    cases targets marks plain with
    | get object name => exact .set object name (values marks plain)
  | literal _ => exact refused targets
  | unary _ _ => exact refused targets
  | binary _ _ _ => exact refused targets
  | logical _ _ _ => exact refused targets
  | grouping _ => exact refused targets
  | assign _ _ => exact refused targets
  | call _ _ _ => exact refused targets
  | set _ _ _ => exact refused targets
  | this _ => exact refused targets
  | super _ _ => exact refused targets

theorem assignment_agree (inner : AgreeExpr L whole whole') (bound : Nat) :
    AgreeExpr L (assignment bound whole) (assignment bound whole') := by
  refine (disjunction_agree inner bound).bind fun _ _ target => ?_
  refine (agree_acceptAny _).bind fun found found' same => ?_
  cases same with
  | none => exact .pure target
  | some equals => exact inner.bind fun _ _ value => assignTo_agree target equals value

theorem expression_agree (bound : Nat) : AgreeExpr L (expression bound) (expression bound) := by
  induction bound with
  | zero => exact agree_giveUp _
  | succ bound ih => exact assignment_agree ih (bound + 1)

/-! ### Statements -/

/-- Rules for statements. -/
abbrev AgreeStmt (L : Likeness) (first second : Parser Stmt) : Prop :=
  Agree L (Unmarked L.LikeStmt) first second

/-- Rules for declarations, which may give nothing. -/
abbrev AgreeDeclaration (L : Likeness) (first second : Parser (Option Stmt)) : Prop :=
  Agree L (Unmarked L.LikeBranch) first second

variable (L) in
structure AgreeRules (rules rules' : Rules) : Prop where
  bound : rules'.bound = rules.bound
  expression : AgreeExpr L rules.expression rules'.expression
  statement : AgreeStmt L rules.statement rules'.statement
  declaration : AgreeDeclaration L rules.declaration rules'.declaration

theorem likeStmts_append {marks : List Bool} {first first' rest rest' : List Stmt}
    (like : L.LikeStmts marks first first') (others : L.LikeStmts marks rest rest') :
    L.LikeStmts marks (first ++ rest) (first' ++ rest') :=
  match like with
  | .nil => others
  | .cons here later => .cons here (likeStmts_append later others)

theorem declarations_agree {declaration declaration' : Parser (Option Stmt)}
    {stop stop' : Parser Bool} (each : AgreeDeclaration L declaration declaration')
    (stops : Agree L Eq stop stop') (bound : Nat) :
    Agree L (Unmarked L.LikeStmts) (declarations declaration stop bound)
      (declarations declaration' stop' bound) := by
  induction bound with
  | zero => exact .pure fun _ _ => .nil
  | succ bound ih =>
    refine agree_atEnd.bind fun _ _ ended => ?_
    subst ended
    refine .ite Iff.rfl (.pure fun _ _ => .nil) (stops.bind fun _ _ stopped => ?_)
    subst stopped
    refine .ite Iff.rfl (.pure fun _ _ => .nil) (each.bind fun _ _ first => ih.bind ?_)
    refine fun _ _ rest => .pure fun marks plain => ?_
    cases first marks plain with
    | none => exact rest marks plain
    | some like => exact likeStmts_append (.cons like .nil) (rest marks plain)

section Rules

variable {rules rules' : Rules}

theorem block_agree (given : AgreeRules L rules rules') :
    Agree L (Unmarked L.LikeStmts) (block rules) (block rules') := by
  unfold block
  rw [given.bound]
  refine (declarations_agree given.declaration (agree_sees _) _).bind fun _ _ body => ?_
  exact (agree_expect _ _).bind fun _ _ _ => .pure body

theorem likeFunction_unmarked {name name' : Token} {params params' : List Token}
    {body body' : List Stmt} (names : L.Same name name')
    (likeParams : List.Forall₂ L.Same params params')
    (likeBody : Unmarked L.LikeStmts body body') :
    Unmarked L.LikeFunction ⟨name, params, body⟩ ⟨name', params', body'⟩ := by
  intro marks plain
  refine .mk false names (likeParams.imp fun _ _ same => ?_) (likeBody _ plain.cons)
  exact ⟨same.kind, same.lexeme, same.line⟩

theorem function_agree (given : AgreeRules L rules rules') (role : String) :
    Agree L (fun f f' => L.Same f.name f'.name ∧ Unmarked L.LikeFunction f f')
      (function rules role) (function rules' role) := by
  unfold function
  rw [given.bound]
  refine (agree_expectName _).bind fun _ _ names => (agree_expect _ _).bind fun _ _ _ => ?_
  refine (agree_listed _ _ (agree_expectName _)).bind fun _ _ params => ?_
  refine (agree_expect _ _).bind fun _ _ _ => (agree_expect _ _).bind fun _ _ _ => ?_
  exact (block_agree given).bind fun _ _ body =>
    .pure ⟨names, likeFunction_unmarked names params body⟩

theorem methods_agree (given : AgreeRules L rules rules') (bound : Nat) :
    Agree L (Unmarked L.LikeFunctions) (methods rules bound) (methods rules' bound) := by
  induction bound with
  | zero => exact .pure fun _ _ => .nil
  | succ bound ih =>
    refine agree_atEnd.bind fun _ _ ended => ?_
    subst ended
    refine .ite Iff.rfl (.pure fun _ _ => .nil) ((agree_sees _).bind fun _ _ closing => ?_)
    subst closing
    refine .ite Iff.rfl (.pure fun _ _ => .nil) ((function_agree given _).bind ?_)
    intro _ _ first
    exact ih.bind fun _ _ rest =>
      .pure fun marks plain => .cons (first.2 marks plain) (rest marks plain)

theorem superclass_agree : Agree L (Unmarked L.LikeSuperclass) superclass superclass := by
  refine (agree_accept _).bind fun _ _ inherits => ?_
  subst inherits
  refine .ite Iff.rfl ?_ (.pure fun _ _ => .none)
  refine (agree_expectName _).bind fun _ _ name => (agree_reference name).bind ?_
  exact fun _ _ refers => .pure fun marks plain => .some (refers marks plain)

theorem names_unmarked {name name' : Token} (same : L.Same name name') {marks : List Bool}
    (plain : Plain marks) : L.Names (innermost marks) name name' := by
  rw [plain.innermost]
  exact ⟨same.kind, same.lexeme, same.line⟩

theorem classDeclaration_agree (given : AgreeRules L rules rules') :
    AgreeStmt L (classDeclaration rules) (classDeclaration rules') := by
  unfold classDeclaration
  rw [given.bound]
  refine (agree_expectName _).bind fun _ _ name => superclass_agree.bind fun _ _ above => ?_
  refine (agree_expect _ _).bind fun _ _ _ => (methods_agree given _).bind fun _ _ body => ?_
  refine (agree_expect _ _).bind fun _ _ _ => .pure fun marks plain => ?_
  exact .classDecl name (names_unmarked name plain) (above marks plain)
    (body _ (plain.classMarks _))

theorem some_agree {first second : Parser Expr} (given : AgreeExpr L first second) :
    Agree L (Unmarked L.LikeOptional) (some <$> first) (some <$> second) :=
  given.map fun _ _ like marks plain => .some (like marks plain)

theorem varDeclaration_agree (given : AgreeRules L rules rules') :
    AgreeStmt L (varDeclaration rules) (varDeclaration rules') := by
  refine (agree_expectName _).bind fun _ _ name => (agree_accept _).bind fun _ _ assigned => ?_
  subst assigned
  have rest {first second : Option Expr} (initializer : Unmarked L.LikeOptional first second) :
      AgreeStmt L
        (expect .semicolon "after variable declaration" >>= fun _ => pure (.var _ first))
        (expect .semicolon "after variable declaration" >>= fun _ => pure (.var _ second)) :=
    (agree_expect _ _).bind fun _ _ _ =>
      .pure fun marks plain => .var (names_unmarked name plain) (initializer marks plain)
  refine .ite Iff.rfl ((some_agree given.expression).bind fun _ _ like => rest like) (rest ?_)
  exact fun _ _ => .none

theorem expressionStatement_agree (given : AgreeRules L rules rules') :
    AgreeStmt L (expressionStatement rules) (expressionStatement rules') :=
  given.expression.bind fun _ _ like => (agree_expect _ _).bind fun _ _ _ =>
    .pure fun marks plain => .expression (like marks plain)

theorem printStatement_agree (given : AgreeRules L rules rules') :
    AgreeStmt L (printStatement rules) (printStatement rules') :=
  given.expression.bind fun _ _ like => (agree_expect _ _).bind fun _ _ _ =>
    .pure fun marks plain => .print (like marks plain)

theorem optionalUnless_agree (given : AgreeRules L rules rules') (closing : Symbol) :
    Agree L (Unmarked L.LikeOptional) (optionalUnless rules closing)
      (optionalUnless rules' closing) := by
  refine (agree_sees _).bind fun _ _ absent => ?_
  subst absent
  exact .ite Iff.rfl (.pure fun _ _ => .none) (some_agree given.expression)

theorem returnStatement_agree (given : AgreeRules L rules rules') {keyword keyword' : Token}
    (same : L.Same keyword keyword') :
    AgreeStmt L (returnStatement rules keyword) (returnStatement rules' keyword') :=
  (optionalUnless_agree given _).bind fun _ _ value => (agree_expect _ _).bind fun _ _ _ =>
    .pure fun marks plain => .ret same (value marks plain)

theorem ifStatement_agree (given : AgreeRules L rules rules') :
    AgreeStmt L (ifStatement rules) (ifStatement rules') := by
  refine (agree_expect _ _).bind fun _ _ _ => given.expression.bind fun _ _ condition => ?_
  refine (agree_expect _ _).bind fun _ _ _ => given.statement.bind fun _ _ thenBranch => ?_
  refine (agree_accept _).bind fun _ _ branches => ?_
  subst branches
  have whole {first second : Option Stmt} (elseBranch : Unmarked L.LikeBranch first second) :
      AgreeStmt L (pure (.conditional _ _ first)) (pure (.conditional _ _ second)) :=
    .pure fun marks plain => .conditional (condition marks plain) (thenBranch marks plain)
      (elseBranch marks plain)
  refine .ite Iff.rfl (Agree.bind ?_ fun _ _ elseBranch => whole elseBranch) (whole ?_)
  · exact given.statement.map fun _ _ like marks plain => .some (like marks plain)
  · exact fun _ _ => .none

theorem whileStatement_agree (given : AgreeRules L rules rules') :
    AgreeStmt L (whileStatement rules) (whileStatement rules') := by
  refine (agree_expect _ _).bind fun _ _ _ => given.expression.bind fun _ _ condition => ?_
  refine (agree_expect _ _).bind fun _ _ _ => given.statement.bind fun _ _ body => ?_
  exact .pure fun marks plain => .loop (condition marks plain) (body marks plain)

theorem forInitializer_agree (given : AgreeRules L rules rules') :
    AgreeDeclaration L (forInitializer rules) (forInitializer rules') := by
  have wrapped {first second : Parser Stmt} (agree : AgreeStmt L first second) :
      AgreeDeclaration L (some <$> first) (some <$> second) :=
    agree.map fun _ _ like marks plain => .some (like marks plain)
  refine (agree_accept _).bind fun _ _ absent => ?_
  subst absent
  refine .ite Iff.rfl (.pure fun _ _ => .none) ((agree_accept _).bind fun _ _ declares => ?_)
  subst declares
  exact .ite Iff.rfl (wrapped (varDeclaration_agree given))
    (wrapped (expressionStatement_agree given))

theorem forBody_like {increment increment' : Option Expr} {body body' : Stmt}
    (likeBody : Unmarked L.LikeStmt body body') :
    Unmarked L.LikeOptional increment increment' → Unmarked L.LikeStmt
      (match increment with
        | some increment => .block [body, .expression increment]
        | none => body)
      (match increment' with
        | some increment => .block [body', .expression increment]
        | none => body') := by
  intro likeIncrement marks plain
  have increments := likeIncrement _ plain.cons
  clear likeIncrement
  cases increments with
  | none => exact likeBody marks plain
  | some like => exact .block false (.cons (likeBody _ plain.cons) (.cons (.expression like) .nil))

theorem forLoop_like {initializer initializer' : Option Stmt}
    {condition condition' increment increment' : Option Expr} {body body' : Stmt}
    (likeInitializer : Unmarked L.LikeBranch initializer initializer')
    (likeCondition : Unmarked L.LikeOptional condition condition')
    (likeIncrement : Unmarked L.LikeOptional increment increment')
    (likeBody : Unmarked L.LikeStmt body body') :
    Unmarked L.LikeStmt (.forLoop initializer condition increment body)
      (.forLoop initializer' condition' increment' body') := by
  intro marks plain
  have bodies := forBody_like likeBody likeIncrement
  have conditions : Unmarked L.LikeExpr (condition.getD (.literal .true))
      (condition'.getD (.literal .true)) := by
    intro marks plain
    cases likeCondition marks plain with
    | none => exact .literal _
    | some like => exact like
  have initializers := likeInitializer _ plain.cons
  clear likeInitializer
  unfold Stmt.forLoop
  cases initializers with
  | none => exact .loop (conditions marks plain) (bodies marks plain)
  | some like =>
    refine .block false (.cons like (.cons ?_ .nil))
    exact .loop (conditions _ plain.cons) (bodies _ plain.cons)

theorem forStatement_agree (given : AgreeRules L rules rules') :
    AgreeStmt L (forStatement rules) (forStatement rules') := by
  refine (agree_expect _ _).bind fun _ _ _ => ?_
  refine (forInitializer_agree given).bind fun _ _ initializer => ?_
  refine (optionalUnless_agree given _).bind fun _ _ condition => ?_
  refine (agree_expect _ _).bind fun _ _ _ => ?_
  refine (optionalUnless_agree given _).bind fun _ _ increment => ?_
  refine (agree_expect _ _).bind fun _ _ _ => given.statement.bind fun _ _ body => ?_
  exact .pure (forLoop_like initializer condition increment body)

theorem anyStatement_agree (given : AgreeRules L rules rules') :
    AgreeStmt L (anyStatement rules) (anyStatement rules') := by
  refine (agree_accept _).bind fun _ _ seen => ?_
  subst seen
  refine .ite Iff.rfl (forStatement_agree given) ((agree_accept _).bind fun _ _ seen => ?_)
  subst seen
  refine .ite Iff.rfl (ifStatement_agree given) ((agree_accept _).bind fun _ _ seen => ?_)
  subst seen
  refine .ite Iff.rfl (whileStatement_agree given) ?_
  refine (agree_acceptAny _).bind fun found found' same => ?_
  cases same with
  | some keyword => exact returnStatement_agree given keyword
  | none =>
    refine (agree_accept _).bind fun _ _ seen => ?_
    subst seen
    refine .ite Iff.rfl ?_ ((agree_accept _).bind fun _ _ seen => ?_)
    · exact (block_agree given).bind fun _ _ body =>
        .pure fun marks plain => .block false (body _ plain.cons)
    · subst seen
      exact .ite Iff.rfl (printStatement_agree given) (expressionStatement_agree given)

theorem anyDeclaration_agree (given : AgreeRules L rules rules') :
    AgreeStmt L (anyDeclaration rules) (anyDeclaration rules') := by
  refine (agree_accept _).bind fun _ _ seen => ?_
  subst seen
  refine .ite Iff.rfl (classDeclaration_agree given) ((agree_accept _).bind fun _ _ seen => ?_)
  subst seen
  refine .ite Iff.rfl ?_ ((agree_accept _).bind fun _ _ seen => ?_)
  · refine (function_agree given _).bind fun _ _ like => .pure fun marks plain => ?_
    exact .function (names_unmarked like.1 plain) (like.2 marks plain)
  · subst seen
    exact .ite Iff.rfl (varDeclaration_agree given) (anyStatement_agree given)

end Rules

/-! ### Recovery and programs -/

theorem resync_agree {tokens tokens' : List Token} (rest : List.Forall₂ L.Same tokens tokens') :
    ∀ {previous previous' : Token}, L.Same previous previous' →
      List.Forall₂ L.Same (resync previous tokens) (resync previous' tokens') := by
  induction rest with
  | nil => exact fun _ => .nil
  | cons here later ih =>
    intro previous previous' same
    unfold resync
    rw [same.kind, here.kind]
    split
    · exact .cons here later
    · split
      · exact .cons here later
      · exact ih here

theorem recover_agree {fault twin : Fault} {before before' : Progress}
    (moved : fault.Moved L.line twin) (like : before.Like L before') :
    (recover fault before).Like L (recover twin before') := by
  obtain ⟨first, _, _, _⟩ := before
  obtain ⟨second, _, _, _⟩ := before'
  have rest : List.Forall₂ L.Same first second := like.rest
  refine ⟨?_, like.endLine, like.nextId, like.steady, ?_⟩
  · cases rest with
    | nil => exact .nil
    | cons same rest => exact resync_agree rest same
  · exact List.rel_append like.faults (.cons moved .nil)

theorem recovering_agree {declaration declaration' : Parser Stmt}
    (given : AgreeStmt L declaration declaration') :
    AgreeDeclaration L (recovering declaration) (recovering declaration') := by
  intro before twin like
  have outcome := given like
  unfold recovering
  generalize declaration before = result, declaration' twin = result' at outcome ⊢
  cases outcome with
  | ok same after => exact .ok (fun marks plain => .some (same marks plain)) after
  | error moved after => exact .ok (fun _ _ => .none) (recover_agree moved after)

theorem statement_declaration_agree (bound : Nat) :
    AgreeStmt L (statement bound) (statement bound) ∧
      AgreeDeclaration L (declaration bound) (declaration bound) := by
  induction bound with
  | zero =>
    rw [statement, declaration]
    exact ⟨agree_giveUp _, recovering_agree (agree_giveUp _)⟩
  | succ bound ih =>
    have rules : AgreeRules L
        ⟨bound + 1, expression (bound + 1), statement bound, declaration bound⟩
        ⟨bound + 1, expression (bound + 1), statement bound, declaration bound⟩ :=
      ⟨rfl, expression_agree _, ih.1, ih.2⟩
    rw [statement, declaration]
    exact ⟨anyStatement_agree rules, recovering_agree (anyDeclaration_agree rules)⟩

theorem program_agree (bound : Nat) :
    Agree L (Unmarked L.LikeStmts) (program bound) (program bound) :=
  declarations_agree (statement_declaration_agree bound).2 (.pure rfl) bound

end Parser

/-- Programs that are alike, or complaints that correspond. -/
inductive ResultLike (L : Likeness) :
    Except (List Fault) (List Stmt) → Except (List Fault) (List Stmt) → Prop
  | ok {program program' : List Stmt} : Unmarked L.LikeStmts program program' →
      ResultLike L (.ok program) (.ok program')
  | error {faults faults' : List Fault} : List.Forall₂ (Fault.Moved L.line) faults faults' →
      ResultLike L (.error faults) (.error faults')

theorem lastLine_like {tokens tokens' : List Token} (like : List.Forall₂ L.Same tokens tokens') :
    L.line (lastLine tokens) (lastLine tokens') := by
  have found : Option.Rel L.Same (tokens.find? (·.kind = .eof)) (tokens'.find? (·.kind = .eof)) := by
    induction like with
    | nil => exact .none
    | cons same _ ih =>
      rw [List.find?_cons, List.find?_cons, same.kind]
      split
      · exact .some same
      · exact ih
  have last : Option.Rel L.Same tokens.getLast? tokens'.getLast? := by
    rw [List.getLast?_eq_head?_reverse, List.getLast?_eq_head?_reverse]
    have reversed := List.rel_reverse like
    generalize tokens.reverse = first, tokens'.reverse = second at reversed ⊢
    cases reversed with
    | nil => exact .none
    | cons same _ => exact .some same
  unfold lastLine
  generalize tokens.find? _ = found, tokens'.find? _ = found' at found ⊢
  generalize tokens.getLast? = last, tokens'.getLast? = last' at last ⊢
  cases found with
  | some same => exact same.line
  | none =>
    cases last with
    | none => exact L.line_refl 1
    | some same => exact same.line

theorem start_like {tokens tokens' : List Token} (like : List.Forall₂ L.Same tokens tokens')
    {firstId : Nat} (steady : ∀ id, firstId ≤ id → L.number (id + 1) = L.number id + 1) :
    (Progress.start tokens firstId).Like L (Progress.start tokens' (L.number firstId)) := by
  refine ⟨?_, lastLine_like like, rfl, steady, .nil⟩
  show List.Forall₂ L.Same (tokens.takeWhile _) (tokens'.takeWhile _)
  induction like with
  | nil => exact .nil
  | cons same _ ih =>
    rw [List.takeWhile_cons, List.takeWhile_cons, same.kind]
    split
    · exact .cons same ih
    · exact .nil

/-- Reading tokens that are alike, with references numbered from corresponding numbers on. -/
theorem parse_like {tokens tokens' : List Token} (like : List.Forall₂ L.Same tokens tokens')
    {firstId : Nat} (steady : ∀ id, firstId ≤ id → L.number (id + 1) = L.number id + 1) :
    ResultLike L (parse tokens firstId).result (parse tokens' (L.number firstId)).result ∧
      (parse tokens' (L.number firstId)).nextId = L.number (parse tokens firstId).nextId := by
  have start := start_like like steady
  have outcome := Parser.program_agree (Progress.start tokens firstId).rest.length start
  have sameLength := start.rest.length_eq
  unfold parse
  dsimp only
  rw [← sameLength]
  generalize Parser.program _ (Progress.start tokens firstId) = result,
    Parser.program _ (Progress.start tokens' _) = result' at outcome ⊢
  cases outcome with
  | @ok program program' first second same after =>
    refine ⟨?_, after.nextId⟩
    have faults := after.faults
    dsimp only
    generalize first.faults = found, second.faults = found' at faults ⊢
    cases faults with
    | nil => exact .ok same
    | cons moved rest => exact .error (.cons moved rest)
  | error moved after =>
    exact ⟨.error (List.rel_append after.faults (.cons moved .nil)), after.nextId⟩

end Tree
end Lox
