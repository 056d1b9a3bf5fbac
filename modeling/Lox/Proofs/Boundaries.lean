import Mathlib
import Lox.Proofs.Recognized

/-! After statements that are read without a complaint, parsing goes on as from a start. No rule knows
how many tokens there were before the next one: the bounds on its loops are never met. -/

namespace Lox.Tree.Parser

/-! ### Rules with enough bound -/

/-- On at most `size` tokens two rules do the same. They put no token back, and where they give
something they have read `least` tokens or more, or all there were. -/
def SameUpTo {α : Type} (size least : Nat) (first second : Parser α) : Prop :=
  ∀ before, before.rest.length ≤ size → first before = second before ∧
    (first before).2.rest.length ≤ before.rest.length ∧
    ∀ value, (first before).1 = .ok value → (first before).2.rest.length ≤ before.rest.length - least

variable {α β : Type} {size least more bound : Nat} {kinds : List Kind} {kind : Kind}

namespace SameUpTo

variable {first second : Parser α} {next next' : α → Parser β}

theorem fewer {smaller less : Nat} (same : SameUpTo size least first second)
    (below : smaller ≤ size) (fewer : less ≤ least) : SameUpTo smaller less first second := by
  intro before few
  obtain ⟨eq, shorter, read⟩ := same before (few.trans below)
  exact ⟨eq, shorter, fun value given => (read value given).trans (by omega)⟩

theorem symm (same : SameUpTo size least first second) : SameUpTo size least second first := by
  intro before few
  obtain ⟨eq, shorter, read⟩ := same before few
  rw [eq] at shorter read
  exact ⟨eq.symm, shorter, read⟩

theorem trans {third : Parser α} (same : SameUpTo size least first second)
    (same' : SameUpTo size least second third) : SameUpTo size least first third := by
  intro before few
  obtain ⟨eq, shorter, read⟩ := same before few
  exact ⟨eq.trans (same' before few).1, shorter, read⟩

/-- With no token left there is none to be read. -/
theorem empty (same : ∀ endLine next faults,
    first ⟨[], endLine, next, faults⟩ = second ⟨[], endLine, next, faults⟩ ∧
      (first ⟨[], endLine, next, faults⟩).2.rest = []) : SameUpTo 0 least first second := by
  rintro ⟨_ | ⟨token, rest⟩, endLine, next, faults⟩ few
  · obtain ⟨eq, none⟩ := same endLine next faults
    rw [none]
    exact ⟨eq, le_rfl, fun _ _ => Nat.zero_le _⟩
  · exact absurd few (Nat.not_succ_le_zero _)

theorem pure (value : α) : SameUpTo size 0 (Pure.pure value : Parser α) (Pure.pure value) :=
  fun _ _ => ⟨rfl, le_rfl, fun _ _ => le_rfl⟩

theorem giveUp (complaint : ParseComplaint) :
    SameUpTo size least (giveUp complaint : Parser α) (Parser.giveUp complaint) :=
  fun _ _ => ⟨rfl, le_rfl, nofun⟩

theorem bind (earlier : SameUpTo size least first second)
    (later : ∀ value, SameUpTo (size - least) more (next value) (next' value)) :
    SameUpTo size (least + more) (first >>= next) (second >>= next') := by
  intro before few
  obtain ⟨same, shorter, read⟩ := earlier before few
  rw [bind_apply, bind_apply, ← same]
  rcases ran : first before with ⟨fault | value, middle⟩ <;> rw [ran] at shorter read
  · exact ⟨rfl, shorter, nofun⟩
  · have left : middle.rest.length ≤ before.rest.length - least := read value rfl
    obtain ⟨same', shorter', read'⟩ := later value middle (left.trans (Nat.sub_le_sub_right few _))
    refine ⟨same', shorter'.trans shorter, fun other given => (read' other given).trans ?_⟩
    rw [← Nat.sub_sub]
    exact Nat.sub_le_sub_right left _

theorem before (earlier : SameUpTo size least first second)
    (later : ∀ value, SameUpTo size 0 (next value) (next' value)) :
    SameUpTo size least (first >>= next) (second >>= next') :=
  earlier.bind fun value => (later value).fewer (Nat.sub_le _ _) le_rfl

theorem after (earlier : SameUpTo size least first second)
    (later : ∀ value, SameUpTo size more (next value) (next' value)) :
    SameUpTo size more (first >>= next) (second >>= next') :=
  (earlier.bind fun value => (later value).fewer (Nat.sub_le _ _) le_rfl).fewer le_rfl
    (Nat.le_add_left _ _)

theorem map (same : SameUpTo size least first second) (f : α → β) :
    SameUpTo size least (f <$> first) (f <$> second) :=
  same.before fun value => .pure (f value)

theorem ite {yes yes' no no' : Parser α} (taken : SameUpTo size least yes yes')
    (left : SameUpTo size least no no') (which : Bool) :
    SameUpTo size least (if which = true then yes else no)
      (if which = true then yes' else no') := by
  cases which with
  | true => exact taken
  | false => exact left

/-- Two ways to go on, of which one is taken after a token. -/
theorem choose {next next' : Option Token → Parser β}
    (found : ∀ token, SameUpTo (size - 1) (least - 1) (next (some token)) (next' (some token)))
    (none : SameUpTo size least (next none) (next' none)) :
    SameUpTo size least (acceptAny? kinds >>= next) (acceptAny? kinds >>= next') := by
  rintro ⟨_ | ⟨token, rest⟩, endLine, first, faults⟩ few
  · exact none _ few
  · rw [bind_apply, bind_apply]
    by_cases member : token.kind ∈ kinds
    · simp only [acceptAny?, member, if_true]
      simp only [List.length_cons] at few ⊢
      obtain ⟨same, shorter, read⟩ :=
        found token ⟨rest, endLine, first, faults⟩ (Nat.le_sub_one_of_lt few)
      refine ⟨same, shorter.trans (Nat.le_succ _), fun value given => (read value given).trans ?_⟩
      dsimp only
      omega
    · simp only [acceptAny?, member, if_false]
      exact none _ few

end SameUpTo

theorem accept_bind (next : Bool → Parser β) :
    (accept kind >>= next) = acceptAny? [kind] >>= fun found => next found.isSome := by
  funext before
  unfold accept
  simp only [bind_apply, map_apply]
  rcases acceptAny? [kind] before with ⟨fault | found, after⟩ <;> rfl

namespace SameUpTo

variable {yes yes' no no' : Parser β}

theorem choice (taken : SameUpTo (size - 1) (least - 1) yes yes')
    (left : SameUpTo size least no no') :
    SameUpTo size least (accept kind >>= fun seen => if seen = true then yes else no)
      (accept kind >>= fun seen => if seen = true then yes' else no') := by
  rw [accept_bind, accept_bind]
  exact choose (fun _ => taken) left

/-- What may be left out, with what comes after it either way. -/
theorem option {parser parser' : Parser α} {next next' : Option α → Parser β}
    (reads : SameUpTo (size - 1) least parser parser')
    (after : ∀ found, SameUpTo size 0 (next found) (next' found)) :
    SameUpTo size 0
      (accept kind >>= fun seen =>
        if seen = true then some <$> parser >>= next else Pure.pure none >>= next)
      (accept kind >>= fun seen =>
        if seen = true then some <$> parser' >>= next' else Pure.pure none >>= next') :=
  choice ((reads.map some).after fun found => (after found).fewer (Nat.sub_le _ _) le_rfl)
    (after none)

/-- With no token left a loop stops, whatever its bound. -/
theorem ended {next : Option Token → Parser β} (stops : SameUpTo 0 least (next none) yes) :
    SameUpTo 0 least (acceptAny? kinds >>= next) yes := by
  rintro ⟨_ | ⟨token, rest⟩, endLine, first, faults⟩ few
  · exact stops _ few
  · exact absurd few (Nat.not_succ_le_zero _)

end SameUpTo

theorem sees_same (kind : Kind) : SameUpTo size 0 (sees kind) (sees kind) := by
  intro before _
  have still : (sees kind before).2 = before := by
    unfold sees
    split <;> rfl
  exact ⟨rfl, by rw [still], fun _ _ => by rw [still, Nat.sub_zero]⟩

theorem atEnd_same : SameUpTo size 0 atEnd atEnd := fun _ _ => ⟨rfl, le_rfl, fun _ _ => le_rfl⟩

theorem expect_same (sign : Symbol) (place : String) :
    SameUpTo size 1 (expect sign place) (expect sign place) :=
  .choose (fun token => .pure token) (.giveUp _)

theorem expectName_same (phrase : String) :
    SameUpTo size 1 (expectName phrase) (expectName phrase) :=
  .choose (fun token => .pure token) (.giveUp _)

theorem reference_same (name : Token) : SameUpTo size 0 (reference name) (reference name) :=
  fun _ _ => ⟨rfl, le_rfl, fun _ _ => le_rfl⟩

theorem record_same (fault : Fault) : SameUpTo size 0 (record fault) (record fault) :=
  fun _ _ => ⟨rfl, le_rfl, fun _ _ => le_rfl⟩

theorem checkLimit_same (items : String) (count : Nat) :
    SameUpTo size 0 (checkLimit items count) (checkLimit items count) := by
  intro before few
  unfold checkLimit
  split
  · exact record_same _ before few
  · exact ⟨rfl, le_rfl, fun _ _ => le_rfl⟩

/-! ### Lists and operators -/

variable {item item' : Parser α}

theorem separated_same (items : String) : ∀ {size} bound count, SameUpTo size 1 item item' →
    size ≤ bound →
      SameUpTo size 0 (separated items item (bound + 1) count) (separated items item' bound count)
  | _, 0, count, inner, few => by
    obtain rfl := Nat.le_zero.mp few
    refine (checkLimit_same items count).after fun _ => inner.after fun first => ?_
    rw [accept_bind]
    exact .ended (.pure [first])
  | size, bound + 1, count, inner, few => by
    have later := separated_same items bound (count + 1) (inner.fewer (Nat.sub_le size 1) le_rfl)
      (by omega)
    exact (checkLimit_same items count).after fun _ => inner.after fun first =>
      .choice (later.before fun _ => .pure _) (.pure [first])

theorem listed_same (items : String) (inner : SameUpTo size 1 item item') (few : size ≤ bound) :
    SameUpTo size 0 (listed (bound + 1) items item) (listed bound items item') :=
  (sees_same _).before fun none => .ite (.pure []) (separated_same items bound 0 inner few) none

section Expressions

variable {operand operand' whole whole' : Parser Expr}

theorem chain_same (operators : List Kind) (build : Expr → Token → Expr → Expr) :
    ∀ {size} bound left, SameUpTo (size - 1) 1 operand operand' → size ≤ bound →
      SameUpTo size 0 (chain operators build operand (bound + 1) left)
        (chain operators build operand' bound left)
  | _, 0, left, _, few => by
    obtain rfl := Nat.le_zero.mp few
    exact .ended (.pure left)
  | size, bound + 1, left, inner, few =>
    .choose (fun operator => inner.after fun right =>
      chain_same operators build bound (build left operator right)
        (inner.fewer (Nat.sub_le _ _) le_rfl) (by omega)) (.pure left)

theorem leftAssoc_same (operators : List Kind) (build : Expr → Token → Expr → Expr)
    (inner : SameUpTo size 1 operand operand') (few : size ≤ bound) :
    SameUpTo size 1 (leftAssoc (bound + 1) operators build operand)
      (leftAssoc bound operators build operand') :=
  inner.before fun left =>
    chain_same operators build bound left (inner.fewer (Nat.sub_le _ _) le_rfl) few

theorem signs_same : ∀ {size} bound, size ≤ bound →
    SameUpTo size 0 (signs (bound + 1)) (signs bound)
  | _, 0, few => by
    obtain rfl := Nat.le_zero.mp few
    exact .ended (.pure [])
  | _, bound + 1, _ =>
    .choose (fun _ => (signs_same bound (by omega)).before fun _ => .pure _) (.pure [])

variable (inner : SameUpTo (size - 1) 1 whole whole')
include inner

theorem primaryOf_same (token : Token) :
    Option.Rel (SameUpTo (size - 1) 0) (primaryOf? whole token) (primaryOf? whole' token) := by
  unfold primaryOf?
  split
  · exact .some ((expect_same _ _).after fun _ => (expectName_same _).after fun _ =>
      (reference_same token).before fun _ => .pure _)
  · exact .some ((reference_same token).map _)
  · exact .some ((reference_same token).map _)
  · exact .some (inner.after fun _ => (expect_same _ _).after fun _ => .pure _)
  · cases literal? token.kind with
    | none => exact .none
    | some literal => exact .some (.pure (Expr.literal literal))

theorem primary_same : SameUpTo size 1 (primary whole) (primary whole') := by
  rintro ⟨_ | ⟨token, rest⟩, endLine, first, faults⟩ few
  · exact SameUpTo.giveUp _ _ few
  · have starts := primaryOf_same inner token
    simp only [primary, bind_apply, peek?, List.head?_cons, Option.bind_some]
    generalize primaryOf? whole token = rule, primaryOf? whole' token = rule' at starts ⊢
    cases starts with
    | none => exact SameUpTo.giveUp _ _ few
    | some same =>
      simp only [bind_apply, skip, List.tail_cons, List.length_cons] at few ⊢
      obtain ⟨eq, shorter, _⟩ := same ⟨rest, endLine, first, faults⟩ (Nat.le_sub_one_of_lt few)
      exact ⟨eq, shorter.trans (Nat.le_succ _), fun _ _ => shorter⟩

omit inner in
theorem postfixes_same : ∀ {size} bound expr, SameUpTo (size - 1) 1 whole whole' → size ≤ bound →
    SameUpTo size 0 (postfixes whole (bound + 1) expr) (postfixes whole' bound expr)
  | _, 0, expr, _, few => by
    obtain rfl := Nat.le_zero.mp few
    unfold postfixes
    rw [accept_bind]
    refine .ended ?_
    simp only [Option.isSome_none, Bool.false_eq_true, if_false]
    rw [accept_bind]
    exact .ended (.pure expr)
  | size, bound + 1, expr, inner, few =>
    have further (expr : Expr) : SameUpTo (size - 1) 0 (postfixes whole (bound + 1) expr)
        (postfixes whole' bound expr) :=
      postfixes_same bound expr (inner.fewer (Nat.sub_le _ _) le_rfl) (by omega)
    .choice ((listed_same "arguments" inner (by omega)).after fun _ =>
        (expect_same _ _).after fun _ => further _)
      (.choice ((expectName_same _).after fun _ => further _) (.pure expr))

theorem unary_same (few : size ≤ bound) :
    SameUpTo size 1 (unary (bound + 1) whole) (unary bound whole') :=
  (signs_same bound few).after fun _ =>
    ((primary_same inner).before fun expr => postfixes_same bound expr inner few).before
      fun _ => .pure _

theorem disjunction_same (few : size ≤ bound) :
    SameUpTo size 1 (disjunction (bound + 1) whole) (disjunction bound whole') :=
  have factor := leftAssoc_same [.symbol .star, .symbol .slash] Expr.binary
    (unary_same inner few) few
  have term := leftAssoc_same [.symbol .minus, .symbol .plus] Expr.binary factor few
  have comparison := leftAssoc_same
    [.symbol .greater, .symbol .greaterEqual, .symbol .less, .symbol .lessEqual] Expr.binary term few
  have equality := leftAssoc_same [.symbol .bangEqual, .symbol .equalEqual] Expr.binary comparison few
  have conjunction := leftAssoc_same [.keyword .and] Expr.logical equality few
  leftAssoc_same [.keyword .or] Expr.logical conjunction few

omit inner in
theorem assignTo_same (target : Expr) (equals : Token) (value : Expr) :
    SameUpTo size 0 (assignTo target equals value) (assignTo target equals value) := by
  unfold assignTo
  split
  · exact (reference_same _).before fun _ => .pure _
  · exact .pure _
  · exact (record_same _).before fun _ => .pure _

theorem assignment_same (few : size ≤ bound) :
    SameUpTo size 1 (assignment (bound + 1) whole) (assignment bound whole') :=
  (disjunction_same inner few).before fun target =>
    .choose (fun equals => inner.after fun value => assignTo_same target equals value) (.pure target)

omit inner in
theorem expression_same : ∀ {size} bound, size ≤ bound →
    SameUpTo size 1 (expression (bound + 1)) (expression bound)
  | _, 0, few => by
    obtain rfl := Nat.le_zero.mp few
    exact .empty fun _ _ _ => ⟨rfl, rfl⟩
  | _, bound + 1, few => assignment_same (expression_same bound (by omega)) few

end Expressions

/-! ### Statements -/

/-- Declarations are read one after the other, each from at least one token. -/
theorem declarations_same {declaration declaration' : Parser (Option Stmt)} {stop : Parser Bool}
    (stops : ∀ size, SameUpTo size 0 stop stop) : ∀ {size} bound,
      SameUpTo size 1 declaration declaration' → size ≤ bound →
        SameUpTo size 0 (declarations declaration stop (bound + 1))
          (declarations declaration' stop bound)
  | _, 0, inner, few => by
    obtain rfl := Nat.le_zero.mp few
    exact .empty fun _ _ _ => ⟨rfl, rfl⟩
  | size, bound + 1, inner, few => by
    have later := declarations_same stops bound (inner.fewer (Nat.sub_le size 1) le_rfl) (by omega)
    refine atEnd_same.before fun none => .ite (.pure []) ((stops size).before fun stopped =>
      .ite (.pure []) ?_ stopped) none
    exact (inner.bind fun _ => later.before fun _ => .pure _).fewer le_rfl (Nat.zero_le _)

/-- The rules that a statement is made of are the same, and so bounded that they read all there is. -/
structure Rules.SameUpTo (size : Nat) (rules rules' : Rules) : Prop where
  bound : rules.bound = rules'.bound + 1
  enough : size ≤ rules'.bound
  expression : Parser.SameUpTo size 1 rules.expression rules'.expression
  statement : Parser.SameUpTo size 1 rules.statement rules'.statement
  declaration : Parser.SameUpTo size 1 rules.declaration rules'.declaration

section Statements

variable {rules rules' : Rules} (same : rules.SameUpTo size rules')
include same

theorem block_same : SameUpTo size 0 (block rules) (block rules') := by
  unfold block
  rw [same.bound]
  exact (declarations_same (fun _ => sees_same _) _ same.declaration same.enough).before fun _ =>
    (expect_same _ _).after fun _ => .pure _

theorem function_same (role : String) :
    SameUpTo size 1 (function rules role) (function rules' role) := by
  unfold function
  rw [same.bound]
  exact (expectName_same _).before fun _ => (expect_same _ _).after fun _ =>
    (listed_same "parameters" (expectName_same _) same.enough).before fun _ =>
    (expect_same _ _).after fun _ => (expect_same _ _).after fun _ => (block_same same).before
    fun _ => .pure _

omit same in
theorem Rules.SameUpTo.fewer {smaller : Nat} (same : rules.SameUpTo size rules')
    (below : smaller ≤ size) : rules.SameUpTo smaller rules' where
  bound := same.bound
  enough := below.trans same.enough
  expression := same.expression.fewer below le_rfl
  statement := same.statement.fewer below le_rfl
  declaration := same.declaration.fewer below le_rfl

omit same in
theorem methods_same : ∀ {size} bound, rules.SameUpTo size rules' → size ≤ bound →
    SameUpTo size 0 (methods rules (bound + 1)) (methods rules' bound)
  | _, 0, _, few => by
    obtain rfl := Nat.le_zero.mp few
    exact .empty fun _ _ _ => ⟨rfl, rfl⟩
  | size, bound + 1, same, few => by
    have later := methods_same bound (same.fewer (Nat.sub_le size 1)) (by omega)
    refine atEnd_same.before fun none => .ite (.pure []) ((sees_same _).before fun stopped =>
      .ite (.pure []) ?_ stopped) none
    exact ((function_same same "method").bind fun _ => later.before fun _ => .pure _).fewer le_rfl
      (Nat.zero_le _)

theorem classDeclaration_same :
    SameUpTo size 0 (classDeclaration rules) (classDeclaration rules') := by
  have inherits : SameUpTo size 0 superclass superclass :=
    .choice ((expectName_same _).after fun name => (reference_same name).before fun _ => .pure _)
      (.pure none)
  unfold classDeclaration
  rw [same.bound]
  exact (expectName_same _).after fun _ => inherits.before fun _ => (expect_same _ _).after fun _ =>
    (methods_same _ same same.enough).before fun _ => (expect_same _ _).after fun _ => .pure _

theorem varDeclaration_same : SameUpTo size 0 (varDeclaration rules) (varDeclaration rules') :=
  (expectName_same _).after fun _ => .option (same.expression.fewer (Nat.sub_le _ _) le_rfl) fun _ =>
    (expect_same _ _).after fun _ => .pure _

omit same in
theorem expressionStatement_same (inner : SameUpTo size 1 rules.expression rules'.expression) :
    SameUpTo size 1 (expressionStatement rules) (expressionStatement rules') :=
  inner.before fun _ => (expect_same _ _).after fun _ => .pure _

theorem optionalUnless_same (closing : Symbol) :
    SameUpTo size 0 (optionalUnless rules closing) (optionalUnless rules' closing) :=
  (sees_same _).before fun none => .ite (.pure _)
    ((same.expression.map some).fewer le_rfl (Nat.zero_le _)) none

theorem ifStatement_same : SameUpTo size 0 (ifStatement rules) (ifStatement rules') :=
  (expect_same _ _).after fun _ => same.expression.after fun _ => (expect_same _ _).after fun _ =>
    same.statement.after fun _ => .option (same.statement.fewer (Nat.sub_le _ _) le_rfl) fun _ =>
    .pure _

theorem whileStatement_same : SameUpTo size 0 (whileStatement rules) (whileStatement rules') :=
  (expect_same _ _).after fun _ => same.expression.after fun _ => (expect_same _ _).after fun _ =>
    same.statement.after fun _ => .pure _

theorem forInitializer_same : SameUpTo size 0 (forInitializer rules) (forInitializer rules') :=
  .choice (.pure _) (.choice ((varDeclaration_same (same.fewer (Nat.sub_le _ _))).map some)
    (((expressionStatement_same same.expression).map some).fewer le_rfl (Nat.zero_le _)))

theorem forStatement_same : SameUpTo size 0 (forStatement rules) (forStatement rules') :=
  (expect_same _ _).after fun _ => (forInitializer_same same).before fun _ =>
    (optionalUnless_same same _).before fun _ => (expect_same _ _).after fun _ =>
    (optionalUnless_same same _).before fun _ => (expect_same _ _).after fun _ =>
    same.statement.after fun _ => .pure _

end Statements

section Rules

variable {rules rules' : Rules} (same : rules.SameUpTo (size - 1) rules')
  (inner : SameUpTo size 1 rules.expression rules'.expression)
include same inner

theorem anyStatement_same : SameUpTo size 1 (anyStatement rules) (anyStatement rules') :=
  .choice (forStatement_same same) <| .choice (ifStatement_same same) <|
    .choice (whileStatement_same same) <| .choose (fun _ => (optionalUnless_same same _).before
      fun _ => (expect_same _ _).after fun _ => .pure _) <|
    .choice ((block_same same).map _) <| .choice (same.expression.after fun _ =>
      (expect_same _ _).after fun _ => .pure _) <| expressionStatement_same inner

theorem anyDeclaration_same : SameUpTo size 1 (anyDeclaration rules) (anyDeclaration rules') :=
  .choice (classDeclaration_same same) <| .choice (((function_same same "function").map _).fewer
      le_rfl (Nat.zero_le _)) <| .choice (varDeclaration_same same) <| anyStatement_same same inner

end Rules

theorem resync_length (previous : Token) (rest : List Token) :
    (resync previous rest).length ≤ rest.length := by
  induction rest generalizing previous with
  | nil => exact le_rfl
  | cons token rest ih =>
    unfold resync
    split
    · exact le_rfl
    · split
      · exact le_rfl
      · exact (ih token).trans (Nat.le_succ _)

/-- A declaration that gives up skips the token in its way. -/
theorem recovering_same {declaration declaration' : Parser Stmt}
    (inner : SameUpTo size 1 declaration declaration') :
    SameUpTo size 1 (recovering declaration) (recovering declaration') := by
  intro before few
  obtain ⟨same, shorter, read⟩ := inner before few
  unfold recovering
  rw [← same]
  rcases ran : declaration before with ⟨fault | value, after⟩ <;> rw [ran] at shorter read
  · have skipped : (recover fault after).rest.length ≤ after.rest.length - 1 := by
      unfold recover
      cases after.rest with
      | nil => exact le_rfl
      | cons token rest => exact resync_length token rest
    refine ⟨rfl, skipped.trans ?_, fun _ _ => skipped.trans ?_⟩ <;> dsimp only at shorter <;> omega
  · exact ⟨rfl, shorter, fun _ _ => read value rfl⟩

theorem statement_declaration_same : ∀ {size} bound, size ≤ bound →
    SameUpTo size 1 (statement (bound + 1)) (statement bound) ∧
      SameUpTo size 1 (declaration (bound + 1)) (declaration bound)
  | _, 0, few => by
    obtain rfl := Nat.le_zero.mp few
    exact ⟨.empty fun _ _ _ => ⟨rfl, rfl⟩, .empty fun _ _ _ => ⟨rfl, rfl⟩⟩
  | size, bound + 1, few => by
    have below : size - 1 ≤ bound := by omega
    obtain ⟨statement, declaration⟩ := statement_declaration_same bound below
    have whole := expression_same (bound + 1) few
    have same : Rules.SameUpTo (size - 1) (rulesAt (bound + 1)) (rulesAt bound) :=
      ⟨rfl, by exact below.trans (Nat.le_succ _), whole.fewer (Nat.sub_le _ _) le_rfl, statement,
        declaration⟩
    exact ⟨anyStatement_same same whole, recovering_same (anyDeclaration_same same whole)⟩

/-! ### Programs -/

theorem declaration_same {small large : Nat} (few : size ≤ small) (below : small ≤ large) :
    SameUpTo size 1 (declaration large) (declaration small) := by
  have step (bound : Nat) (few : size ≤ bound) := (statement_declaration_same bound few).2
  induction large, below using Nat.le_induction with
  | base => exact (step small few).symm.trans (step small few)
  | succ large below ih => exact (step large (few.trans below)).trans ih

/-- However many more declarations there might have been, those that are left are read as a program. -/
theorem declarations_program {inner : Nat} {before : Progress} (few : before.rest.length ≤ inner)
    (below : inner ≤ bound) :
    declarations (declaration bound) (pure false) inner before =
      program before.rest.length before := by
  have stops (size : Nat) : SameUpTo size 0 (pure false : Parser Bool) (pure false) := .pure false
  have inside := declaration_same le_rfl (few.trans below)
  have itself := inside.trans inside.symm
  suffices same : SameUpTo before.rest.length 0 (declarations (declaration bound) (pure false) inner)
      (program before.rest.length) from (same before le_rfl).1
  clear below
  induction inner, few using Nat.le_induction with
  | base =>
    have one := declarations_same stops _ itself le_rfl
    exact one.symm.trans (declarations_same stops _ inside le_rfl)
  | succ inner few ih => exact (declarations_same stops _ itself few).trans ih

/-- What is left after declarations is read as a program. -/
theorem ReadAs.followed {parts : List (List Token)} {values : List Stmt} {first next : Nat}
    (read : ReadAs parts first values next) {rest : List Token} (clear : Clear [.keyword .else] rest)
    (endLine : Nat) (faults : List Fault) :
    Parser.program (parts.flatten ++ rest).length ⟨parts.flatten ++ rest, endLine, first, faults⟩ =
      ((values ++ ·) <$> Parser.program rest.length) ⟨rest, endLine, next, faults⟩ := by
  have enough : parts.flatten.length ≤ (parts.flatten ++ rest).length := by simp
  have room := (read _ _ le_rfl le_rfl [] endLine faults clear_nil).1
  have left : rest.length ≤ (parts.flatten ++ rest).length - parts.length := by
    rw [List.length_append]
    omega
  have further := @declarations_program _ _ ⟨rest, endLine, next, faults⟩ left (Nat.sub_le _ _)
  rw [Parser.program, (read _ _ enough enough rest endLine faults clear).2, map_apply, map_apply,
    further]

end Lox.Tree.Parser

namespace Lox.Tree

variable {p q : List Token} {first : Nat} {program : List Stmt}

theorem rest_append (unended : ∀ token ∈ p, token.kind ≠ .eof) (first : Nat) :
    (Progress.start (p ++ q) first).rest = p ++ (Progress.start q first).rest :=
  List.takeWhile_append_of_pos fun token member => decide_eq_true (unended token member)

theorem start_rest (unended : ∀ token ∈ p, token.kind ≠ .eof) (first : Nat) :
    (Progress.start p first).rest = p :=
  List.takeWhile_eq_self_iff.mpr fun token member => decide_eq_true (unended token member)

/-- What comes before the end of the source has no say in where that is. -/
theorem lastLine_append (unended : ∀ token ∈ p, token.kind ≠ .eof) (more : q ≠ []) :
    lastLine (p ++ q) = lastLine q := by
  have none : p.find? (·.kind = .eof) = none := by
    rw [List.find?_eq_none]
    exact fun token member => by simpa using unended token member
  unfold lastLine
  rw [List.find?_append, none, Option.none_or, List.getLast?_append_of_ne_nil p more]

theorem start_append (unended : ∀ token ∈ p, token.kind ≠ .eof) (more : q ≠ []) (first : Nat) :
    Progress.start (p ++ q) first = ⟨p ++ (Progress.start q first).rest, lastLine q, first, []⟩ := by
  rw [← rest_append unended first, ← lastLine_append unended more]
  rfl

theorem clear_start (clear : ∀ token, q.head? = some token → token.kind ≠ .keyword .else)
    (first : Nat) : Parser.Clear [.keyword .else] (Progress.start q first).rest := by
  unfold Progress.start
  cases q with
  | nil => exact Parser.clear_nil
  | cons token rest =>
    by_cases ended : token.kind = .eof
    · rw [List.takeWhile_cons_of_neg (by simp [ended])]
      exact Parser.clear_nil
    · rw [List.takeWhile_cons_of_pos (by simp [ended]), Parser.clear_cons, List.mem_singleton]
      exact clear token rfl

/-- What is accepted is made of declarations that are read so wherever they stand. -/
theorem readAs_of_parsed {tokens : List Token} (parsed : (parse tokens first).result = .ok program) :
    ∃ parts, (Progress.start tokens first).rest = parts.flatten ∧
      (∀ part ∈ parts, part ∈ Grammar.derived .declaration) ∧
      Parser.ReadAs parts first program (parse tokens first).nextId := by
  obtain ⟨parts, whole, each⟩ := parse_derived parsed
  obtain ⟨values, next, read⟩ := Parser.readAs_of_derived each first
  have start : Progress.start tokens first = ⟨parts.flatten, lastLine tokens, first, []⟩ :=
    congrArg (Progress.mk · _ _ _) whole
  have accepted : parse tokens first = ⟨.ok values, next⟩ := by
    unfold parse
    rw [start]
    dsimp only
    rw [read.program]
  rw [accepted] at parsed ⊢
  cases parsed
  exact ⟨parts, whole, each, read⟩

/-- Declarations, and whatever is parsed after them. -/
theorem parse_followed {parts : List (List Token)} {next : Nat}
    (read : Parser.ReadAs parts first program next)
    (unended : ∀ token ∈ parts.flatten, token.kind ≠ .eof) (more : q ≠ [])
    (clear : Parser.Clear [.keyword .else] (Progress.start q next).rest) :
    parse (parts.flatten ++ q) first =
      ⟨(parse q next).result.map (program ++ ·), (parse q next).nextId⟩ := by
  have goes := read.followed clear (lastLine q) []
  have joined : Progress.start (parts.flatten ++ q) first =
      ⟨parts.flatten ++ (Progress.start q next).rest, lastLine q, first, []⟩ :=
    start_append unended more first
  have alone : Progress.start q next = ⟨(Progress.start q next).rest, lastLine q, next, []⟩ := rfl
  unfold parse
  rw [joined]
  dsimp only
  rw [goes, Parser.map_apply, ← alone]
  rcases Parser.program (Progress.start q next).rest.length (Progress.start q next) with
    ⟨fault | values, after⟩
  · rfl
  · cases after.faults <;> rfl

/-- Where tokens that are accepted on their own end, parsing goes on as from a start: what follows is
read as it is on its own from the next number on, with the same complaints. It must not start with an
`else`, which might still belong to what came before. -/
theorem parse_after (unended : ∀ token ∈ p, token.kind ≠ .eof)
    (clear : ∀ token, q.head? = some token → token.kind ≠ .keyword .else)
    (parsed : (parse p first).result = .ok program) :
    parse (p ++ q) first =
      { nextId := (parse q (parse p first).nextId).nextId
        result := (parse q (parse p first).nextId).result.map (program ++ ·) } := by
  cases q with
  | nil =>
    have none (first : Nat) : parse [] first = ⟨.ok [], first⟩ := rfl
    rw [List.append_nil, none]
    simp only [Except.map, List.append_nil, ← parsed]
  | cons token rest =>
    obtain ⟨parts, whole, _, read⟩ := readAs_of_parsed parsed
    obtain rfl : p = parts.flatten := (start_rest unended first).symm.trans whole
    exact parse_followed read unended (List.cons_ne_nil _ _) (clear_start clear _)

/-- A block, and after it two statements that are both complained of. -/
theorem parse_after_of_block : ∃ p q : List Token, ∃ program faults,
    p.map Token.kind = [.symbol .leftBrace, .symbol .rightBrace] ∧
    q.map Token.kind = [.identifier, .identifier, .symbol .semicolon, .keyword .if, .identifier, .eof] ∧
    (parse p 3).result = .ok program ∧ faults.length = 2 ∧
    parse q (parse p 3).nextId = ⟨.error faults, 4⟩ ∧ parse (p ++ q) 3 = ⟨.error faults, 4⟩ := by
  let p : List Token := [⟨.symbol .leftBrace, "\x7b", 1⟩, ⟨.symbol .rightBrace, "\x7d", 1⟩]
  let q : List Token := [⟨.identifier, "a", 2⟩, ⟨.identifier, "b", 2⟩, ⟨.symbol .semicolon, ";", 2⟩,
    ⟨.keyword .if, "if", 3⟩, ⟨.identifier, "c", 3⟩, Token.eof 4]
  have parsed : (parse p 3).result = .ok [.block []] := by cbv
  have alone : parse q (parse p 3).nextId =
      ⟨.error [.parse 2 (some "b") (.missing .semicolon "after expression"),
        .parse 3 (some "c") (.missing .leftParen "after 'if'")], 4⟩ := by cbv
  have both := parse_after (q := q) (by decide) (by decide) parsed
  rw [alone] at both
  exact ⟨p, q, _, _, rfl, rfl, parsed, rfl, alone, both⟩

end Lox.Tree
