import Lox.Proofs.Numbering

/-! Programs as a parse gives them: the names are identifiers of the source, and each reference has a
number that no other one has. -/

namespace Lox

variable {good : Token → Prop} {first second next : Nat}

/-- A piece of a tree that was read between two numbers. -/
structure Read (first next : Nat) (proper : Prop) (uses : Nat → List Use) : Prop where
  proper : proper
  fresh : ∀ depth, Fresh first next (identifiers (uses depth))

abbrev Expr.Read (good : Token → Prop) (first next : Nat) (e : Expr) : Prop :=
  Lox.Read first next (e.Proper good) (Expr.uses · e)

abbrev exprsRead (good : Token → Prop) (first next : Nat) (es : List Expr) : Prop :=
  Lox.Read first next (exprsProper good es) (exprUses · es)

abbrev optionalRead (good : Token → Prop) (first next : Nat) (e : Option Expr) : Prop :=
  Lox.Read first next (optionalProper good e) (optionalUses · e)

abbrev Stmt.Read (good : Token → Prop) (first next : Nat) (s : Stmt) : Prop :=
  Lox.Read first next (s.Proper good) (Stmt.uses · s)

abbrev stmtsRead (good : Token → Prop) (first next : Nat) (body : List Stmt) : Prop :=
  Lox.Read first next (stmtsProper good body) (stmtUses · body)

/-- A statement that may hang on a condition. -/
abbrev branchRead (good : Token → Prop) (first next : Nat) (s : Stmt) : Prop :=
  Lox.Read first next (s.Proper good ∧ s.declared? = none) (Stmt.uses · s)

abbrev otherwiseRead (good : Token → Prop) (first next : Nat) (s : Option Stmt) : Prop :=
  Lox.Read first next (branchProper good s) (branchUses · s)

abbrev FunctionDecl.Read (good : Token → Prop) (first next : Nat) (f : FunctionDecl) : Prop :=
  Lox.Read first next (f.Proper good) (FunctionDecl.uses · f)

abbrev methodsRead (good : Token → Prop) (first next : Nat) (fs : List FunctionDecl) : Prop :=
  Lox.Read first next (methodsProper good fs) (methodUses · fs)

namespace Read

variable {middle : Nat} {proper other whole : Prop} {uses others all : Nat → List Use}

theorem widen (read : Read first next proper uses) {lower upper : Nat} (below : lower ≤ first)
    (above : next ≤ upper) : Read lower upper proper uses :=
  ⟨read.proper, fun depth => (read.fresh depth).widen below above⟩

/-- Two pieces read one after the other. -/
theorem append (earlier : Read first middle proper uses) (later : Read middle next other others)
    (up : first ≤ middle) (on : middle ≤ next) (holds : proper → other → whole) :
    Read first next whole fun depth => uses depth ++ others depth := by
  refine ⟨holds earlier.proper later.proper, ?_⟩
  intro depth
  rw [identifiers_append]
  exact (earlier.fresh depth).append (later.fresh depth) up on

/-- Two pieces of which the one read later stands first in the tree. -/
theorem prepend (earlier : Read first middle proper uses) (later : Read middle next other others)
    (up : first ≤ middle) (on : middle ≤ next) (holds : proper → other → whole) :
    Read first next whole fun depth => others depth ++ uses depth := by
  refine ⟨holds earlier.proper later.proper, ?_⟩
  intro depth
  rw [identifiers_append]
  exact (earlier.fresh depth).prepend (later.fresh depth) up on

theorem leaf (holds : whole) : Read first next whole fun _ => [] := ⟨holds, fun _ => Fresh.nil⟩

theorem use (holds : whole) (writes : Bool) (reference : Reference) :
    Read reference.id (reference.id + 1) whole fun depth => [⟨depth, writes, reference⟩] :=
  ⟨holds, fun _ => Fresh.single _⟩

/-- The same references looked at from further out. -/
theorem deeper (read : Read first next proper uses) (scopes : Nat) (holds : proper → whole) :
    Read first next whole fun depth => uses (depth + scopes) :=
  ⟨holds read.proper, fun depth => read.fresh (depth + scopes)⟩

theorem imp (read : Read first next proper uses) (holds : proper → whole) :
    Read first next whole uses := ⟨holds read.proper, read.fresh⟩

theorem congr (read : Read first next proper uses) (same : ∀ depth, all depth = uses depth) :
    Read first next proper all := ⟨read.proper, fun depth => same depth ▸ read.fresh depth⟩

end Read

namespace Tree
namespace Parser

/-- A rule for expressions. -/
def ExprRule (good : Token → Prop) (rule : Parser Expr) : Prop :=
  ∀ first, Yields good first rule (Expr.Read good first)

variable {bound : Nat} {whole : Parser Expr}

theorem superExpr_rule {keyword : Token} (word : Worded good .super keyword) :
    ExprRule good (superExpr keyword) := by
  intro first
  unfold superExpr
  refine (yields_expect _ _).bind ?_
  rintro second _ - rfl
  refine (yields_expectName _).bind ?_
  rintro third method - ⟨rfl, -⟩
  refine (yields_reference _).bind ?_
  rintro fourth use - ⟨named, rfl, rfl⟩
  exact Yields.pure _ (Read.use (show Worded good .super use.name from named ▸ word) false use)

theorem groupingExpr_rule (inner : ExprRule good whole) : ExprRule good (groupingExpr whole) := by
  intro first
  unfold groupingExpr
  refine (inner first).bind ?_
  intro second e _ read
  refine (yields_expect _ _).bind ?_
  rintro third _ - rfl
  exact Yields.pure _ read

theorem primaryOf_rule (inner : ExprRule good whole) {token : Token} (fine : good token)
    {rule : Parser Expr} (starts : primaryOf? whole token = some rule) : ExprRule good rule := by
  intro first
  unfold primaryOf? at starts
  split at starts
  · rename_i kind
    cases starts
    exact superExpr_rule ⟨kind, fine⟩ first
  · rename_i kind
    cases starts
    refine (yields_reference token).map ?_
    rintro second use - ⟨named, rfl, rfl⟩
    exact Read.use (show Worded good .this use.name from named ▸ ⟨kind, fine⟩) false use
  · rename_i kind
    cases starts
    refine (yields_reference token).map ?_
    rintro second use - ⟨named, rfl, rfl⟩
    exact Read.use (show Named good use.name from named ▸ ⟨kind, fine⟩) false use
  · cases starts
    exact groupingExpr_rule inner first
  · obtain ⟨literal, -, rfl⟩ := Option.map_eq_some_iff.mp starts
    exact Yields.pure _ (Read.leaf trivial)

theorem primary_rule (inner : ExprRule good whole) : ExprRule good (primary whole) := by
  intro first
  unfold primary
  refine yields_peek.bind ?_
  rintro second found - ⟨rfl, words⟩
  cases starts : found.bind (primaryOf? whole) with
  | none => exact Yields.failing _
  | some rule =>
    obtain ⟨token, seen, starts⟩ := Option.bind_eq_some_iff.mp starts
    refine yields_skip.bind ?_
    rintro third _ - rfl
    exact primaryOf_rule inner (words token seen) starts _

theorem exprs_listed (inner : ExprRule good whole) (items : String) (bound first : Nat) :
    Yields good first (listed bound items whole) (exprsRead good first) := by
  refine yields_listed (exprsRead good) items (fun _ => Read.leaf trivial) ?_ _ _
  intro first
  refine (inner first).weaken ?_
  intro second e up read third rest on others
  exact read.append others up on fun h others => ⟨h, others⟩

theorem postfixes_rule (inner : ExprRule good whole) (bound : Nat) {first second : Nat} {e : Expr}
    (up : first ≤ second) (read : e.Read good first second) :
    Yields good second (postfixes whole bound e) (Expr.Read good first) := by
  induction bound generalizing second e with
  | zero => exact Yields.pure _ read
  | succ bound ih =>
    unfold postfixes
    refine (yields_accept _).bind ?_
    rintro third called - rfl
    refine Yields.ite (fun _ => ?_) (fun _ => ?_)
    · refine (exprs_listed inner _ _ _).bind ?_
      intro fourth arguments on others
      refine (yields_expect _ _).bind ?_
      rintro fifth paren - rfl
      exact ih (Nat.le_trans up on) (read.append others up on fun h others => ⟨h, others⟩)
    · refine (yields_accept _).bind ?_
      rintro fourth dotted - rfl
      refine Yields.ite (fun _ => ?_) (fun _ => Yields.pure _ read)
      refine (yields_expectName _).bind ?_
      rintro fifth name - ⟨rfl, -⟩
      exact ih up read

theorem call_rule (inner : ExprRule good whole) : ExprRule good (call bound whole) := by
  intro first
  unfold call
  refine (primary_rule inner first).bind ?_
  intro second e up read
  exact postfixes_rule inner bound up read

theorem yields_signs (bound first : Nat) :
    Yields good first (signs bound) fun next _ => next = first := by
  induction bound with
  | zero => exact Yields.pure _ rfl
  | succ bound ih =>
    unfold signs
    refine (yields_acceptAny _).bind ?_
    rintro second found - ⟨rfl, -⟩
    cases found with
    | none => exact Yields.pure _ rfl
    | some operator =>
      refine ih.bind ?_
      rintro third operators - rfl
      exact Yields.pure _ rfl

theorem signed_read (operators : List Token) {e : Expr} (read : e.Read good first next) :
    (operators.foldr Expr.unary e).Read good first next := by
  induction operators with
  | nil => exact read
  | cons operator rest ih => exact ih

theorem unary_rule (bound : Nat) (inner : ExprRule good whole) : ExprRule good (unary bound whole) := by
  intro first
  unfold unary
  refine (yields_signs _ _).bind ?_
  rintro second operators - rfl
  refine (call_rule inner _).bind ?_
  intro third e _ read
  exact Yields.pure _ (signed_read operators read)

/-- What an operator builds has the references of its operands. -/
def Joins (good : Token → Prop) (build : Expr → Token → Expr → Expr) : Prop :=
  ∀ left operator right, (left.Proper good → right.Proper good →
    (build left operator right).Proper good) ∧
      ∀ depth, (build left operator right).uses depth = left.uses depth ++ right.uses depth

theorem binary_joins : Joins good Expr.binary := fun _ _ _ => ⟨fun l r => ⟨l, r⟩, fun _ => rfl⟩

theorem logical_joins : Joins good Expr.logical := fun _ _ _ => ⟨fun l r => ⟨l, r⟩, fun _ => rfl⟩

theorem chain_rule {operand : Parser Expr} {build : Expr → Token → Expr → Expr}
    (inner : ExprRule good operand) (joins : Joins good build) (operators : List Kind) (bound : Nat)
    {first second : Nat} {left : Expr} (up : first ≤ second) (read : left.Read good first second) :
    Yields good second (chain operators build operand bound left) (Expr.Read good first) := by
  induction bound generalizing second left with
  | zero => exact Yields.pure _ read
  | succ bound ih =>
    unfold chain
    refine (yields_acceptAny _).bind ?_
    rintro third found - ⟨rfl, -⟩
    cases found with
    | none => exact Yields.pure _ read
    | some operator =>
      refine (inner _).bind ?_
      intro fourth right on others
      apply ih (Nat.le_trans up on)
      obtain ⟨holds, uses⟩ := joins left operator right
      have whole := read.append others up on holds
      exact ⟨whole.proper, fun depth => uses depth ▸ whole.fresh depth⟩

theorem leftAssoc_rule (bound : Nat) {operand : Parser Expr}
    {build : Expr → Token → Expr → Expr}
    (inner : ExprRule good operand) (joins : Joins good build) (operators : List Kind) :
    ExprRule good (leftAssoc bound operators build operand) := by
  intro first
  unfold leftAssoc
  refine (inner first).bind ?_
  intro second left up read
  exact chain_rule inner joins operators bound up read

theorem disjunction_rule (inner : ExprRule good whole) : ExprRule good (disjunction bound whole) :=
  have factor := leftAssoc_rule bound (unary_rule bound inner) binary_joins
    [.symbol .star, .symbol .slash]
  have term := leftAssoc_rule bound factor binary_joins [.symbol .minus, .symbol .plus]
  have comparison := leftAssoc_rule bound term binary_joins
    [.symbol .greater, .symbol .greaterEqual, .symbol .less, .symbol .lessEqual]
  have equality := leftAssoc_rule bound comparison binary_joins
    [.symbol .bangEqual, .symbol .equalEqual]
  have conjunction := leftAssoc_rule bound equality logical_joins [.keyword .and]
  leftAssoc_rule bound conjunction logical_joins [.keyword .or]

/-- A target gives its number up for the one that the assignment gets. -/
theorem assignTo_rule {first second third : Nat} {target value : Expr} (equals : Token)
    (up : first ≤ second) (on : second ≤ third) (read : target.Read good first second)
    (other : value.Read good second third) :
    Yields good third (assignTo target equals value) (Expr.Read good first) := by
  unfold assignTo
  split
  · rename_i use
    refine (yields_reference _).bind ?_
    rintro fourth new - ⟨named, rfl, rfl⟩
    have name : Named good new.name := named ▸ read.proper
    have whole := (other.widen up (Nat.le_refl _)).append (Read.use name true new)
      (Nat.le_trans up on) (Nat.le_succ _) (fun value name => And.intro name value)
    exact Yields.pure _ whole
  · exact Yields.pure _ (read.append other up on fun object value => ⟨object, value⟩)
  · refine (yields_record _).bind ?_
    rintro fourth _ - rfl
    exact Yields.pure _ (read.widen (Nat.le_refl _) on)

theorem assignment_rule (inner : ExprRule good whole) : ExprRule good (assignment bound whole) := by
  intro first
  unfold assignment
  refine (disjunction_rule inner first).bind ?_
  intro second target up read
  refine (yields_acceptAny _).bind ?_
  rintro third found - ⟨rfl, -⟩
  cases found with
  | none => exact Yields.pure _ read
  | some equals =>
    refine (inner _).bind ?_
    intro fourth value on other
    exact assignTo_rule equals up on read other

theorem expression_rule (bound : Nat) : ExprRule good (expression bound) := by
  induction bound with
  | zero => exact fun _ => Yields.failing _
  | succ bound ih => exact assignment_rule ih

/-! ### Statements -/

def StmtRule (good : Token → Prop) (rule : Parser Stmt) : Prop :=
  ∀ first, Yields good first rule (Stmt.Read good first)

/-- A rule for statements that declare nothing. -/
def BranchRule (good : Token → Prop) (rule : Parser Stmt) : Prop :=
  ∀ first, Yields good first rule (branchRead good first)

def DeclarationRule (good : Token → Prop) (rule : Parser (Option Stmt)) : Prop :=
  ∀ first, Yields good first rule fun next found => stmtsRead good first next found.toList

theorem BranchRule.stmt {rule : Parser Stmt} (inner : BranchRule good rule) : StmtRule good rule :=
  fun first => (inner first).weaken fun _ _ _ read => read.imp And.left

/-- The rules a statement is made of do what they should. -/
structure Rules.Sound (good : Token → Prop) (rules : Rules) : Prop where
  expression : ExprRule good rules.expression
  statement : BranchRule good rules.statement
  declaration : DeclarationRule good rules.declaration

theorem declarations_rule {declaration : Parser (Option Stmt)} {stop : Parser Bool}
    (inner : DeclarationRule good declaration)
    (looks : ∀ first, Yields good first stop fun next _ => next = first) (bound first : Nat) :
    Yields good first (declarations declaration stop bound) (stmtsRead good first) := by
  induction bound generalizing first with
  | zero => exact Yields.pure _ (Read.leaf trivial)
  | succ bound ih =>
    unfold declarations
    refine yields_atEnd.bind ?_
    intro second ended _ same
    subst same
    refine Yields.ite (fun _ => Yields.pure _ (Read.leaf trivial)) (fun _ => ?_)
    refine (looks _).bind ?_
    intro third stopped _ same
    subst same
    refine Yields.ite (fun _ => Yields.pure _ (Read.leaf trivial)) (fun _ => ?_)
    refine (inner _).bind ?_
    intro fourth found up read
    refine (ih fourth).bind ?_
    intro fifth rest on others
    have proper : stmtsProper good found.toList → stmtsProper good rest →
        stmtsProper good (found.toList ++ rest) :=
      fun first rest => (stmtsProper_append _ _ _).mpr ⟨first, rest⟩
    have whole := read.append others up on proper
    exact Yields.pure _ (whole.congr fun depth => stmtUses_append depth _ _)

variable {rules : Rules}

theorem block_rule (inner : rules.Sound good) (first : Nat) :
    Yields good first (block rules) (stmtsRead good first) := by
  unfold block
  refine (declarations_rule inner.declaration (fun _ => yields_sees _) _ _).bind ?_
  intro second body _ read
  refine (yields_expect _ _).bind ?_
  intro third _ _ same
  exact Yields.pure _ (same ▸ read)

/-- Parameters have no numbers. -/
theorem params_listed (bound first : Nat) (items phrase : String) :
    Yields good first (listed bound items (expectName phrase)) fun next params =>
      next = first ∧ ∀ param ∈ params, Named good param := by
  refine yields_listed
    (fun first next params => next = first ∧ ∀ param ∈ params, Named good param) items
    (fun _ => ⟨rfl, by simp⟩) ?_ _ _
  intro first
  refine (yields_expectName phrase).weaken ?_
  intro second name _ given third rest _ others
  obtain ⟨rfl, named⟩ := given
  exact ⟨others.1, List.forall_mem_cons.mpr ⟨named, others.2⟩⟩

theorem function_rule (inner : rules.Sound good) (role : String) (first : Nat) :
    Yields good first (function rules role) (FunctionDecl.Read good first) := by
  unfold function
  refine (yields_expectName _).bind ?_
  intro second name _ ⟨same, named⟩
  subst same
  refine (yields_expect _ _).bind ?_
  intro third _ _ same
  subst same
  refine (params_listed _ _ _ _).bind ?_
  intro fourth params _ ⟨same, given⟩
  subst same
  refine (yields_expect _ _).bind ?_
  intro fifth _ _ same
  subst same
  refine (yields_expect _ _).bind ?_
  intro sixth _ _ same
  subst same
  refine (block_rule inner _).bind ?_
  intro seventh body _ read
  exact Yields.pure _ (read.deeper 1 fun body => ⟨named, given, body⟩)

theorem methods_rule (inner : rules.Sound good) (bound first : Nat) :
    Yields good first (methods rules bound) (methodsRead good first) := by
  induction bound generalizing first with
  | zero => exact Yields.pure _ (Read.leaf trivial)
  | succ bound ih =>
    unfold methods
    refine yields_atEnd.bind ?_
    intro second ended _ same
    subst same
    refine Yields.ite (fun _ => Yields.pure _ (Read.leaf trivial)) (fun _ => ?_)
    refine (yields_sees _).bind ?_
    intro third closing _ same
    subst same
    refine Yields.ite (fun _ => Yields.pure _ (Read.leaf trivial)) (fun _ => ?_)
    refine (function_rule inner _ _).bind ?_
    intro fourth method up read
    refine (ih fourth).bind ?_
    intro fifth rest on others
    exact Yields.pure _ (read.append others up on fun method rest => ⟨method, rest⟩)

theorem superclass_rule (first : Nat) :
    Yields good first superclass fun next above =>
      Read first next (superclassProper good above) (superclassUses · above) := by
  unfold superclass
  refine (yields_accept _).bind ?_
  intro second less _ same
  subst same
  refine Yields.ite (fun _ => ?_) (fun _ => Yields.pure _ (Read.leaf trivial))
  refine (yields_expectName _).bind ?_
  intro third name _ ⟨same, named⟩
  subst same
  refine (yields_reference _).bind ?_
  intro fourth use _ ⟨same, id, next⟩
  subst next
  rw [← id]
  exact Yields.pure _ (Read.use (show Named good use.name from same ▸ named) false use)

theorem classDeclaration_rule (inner : rules.Sound good) :
    StmtRule good (classDeclaration rules) := by
  intro first
  unfold classDeclaration
  refine (yields_expectName _).bind ?_
  intro second name _ ⟨same, named⟩
  subst same
  refine (superclass_rule _).bind ?_
  intro third above up read
  refine (yields_expect _ _).bind ?_
  intro fourth _ _ same
  subst same
  refine (methods_rule inner _ _).bind ?_
  intro fifth methods on others
  refine (yields_expect _ _).bind ?_
  intro sixth _ _ same
  subst same
  have inside := others.deeper (classDepth above) id
  exact Yields.pure _ (read.append inside up on fun above methods => ⟨named, above, methods⟩)

theorem optional_expression {condition : Bool} (inner : rules.Sound good) (first : Nat) :
    Yields good first (if condition = true then some <$> rules.expression else pure none)
      (optionalRead good first) := by
  refine Yields.ite (fun _ => ?_) (fun _ => Yields.pure _ (Read.leaf trivial))
  exact (inner.expression _).map fun _ _ _ read => read

theorem varDeclaration_rule (inner : rules.Sound good) : StmtRule good (varDeclaration rules) := by
  intro first
  unfold varDeclaration
  refine (yields_expectName _).bind ?_
  intro second name _ ⟨same, named⟩
  subst same
  refine (yields_accept _).bind ?_
  intro third equals _ same
  subst same
  refine (optional_expression inner _).choose ?_
  intro fourth initializer _ read
  refine (yields_expect _ _).bind ?_
  intro fifth _ _ same
  subst same
  exact Yields.pure _ (read.imp fun initializer => ⟨named, initializer⟩)

theorem expressionStatement_rule (inner : rules.Sound good) :
    BranchRule good (expressionStatement rules) := by
  intro first
  unfold expressionStatement
  refine (inner.expression _).bind ?_
  intro second e _ read
  refine (yields_expect _ _).bind ?_
  intro third _ _ same
  subst same
  exact Yields.pure _ (read.imp fun e => ⟨e, rfl⟩)

theorem printStatement_rule (inner : rules.Sound good) :
    BranchRule good (printStatement rules) := by
  intro first
  unfold printStatement
  refine (inner.expression _).bind ?_
  intro second e _ read
  refine (yields_expect _ _).bind ?_
  intro third _ _ same
  subst same
  exact Yields.pure _ (read.imp fun e => ⟨e, rfl⟩)

theorem optionalUnless_rule (inner : rules.Sound good) (closing : Symbol) (first : Nat) :
    Yields good first (optionalUnless rules closing) (optionalRead good first) := by
  unfold optionalUnless
  refine (yields_sees _).bind ?_
  intro second closed _ same
  subst same
  refine Yields.ite (fun _ => Yields.pure _ (Read.leaf trivial)) (fun _ => ?_)
  exact (inner.expression _).map fun _ _ _ read => read

theorem returnStatement_rule (inner : rules.Sound good) (keyword : Token) :
    BranchRule good (returnStatement rules keyword) := by
  intro first
  unfold returnStatement
  refine (optionalUnless_rule inner _ _).bind ?_
  intro second value _ read
  refine (yields_expect _ _).bind ?_
  intro third _ _ same
  subst same
  exact Yields.pure _ (read.imp fun value => ⟨value, rfl⟩)

theorem ifStatement_rule (inner : rules.Sound good) : BranchRule good (ifStatement rules) := by
  intro first
  unfold ifStatement
  refine (yields_expect _ _).bind ?_
  intro second _ _ same
  subst same
  refine (inner.expression _).bind ?_
  intro third condition up read
  refine (yields_expect _ _).bind ?_
  intro fourth _ _ same
  subst same
  refine (inner.statement _).bind ?_
  intro fifth thenBranch on others
  have both := read.append others up on fun condition thenBranch => And.intro condition thenBranch
  refine (yields_accept _).bind ?_
  intro sixth found _ same
  subst sixth
  have otherwise : Yields good fifth
      (if found = true then some <$> rules.statement else pure none) (otherwiseRead good fifth) := by
    refine Yields.ite (fun _ => ?_) (fun _ => Yields.pure _ (Read.leaf trivial))
    exact (inner.statement _).map fun _ _ _ read => read
  refine otherwise.choose ?_
  intro seventh elseBranch further last
  exact Yields.pure _ (both.append last (Nat.le_trans up on) further
    fun both elseBranch => ⟨⟨both.1, both.2, elseBranch⟩, rfl⟩)

theorem whileStatement_rule (inner : rules.Sound good) : BranchRule good (whileStatement rules) := by
  intro first
  unfold whileStatement
  refine (yields_expect _ _).bind ?_
  intro second _ _ same
  subst same
  refine (inner.expression _).bind ?_
  intro third condition up read
  refine (yields_expect _ _).bind ?_
  intro fourth _ _ same
  subst same
  refine (inner.statement _).bind ?_
  intro fifth body on others
  exact Yields.pure _ (read.append others up on
    fun condition body => ⟨⟨condition, body.1, body.2⟩, rfl⟩)

/-- What a loop repeats: its body and the increment after it. -/
def turn (body : Stmt) : Option Expr → Stmt
  | some increment => .block [body, .expression increment]
  | none => body

theorem forLoop_eq (initializer : Option Stmt) (condition increment : Option Expr) (body : Stmt) :
    Stmt.forLoop initializer condition increment body =
      match initializer with
      | some initializer =>
        .block [initializer, .loop (condition.getD (.literal .true)) (turn body increment)]
      | none => .loop (condition.getD (.literal .true)) (turn body increment) := by
  cases increment <;> rfl

/-- The increment is read before the body and stands after it. -/
theorem turn_read {first second next : Nat} {increment : Option Expr} {body : Stmt}
    (step : optionalRead good first second increment) (read : branchRead good second next body)
    (up : first ≤ second) (on : second ≤ next) :
    branchRead good first next (turn body increment) := by
  cases increment with
  | none => exact read.widen up (Nat.le_refl _)
  | some increment =>
    have both := step.prepend read up on And.intro
    refine (both.deeper 1 fun both => ⟨⟨both.2.1, both.1, trivial⟩, rfl⟩).congr ?_
    intro depth
    simp only [turn, Stmt.uses, stmtUses, List.append_nil, optionalUses]

theorem forLoop_read {first second third fourth next : Nat} {initializer : Option Stmt}
    {condition increment : Option Expr} {body : Stmt}
    (start : stmtsRead good first second initializer.toList)
    (test : optionalRead good second third condition)
    (step : optionalRead good third fourth increment) (read : branchRead good fourth next body)
    (up : first ≤ second) (on : second ≤ third) (further : third ≤ fourth) (last : fourth ≤ next) :
    branchRead good first next (Stmt.forLoop initializer condition increment body) := by
  have again := turn_read step read further last
  have loop : branchRead good second next
      (.loop (condition.getD (.literal .true)) (turn body increment)) := by
    cases condition with
    | none =>
      have alone := again.widen on (Nat.le_refl _)
      exact ⟨⟨⟨trivial, alone.proper⟩, rfl⟩, alone.fresh⟩
    | some condition =>
      exact test.append again on (Nat.le_trans further last) fun test inside =>
        ⟨⟨test, inside⟩, rfl⟩
  rw [forLoop_eq]
  cases initializer with
  | none => exact loop.widen up (Nat.le_refl _)
  | some initializer =>
    have both := start.append loop up (Nat.le_trans on (Nat.le_trans further last)) And.intro
    refine (both.deeper 1 fun both => ⟨⟨both.1.1, both.2.1, trivial⟩, rfl⟩).congr ?_
    intro depth
    simp only [Stmt.uses, stmtUses, List.append_nil, Option.toList]

theorem forInitializer_rule (inner : rules.Sound good) (first : Nat) :
    Yields good first (forInitializer rules) fun next initializer =>
      stmtsRead good first next initializer.toList := by
  have one : ∀ second s, first ≤ second → s.Read good first second →
      stmtsRead good first second (some s).toList := by
    intro second s _ read
    refine (read.imp fun s => ⟨s, trivial⟩).congr ?_
    intro depth
    simp only [Option.toList, stmtUses, List.append_nil]
  unfold forInitializer
  refine (yields_accept _).bind ?_
  intro second none _ same
  subst same
  refine Yields.ite (fun _ => Yields.pure _ (Read.leaf trivial)) (fun _ => ?_)
  refine (yields_accept _).bind ?_
  intro third declares _ same
  subst same
  refine Yields.ite (fun _ => ?_) (fun _ => ?_)
  · exact (varDeclaration_rule inner _).map one
  · exact ((expressionStatement_rule inner).stmt _).map one

theorem forStatement_rule (inner : rules.Sound good) : BranchRule good (forStatement rules) := by
  intro first
  unfold forStatement
  refine (yields_expect _ _).bind ?_
  intro second _ _ same
  subst same
  refine (forInitializer_rule inner _).bind ?_
  intro third initializer up start
  refine (optionalUnless_rule inner _ _).bind ?_
  intro fourth condition on test
  refine (yields_expect _ _).bind ?_
  intro fifth _ _ same
  subst same
  refine (optionalUnless_rule inner _ _).bind ?_
  intro sixth increment further step
  refine (yields_expect _ _).bind ?_
  intro seventh _ _ same
  subst same
  refine (inner.statement _).bind ?_
  intro eighth body last read
  exact Yields.pure _ (forLoop_read start test step read up on further last)

theorem anyStatement_rule (inner : rules.Sound good) : BranchRule good (anyStatement rules) := by
  intro first
  unfold anyStatement
  refine (yields_accept _).bind ?_
  intro second _ _ same
  subst same
  refine Yields.ite (fun _ => forStatement_rule inner _) (fun _ => ?_)
  refine (yields_accept _).bind ?_
  intro third _ _ same
  subst same
  refine Yields.ite (fun _ => ifStatement_rule inner _) (fun _ => ?_)
  refine (yields_accept _).bind ?_
  intro fourth _ _ same
  subst same
  refine Yields.ite (fun _ => whileStatement_rule inner _) (fun _ => ?_)
  refine (yields_acceptAny _).bind ?_
  intro fifth found _ ⟨same, _⟩
  subst same
  cases found with
  | some keyword => exact returnStatement_rule inner keyword _
  | none =>
    refine (yields_accept _).bind ?_
    intro sixth _ _ same
    subst same
    refine Yields.ite (fun _ => ?_) (fun _ => ?_)
    · refine (block_rule inner _).bind ?_
      intro seventh body _ read
      exact Yields.pure _ (read.deeper 1 fun body => ⟨body, rfl⟩)
    · refine (yields_accept _).bind ?_
      intro seventh _ _ same
      subst same
      exact Yields.ite (fun _ => printStatement_rule inner _)
        (fun _ => expressionStatement_rule inner _)

theorem anyDeclaration_rule (inner : rules.Sound good) : StmtRule good (anyDeclaration rules) := by
  intro first
  unfold anyDeclaration
  refine (yields_accept _).bind ?_
  intro second _ _ same
  subst same
  refine Yields.ite (fun _ => classDeclaration_rule inner _) (fun _ => ?_)
  refine (yields_accept _).bind ?_
  intro third _ _ same
  subst same
  refine Yields.ite (fun _ => ?_) (fun _ => ?_)
  · refine (function_rule inner _ _).bind ?_
    intro fourth declaration _ read
    exact Yields.pure _ (read.imp id)
  refine (yields_accept _).bind ?_
  intro fourth _ _ same
  subst same
  exact Yields.ite (fun _ => varDeclaration_rule inner _)
    (fun _ => (anyStatement_rule inner).stmt _)

/-! ### Recovery -/

theorem resync_suffix (previous : Token) (tokens : List Token) :
    resync previous tokens <:+ tokens := by
  induction tokens generalizing previous with
  | nil => exact List.suffix_refl _
  | cons token rest ih =>
    unfold resync
    split
    · exact List.suffix_refl _
    split
    · exact List.suffix_refl _
    · exact (ih token).trans (List.suffix_cons _ _)

theorem recover_leads (fault : Fault) (progress : Progress) :
    progress.Leads (recover fault progress) := by
  refine ⟨?_, Nat.le_refl _, List.prefix_append _ _, rfl⟩
  unfold recover
  cases shape : progress.rest with
  | nil => exact List.suffix_refl _
  | cons token rest => exact (resync_suffix token rest).trans (List.suffix_cons _ _)

theorem recovering_rule {rule : Parser Stmt} (inner : StmtRule good rule) :
    DeclarationRule good (recovering rule) := by
  intro first before start words
  obtain ⟨moved, given⟩ := inner first before start words
  unfold recovering
  rcases result : rule before with ⟨fault | s, after⟩
  · rw [result] at moved
    refine ⟨moved.trans (recover_leads fault after), ?_⟩
    intro found same
    cases same
    exact Read.leaf trivial
  · rw [result] at moved given
    refine ⟨moved, ?_⟩
    intro found same
    cases same
    refine ((given s rfl).imp fun s => ⟨s, trivial⟩).congr ?_
    intro depth
    simp only [Option.toList, stmtUses, List.append_nil]

theorem statement_declaration_rule (bound : Nat) :
    BranchRule good (statement bound) ∧ DeclarationRule good (declaration bound) := by
  induction bound with
  | zero => exact ⟨fun _ => Yields.failing _, recovering_rule fun _ => Yields.failing _⟩
  | succ bound ih =>
    have inner : Rules.Sound good
        ⟨bound + 1, expression (bound + 1), statement bound, declaration bound⟩ :=
      ⟨expression_rule _, ih.1, ih.2⟩
    exact ⟨anyStatement_rule inner, recovering_rule (anyDeclaration_rule inner)⟩

theorem program_rule (good : Token → Prop) (bound first : Nat) :
    Yields good first (program bound) (stmtsRead good first) :=
  declarations_rule (statement_declaration_rule bound).2 (fun _ => Yields.pure _ rfl) bound first

end Parser

/-- A program that was read has references with numbers of their own, between the first number and
the next free one, and is made of the words of the source. -/
theorem parse_read {tokens : List Token} {first : Nat} {program : List Stmt}
    (words : ∀ token ∈ tokens, good token)
    (parsed : (parse tokens first).result = .ok program) :
    first ≤ (parse tokens first).nextId ∧
      stmtsRead good first (parse tokens first).nextId program := by
  have start : ∀ token ∈ (Progress.start tokens first).rest, good token :=
    fun token member => words token ((List.takeWhile_sublist _).subset member)
  have rule := Parser.program_rule good (Progress.start tokens first).rest.length first
  obtain ⟨moved, given⟩ := rule (Progress.start tokens first) rfl start
  unfold parse at parsed ⊢
  rcases result : Parser.program (Progress.start tokens first).rest.length
    (Progress.start tokens first) with ⟨fault | found, after⟩
  · simp [result] at parsed
  · rw [result] at moved given
    simp only [result] at parsed ⊢
    split at parsed
    · rename_i same _
      cases parsed
      cases same
      exact ⟨moved.numbers, given _ rfl⟩
    · cases parsed
    · rename_i same
      cases same

/-- Numbers are never handed out twice, whether or not a program could be read. -/
theorem parse_nextId (tokens : List Token) (first : Nat) : first ≤ (parse tokens first).nextId := by
  have words : ∀ token ∈ (Progress.start tokens first).rest, True := fun _ _ => trivial
  have rule := Parser.program_rule (fun _ => True) (Progress.start tokens first).rest.length first
  obtain ⟨moved, _⟩ := rule (Progress.start tokens first) rfl words
  exact moved.numbers

end Tree
end Lox
