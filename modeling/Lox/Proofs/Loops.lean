import Lox.Proofs.Limits
import Lox.Proofs.Recognized
import Lox.Proofs.Renumbered

/-! A loop with clauses stands for a loop without them. The increment is read before the body and stands
after it, so the references of the two change numbers. -/

namespace Lox

open Grammar Computability

/-- The clauses of a loop and the statement under them, as they are written. The initializer has its
semicolon with it, and a clause that is left out is empty. -/
structure Clauses where
  initializer : List Token
  condition : List Token
  increment : List Token
  body : List Token

namespace Clauses

/-- Each part is of the form it should have. -/
structure In (clauses : Clauses) (of : Rule → Language Token) : Prop where
  initializer : clauses.initializer ∈ of .varDecl + of .exprStmt + symbol .semicolon
  condition : clauses.condition ∈ Grammar.optional (of .expression)
  increment : clauses.increment ∈ Grammar.optional (of .expression)
  body : clauses.body ∈ of .statement

variable (clauses : Clauses)

/-- The loop with its clauses. -/
def spelled : Language Token :=
  keyword .for * symbol .leftParen * {clauses.initializer} * {clauses.condition} *
    symbol .semicolon * {clauses.increment} * symbol .rightParen * {clauses.body}

/-- The condition, or `true` where it is left out. -/
def test : Language Token :=
  if clauses.condition = [] then keyword .true else {clauses.condition}

/-- The body, in a block with the increment after it unless that is left out. -/
def turn : Language Token :=
  if clauses.increment = [] then {clauses.body}
  else symbol .leftBrace * {clauses.body} * {clauses.increment} * symbol .semicolon *
    symbol .rightBrace

def loop : Language Token :=
  keyword .while * symbol .leftParen * clauses.test * symbol .rightParen * clauses.turn

/-- The loop written out, in a block with the initializer before it unless that is a lone
semicolon. -/
def writtenOut : Language Token :=
  if clauses.initializer.map Token.kind = [.symbol .semicolon] then clauses.loop
  else symbol .leftBrace * {clauses.initializer} * clauses.loop * symbol .rightBrace

variable {clauses} {ts : List Token}

theorem mem_spelled (spelled : ts ∈ clauses.spelled) : ∃ opener left middle right,
    ts = opener :: left :: (clauses.initializer ++ (clauses.condition ++
      middle :: (clauses.increment ++ right :: clauses.body))) ∧
    opener.kind = .keyword .for ∧ left.kind = .symbol .leftParen ∧
    middle.kind = .symbol .semicolon ∧ right.kind = .symbol .rightParen := by
  obtain ⟨_, ⟨_, ⟨_, ⟨_, ⟨_, ⟨_, ⟨_, ⟨opener, kind, rfl⟩, _, ⟨left, opened, rfl⟩, rfl⟩, _, rfl, rfl⟩,
    _, rfl, rfl⟩, _, ⟨middle, parted, rfl⟩, rfl⟩, _, rfl, rfl⟩, _, ⟨right, closed, rfl⟩, rfl⟩,
    _, rfl, rfl⟩ := spelled
  refine ⟨opener, left, middle, right, by simp, ?_⟩
  exact ⟨List.mem_singleton.mp kind, List.mem_singleton.mp opened, List.mem_singleton.mp parted,
    List.mem_singleton.mp closed⟩

/-- What has no end in it. -/
def unended : Language Token := {ts | ∀ token ∈ ts, token.kind ≠ .eof}

theorem mul_unended {L M : Language Token} (left : L ≤ unended) (right : M ≤ unended) :
    L * M ≤ unended := by
  rintro _ ⟨earlier, inside, later, within, rfl⟩ token member
  rcases List.mem_append.mp member with member | member
  · exact left inside token member
  · exact right within token member

theorem oneOf_unended {kinds : List Kind} (others : .eof ∉ kinds) : oneOf kinds ≤ unended := by
  rintro _ ⟨token, among, rfl⟩ _ member
  cases List.mem_singleton.mp member
  exact fun same => others (same ▸ among)

theorem symbol_unended (sign : Symbol) : symbol sign ≤ unended :=
  oneOf_unended (by simp)

theorem keyword_unended (word : Keyword) : keyword word ≤ unended :=
  oneOf_unended (by simp)

theorem one_unended {part : List Token} (kept : part ∈ unended) : {part} ≤ unended := by
  rintro _ rfl
  exact kept

theorem optional_unended {part : List Token}
    (given : part ∈ Grammar.optional (grammar (fun _ => True) .expression)) : {part} ≤ unended := by
  refine one_unended ?_
  rcases given with given | rfl
  · exact unended_of_unlimited rfl given
  · exact fun _ => List.not_mem_nil.elim

theorem In.initializer_unended (inside : clauses.In (grammar fun _ => True)) :
    {clauses.initializer} ≤ unended := by
  refine one_unended ?_
  rcases inside.initializer with (declared | given) | alone
  · exact unended_of_unlimited rfl declared
  · exact unended_of_unlimited rfl given
  · exact oneOf_unended (by decide) alone

theorem In.body_unended (inside : clauses.In (grammar fun _ => True)) :
    {clauses.body} ≤ unended :=
  one_unended (unended_of_unlimited rfl inside.body)

theorem In.spelled_unended (inside : clauses.In (grammar fun _ => True)) :
    clauses.spelled ≤ unended := by
  unfold spelled
  iterate 7 refine mul_unended ?_ ?_
  exacts [keyword_unended _, symbol_unended _, inside.initializer_unended,
    optional_unended inside.condition, symbol_unended _, optional_unended inside.increment,
    symbol_unended _, inside.body_unended]

theorem In.test_unended (inside : clauses.In (grammar fun _ => True)) : clauses.test ≤ unended := by
  unfold test
  split
  · exact keyword_unended _
  · exact optional_unended inside.condition

theorem In.turn_unended (inside : clauses.In (grammar fun _ => True)) : clauses.turn ≤ unended := by
  unfold turn
  split
  · exact inside.body_unended
  · iterate 4 refine mul_unended ?_ ?_
    exacts [symbol_unended _, inside.body_unended, optional_unended inside.increment,
      symbol_unended _, symbol_unended _]

theorem In.loop_unended (inside : clauses.In (grammar fun _ => True)) : clauses.loop ≤ unended := by
  unfold loop
  iterate 4 refine mul_unended ?_ ?_
  exacts [keyword_unended _, symbol_unended _, inside.test_unended, symbol_unended _,
    inside.turn_unended]

theorem In.writtenOut_unended (inside : clauses.In (grammar fun _ => True)) :
    clauses.writtenOut ≤ unended := by
  unfold writtenOut
  split
  · exact inside.loop_unended
  · iterate 3 refine mul_unended ?_ ?_
    exacts [symbol_unended _, inside.initializer_unended, inside.loop_unended, symbol_unended _]

theorem loop_leading : clauses.loop ≤ leading startsStatement := by
  unfold loop
  iterate 4 apply mul_leading
  exact oneOf_leading (by simp [startsStatement])

theorem writtenOut_leading : clauses.writtenOut ≤ leading startsStatement := by
  unfold writtenOut
  split
  · exact loop_leading
  · iterate 3 apply mul_leading
    exact oneOf_leading (by simp [startsStatement])

theorem spelled_leading : clauses.spelled ≤ leading startsStatement := by
  unfold spelled
  iterate 7 apply mul_leading
  exact oneOf_leading (by simp [startsStatement])

theorem In.mono {of wider : Rule → Language Token} (inside : clauses.In of) (within : of ≤ wider) :
    clauses.In wider where
  initializer := add_le_add_left (add_le_add (within _) (within _)) _ inside.initializer
  condition := optional_mono (within _) inside.condition
  increment := optional_mono (within _) inside.increment
  body := within _ inside.body

theorem parts_of_spelled (spelled : ts ∈ clauses.spelled) :
    clauses.initializer <:+: ts ∧ clauses.condition <:+: ts ∧ clauses.increment <:+: ts ∧
      clauses.body <:+: ts := by
  obtain ⟨opener, left, middle, right, rfl, _⟩ := mem_spelled spelled
  let ahead := opener :: left :: clauses.initializer
  exact ⟨⟨[opener, left], _, rfl⟩,
    ⟨ahead, middle :: (clauses.increment ++ right :: clauses.body), by simp [ahead]⟩,
    ⟨ahead ++ clauses.condition ++ [middle], right :: clauses.body, by simp [ahead]⟩,
    ⟨ahead ++ clauses.condition ++ middle :: clauses.increment ++ [right], [], by simp [ahead]⟩⟩

/-- The parts of a loop that is accepted keep to the limit on lists. -/
theorem In.limited (inside : clauses.In (grammar fun _ => True)) (spelled : ts ∈ clauses.spelled)
    (whole : ts ∈ (derived .declaration)∗) : clauses.In derived := by
  obtain ⟨starting, tested, stepped, under⟩ := parts_of_spelled spelled
  have clause {te : List Token} (given : te ∈ Grammar.optional (grammar (fun _ => True) .expression))
      (part : te <:+: ts) : te ∈ Grammar.optional (derived .expression) := by
    rcases given with given | rfl
    · exact .inl (derived_of_part rfl whole part given)
    · exact .inr rfl
  refine ⟨?_, clause inside.condition tested, clause inside.increment stepped,
    derived_of_part rfl whole under inside.body⟩
  rcases inside.initializer with (declared | given) | alone
  · exact .inl (.inl (derived_of_part rfl whole starting declared))
  · exact .inl (.inr (derived_of_part rfl whole starting given))
  · exact .inr alone

end Clauses

namespace Tree.Parser

theorem statement_leading : leading startsStatement ≤ leading startsDeclaration :=
  leading_mono (by simp +contextual [startsDeclaration])

theorem exprStmt_leading : derived .exprStmt ≤ leading startsStatement :=
  (grammar_leading .exprStmt).trans (leading_mono (by simp +contextual [starts, startsStatement]))

theorem initializer_leading :
    derived .varDecl + derived .exprStmt ≤ leading startsDeclaration := by
  have declared : derived .varDecl ≤ leading startsDeclaration :=
    (grammar_leading .varDecl).trans (leading_mono (by simp +contextual [starts, startsDeclaration]))
  exact add_leading declared (exprStmt_leading.trans statement_leading)

/-! ### Reading a program of one statement -/

section Reading

variable {α : Type} {parser : Parser α} {blocked : List Kind} {ts rest : List Token}
  {first middle next endLine : Nat} {faults : List Fault} {value : α}

/-- What a rule yields holds of what it reads. -/
theorem Takes.yields {holds : Nat → α → Prop} (takes : Takes parser blocked ts first value next)
    (rule : Yields (fun _ => True) first parser holds) : first ≤ next ∧ holds next value := by
  have ran := takes [] 0 [] clear_nil
  obtain ⟨moved, given⟩ := rule ⟨ts ++ [], 0, first, []⟩ rfl fun _ _ => trivial
  rw [ran] at moved given
  exact ⟨moved.numbers, given value rfl⟩

/-- What is read to its end is of the language that the rule reads. -/
theorem Consumes.mem {L : Language Token} (reads : Consumes (fun _ => L) parser)
    (ran : parser ⟨ts, 0, 0, []⟩ = (.ok value, ⟨[], 0, next, []⟩)) : ts ∈ L := by
  obtain ⟨more, told, given⟩ := reads ⟨ts, 0, 0, []⟩
  rw [ran] at told given
  obtain ⟨found, inside, same⟩ := given value rfl told.symm
  rw [show ts = found from same.trans (List.append_nil found)]
  exact inside

/-- The same tokens are read alike from another number on. -/
theorem Takes.again {L : Likeness} {alike : α → α → Prop} (agree : Agree L alike parser parser)
    (steady : ∀ id, first ≤ id → L.number (id + 1) = L.number id + 1)
    (takes : Takes parser blocked ts first value next) {value' : α} {next' : Nat}
    (again : Takes parser blocked ts (L.number first) value' next') :
    alike value value' ∧ next' = L.number next := by
  have same : List.Forall₂ L.Same (ts ++ []) (ts ++ []) :=
    List.forall₂_same.mpr fun token _ => .refl token
  have start : Progress.Like L ⟨ts ++ [], 0, first, []⟩ ⟨ts ++ [], 0, L.number first, []⟩ :=
    ⟨same, L.line_refl 0, rfl, steady, .nil⟩
  have outcome := agree start
  rw [takes [] 0 [] clear_nil, again [] 0 [] clear_nil] at outcome
  cases outcome with
  | ok same after => exact ⟨same, after.nextId⟩

theorem declarations_step {stop : Parser Bool} {s : Stmt} {bound : Nat} (nonempty : 0 < ts.length)
    (goes : stop ⟨ts ++ rest, endLine, first, faults⟩ =
      (.ok false, ⟨ts ++ rest, endLine, first, faults⟩))
    (read : declaration bound ⟨ts ++ rest, endLine, first, faults⟩ =
      (.ok (some s), ⟨rest, endLine, next, faults⟩)) (inner : Nat) :
    declarations (declaration bound) stop (inner + 1) ⟨ts ++ rest, endLine, first, faults⟩ =
      ((s :: ·) <$> declarations (declaration bound) stop inner) ⟨rest, endLine, next, faults⟩ := by
  obtain ⟨token, others, rfl⟩ := List.exists_cons_of_length_pos nonempty
  rw [List.cons_append] at goes read ⊢
  simp [declarations, atEnd, goes, read]

/-- A program of one declaration. -/
theorem parse_one {s : Stmt} (nonempty : 0 < ts.length)
    (read : Reads declaration [.keyword .else] ts first (some s) next)
    (unended : ∀ token ∈ ts, token.kind ≠ .eof) {final : Token} (last : final.kind = .eof) :
    parse (ts ++ [final]) first = ⟨.ok [s], next⟩ := by
  let line := lastLine (ts ++ [final])
  have one := read ts.length le_rfl [] line [] clear_nil
  obtain ⟨inner, size⟩ : ∃ inner, ts.length = inner + 1 := ⟨ts.length - 1, by omega⟩
  have stops : declarations (declaration ts.length) (pure false) inner ⟨[], line, next, []⟩ =
      (.ok [], ⟨[], line, next, []⟩) := by
    cases inner <;> rfl
  have goes : (pure false : Parser Bool) ⟨ts ++ [], line, first, []⟩ =
      (.ok false, ⟨ts ++ [], line, first, []⟩) := rfl
  have all : program ts.length ⟨ts ++ [], line, first, []⟩ = (.ok [s], ⟨[], line, next, []⟩) := by
    unfold program
    nth_rewrite 2 [size]
    rw [declarations_step nonempty goes one inner, map_apply, stops]
  rw [List.append_nil] at all
  unfold parse
  simp only [start_eq unended last, all, line]

/-- A block of two declarations. -/
theorem pair_reads {left right : Token} (opened : left.kind = .symbol .leftBrace)
    (closed : right.kind = .symbol .rightBrace) {one two : List Token} {a b : Stmt}
    (starts : one ∈ leading startsDeclaration) (starts' : two ∈ leading startsDeclaration)
    (reads : Reads declaration [.keyword .else] one first (some a) middle)
    (reads' : Reads declaration [.keyword .else] two middle (some b) next) :
    Reads statement blocked (left :: (one ++ (two ++ [right]))) first (.block [a, b]) next := by
  refine statement_reads (Nat.succ_pos _) ?_
  intro bound enough rest endLine faults _
  simp only [List.length_append, List.length_cons, List.length_nil] at enough
  have room := leading_nonempty starts
  have room' := leading_nonempty starts'
  obtain ⟨inner, rfl⟩ : ∃ inner, bound = inner + 1 := ⟨bound - 1, by omega⟩
  have goes {part rest : List Token} {first : Nat} (led : part ∈ leading startsDeclaration) :
      sees (.symbol .rightBrace) ⟨part ++ rest, endLine, first, faults⟩ =
        (.ok false, ⟨part ++ rest, endLine, first, faults⟩) :=
    sees_miss (clear_of_leading led (by decide))
  have head := reads (inner + 1) (by omega) (two ++ (right :: rest)) endLine faults
    (clear_of_leading starts' (by decide))
  have tail := reads' (inner + 1) (by omega) (right :: rest) endLine faults (by simp [closed])
  have stops : declarations (declaration (inner + 1)) (sees (.symbol .rightBrace)) inner
      ⟨right :: rest, endLine, next, faults⟩ =
        (.ok [], ⟨right :: rest, endLine, next, faults⟩) := by
    cases inner with
    | zero => rfl
    | succ inner => simp [declarations, atEnd, sees_hit closed]
  have body := declarations_step room (goes starts) head (inner + 1)
  rw [map_apply, declarations_step room' (goes starts') tail inner, map_apply, stops] at body
  simp [anyStatement_cons, opened, block, rulesAt, body, expect_hit _ closed]

/-- Every statement is a declaration. -/
theorem statement_declares {s : Stmt} (starts : ts ∈ leading startsStatement)
    (reads : Reads statement blocked ts first s next) :
    Reads declaration blocked ts first (some s) next := by
  have room := leading_nonempty starts
  intro bound enough rest endLine faults clear
  obtain ⟨bound, rfl⟩ : ∃ lower, bound = lower + 1 := ⟨bound - 1, by omega⟩
  have one := reads (bound + 1) enough rest endLine faults clear
  change anyStatement (rulesAt bound) _ = _ at one
  change recovering (anyDeclaration (rulesAt bound)) _ = _
  rw [recovering, anyDeclaration_statement _ (clear_of_leading starts (by decide)), one]

theorem true_reads {token : Token} (kind : token.kind = .keyword .true) (first : Nat) :
    ReadsExpr [token] first (.literal .true) first := by
  intro bound _ rest endLine faults clear
  have called : Takes (call (bound + 1) (expression bound)) callBlocked [token] first
      (.literal .true) first := by
    intro rest endLine faults clear
    have reader : primaryOf? (expression bound) token = some (pure (.literal .true)) := by
      simp [primaryOf?, kind, literal?]
    simp [call, primary_hit reader, postfixes_end clear]
  have one := disjunction_single called (fun rest => by simp [kind]) rest endLine faults
    (clear.mono (List.subset_append_right _ _))
  have miss : Clear [.symbol .equal] rest := clear.mono (List.subset_append_left _ _)
  change assignment (bound + 1) (expression bound) _ = _
  rw [assignment, bind_apply, one]
  simp [acceptAny_miss miss]

theorem expressionStatement_reads {last : Token} (ending : last.kind = .symbol .semicolon)
    {e : Expr} (inside : ts ∈ derived .expression) (reads : ReadsExpr ts first e next) :
    Reads statement blocked (ts ++ [last]) first (.expression e) next := by
  refine statement_reads (by simp) ?_
  intro bound enough rest endLine faults _
  have one := reads bound (by simpa using enough) (last :: rest) endLine faults
    (clear_cons.mpr (by rw [ending]; decide))
  rw [List.append_assoc, anyStatement_expression _ (clear_of_derived inside (by decide))]
  simp [expressionStatement, rulesAt, one, expect_hit _ ending]

/-- An initializer is read as the declaration that it is. -/
theorem forInitializer_declares (inside : ts ∈ derived .varDecl + derived .exprStmt)
    (rules : Rules) : forInitializer rules ⟨ts ++ rest, endLine, first, faults⟩ =
      (some <$> anyDeclaration rules) ⟨ts ++ rest, endLine, first, faults⟩ := by
  rcases inside with declared | expr
  · rw [derived_eq] at declared
    simp only [production, mul_assoc] at declared
    obtain ⟨_, ⟨opener, kind, rfl⟩, others, _, rfl⟩ := declared
    have kind : opener.kind = .keyword .var := List.mem_singleton.mp kind
    have miss : Clear [.symbol .semicolon] (opener :: (others ++ rest)) := by simp [kind]
    simp [forInitializer, accept_miss miss, accept_hit kind, anyDeclaration_cons, kind]
  · have full : Clear [.symbol .semicolon] (ts ++ rest) := clear_of_derived expr (by decide)
    have undeclared : Clear [.keyword .var] (ts ++ rest) := clear_of_derived expr (by decide)
    simp [forInitializer, accept_miss full, accept_miss undeclared,
      anyDeclaration_statement _ (clear_of_derived expr (by decide)),
      anyStatement_expression _ (clear_of_derived expr (by decide))]

theorem initializer_reads (inside : ts ∈ derived .varDecl + derived .exprStmt) (first : Nat) :
    ∃ s next, (∀ bound, ts.length ≤ bound + 1 →
        Takes (forInitializer (rulesAt bound)) [] ts first (some s) next) ∧
      Reads declaration [.keyword .else] ts first (some s) next := by
  obtain ⟨found, next, read⟩ := forInitializer_readable (.inl inside) first
  have declares (bound : Nat) (enough : ts.length ≤ bound + 1) (rest : List Token) (endLine : Nat)
      (faults : List Fault) : ∃ s, found = some s ∧
        anyDeclaration (rulesAt bound) ⟨ts ++ rest, endLine, first, faults⟩ =
          (.ok s, ⟨rest, endLine, next, faults⟩) := by
    have ran := read bound enough rest endLine faults fun _ _ => List.not_mem_nil
    rw [forInitializer_declares inside, map_apply] at ran
    rcases result : anyDeclaration (rulesAt bound) ⟨ts ++ rest, endLine, first, faults⟩ with
      ⟨fault | s, after⟩
    · simp [result] at ran
    · rw [result] at ran
      cases ran
      exact ⟨s, rfl, rfl⟩
  obtain ⟨s, same, _⟩ := declares ts.length (Nat.le_succ _) [] 0 []
  subst same
  refine ⟨s, next, read, fun bound enough rest endLine faults _ => ?_⟩
  have room := leading_nonempty (initializer_leading inside)
  obtain ⟨bound, rfl⟩ : ∃ lower, bound = lower + 1 := ⟨bound - 1, by omega⟩
  obtain ⟨_, same, ran⟩ := declares bound enough rest endLine faults
  cases same
  change recovering (anyDeclaration (rulesAt bound)) _ = _
  rw [recovering, ran]

end Reading

/-! ### The two forms of a loop -/

section Forms

variable {clauses : Clauses} {ts ts' : List Token} {first next : Nat}

theorem ReadsOptional.fresh {value : Option Expr} (read : ReadsOptional ts first value next) :
    first ≤ next ∧ optionalRead (fun _ => True) first next value := by
  cases read with
  | none => exact ⟨le_rfl, .leaf trivial⟩
  | some _ reads => exact (reads ts.length le_rfl).yields (expression_rule _ _)

theorem test_reads {value : Option Expr} (read : ReadsOptional clauses.condition first value next)
    (inside : ts ∈ clauses.test) : ReadsExpr ts first (value.getD (.literal .true)) next := by
  unfold Clauses.test at inside
  generalize clauses.condition = condition at read inside
  cases read with
  | none =>
    rw [if_pos rfl] at inside
    obtain ⟨token, kind, rfl⟩ := inside
    exact true_reads (List.mem_singleton.mp kind) _
  | some derived reads =>
    have room := leading_nonempty (grammar_leading .expression derived)
    rw [if_neg (List.ne_nil_of_length_pos room)] at inside
    cases inside
    exact reads

section Again

variable {start middle last : Nat} {blocked : List Kind}

/-- Read again where the part before it is left out, a statement has lower numbers. -/
theorem statement_again {s s' : Stmt} (up : start ≤ middle)
    (reads : Reads statement blocked ts middle s last)
    (reads' : Reads statement blocked ts start s' next) :
    middle ≤ last ∧ s' = s.renumber (exchange start (middle - start) (last - middle)) ∧
      next = start + (last - middle) := by
  have here := reads ts.length le_rfl
  obtain ⟨on, read⟩ := here.yields ((statement_declaration_rule _).1 middle)
  let lower := Likeness.renumbering (fun id => id - (middle - start)) fun _ => none
  have begins : lower.number middle = start := Nat.sub_sub_self up
  have steady : ∀ id, middle ≤ id → lower.number (id + 1) = lower.number id + 1 := by
    intro id above
    change id + 1 - (middle - start) = id - (middle - start) + 1
    omega
  obtain ⟨alike, ends⟩ := here.again (statement_declaration_agree _).1 steady
    (begins.symm ▸ reads' ts.length le_rfl)
  have agrees : Likeness.Agrees (exchange start (middle - start) (last - middle))
      (fun id => id - (middle - start)) (s.uses 0) := by
    intro use member
    obtain ⟨above, below⟩ := (read.fresh 0).within use.id (List.mem_map_of_mem member)
    exact (exchange_right (by omega) (by omega)).symm
  change next = last - (middle - start) at ends
  exact ⟨on, (alike [] fun _ => List.not_mem_nil.elim).renumbered agrees, by omega⟩

/-- Read again after the part that follows it, an expression has higher numbers. -/
theorem expression_again {e e' : Expr} (on : middle ≤ last) (reads : ReadsExpr ts start e middle)
    (reads' : ReadsExpr ts (start + (last - middle)) e' next) :
    e' = e.renumber (exchange start (middle - start) (last - middle)) ∧ next = last := by
  have here := reads ts.length le_rfl
  obtain ⟨up, read⟩ := here.yields (expression_rule _ start)
  let higher := Likeness.renumbering (fun id => id + (last - middle)) fun _ => none
  have steady : ∀ id, start ≤ id → higher.number (id + 1) = higher.number id + 1 :=
    fun id _ => Nat.add_right_comm id 1 _
  have begins : higher.number start = start + (last - middle) := rfl
  obtain ⟨alike, ends⟩ := here.again (expression_agree _) steady
    (begins ▸ reads' ts.length le_rfl)
  have agrees : Likeness.Agrees (exchange start (middle - start) (last - middle))
      (fun id => id + (last - middle)) (e.uses 0) := by
    intro use member
    obtain ⟨above, below⟩ := (read.fresh 0).within use.id (List.mem_map_of_mem member)
    exact (exchange_left above (by omega)).symm
  change next = middle + (last - middle) at ends
  exact ⟨(alike [] fun _ => List.not_mem_nil.elim).renumbered agrees, by omega⟩

end Again

/-- A body with an increment after it. -/
theorem stepped_reads {left final right : Token} {tb te : List Token} {body : Stmt} {e : Expr}
    {middle : Nat} (opened : left.kind = .symbol .leftBrace) (ending : final.kind = .symbol .semicolon)
    (closed : right.kind = .symbol .rightBrace) (derives : tb ∈ derived .statement)
    (reads : Reads statement [.keyword .else] tb first body middle)
    (derives' : te ∈ derived .expression) (reads' : ReadsExpr te middle e next) :
    Reads statement [.keyword .else] (left :: (tb ++ ((te ++ [final]) ++ [right]))) first
      (.block [body, .expression e]) next := by
  have led : tb ∈ leading startsStatement := grammar_leading .statement derives
  have stated : te ++ [final] ∈ derived .exprStmt := by
    rw [derived_eq]
    exact Language.append_mem_mul derives' (one_mem (by simp [ending]))
  have led' := exprStmt_leading stated
  exact pair_reads opened closed (statement_leading led) (statement_leading led')
    (statement_declares led reads)
    (statement_declares led' (expressionStatement_reads ending derives' reads'))

/-- The body is read first where the loop is written out, and then the increment. -/
theorem turn_reads (inside : clauses.In derived) (first : Nat) : ∃ increment middle body next,
    first ≤ middle ∧ middle ≤ next ∧ ReadsOptional clauses.increment first increment middle ∧
      Reads statement [.keyword .else] clauses.body middle body next ∧
      ∀ tb ∈ clauses.turn, Reads statement [.keyword .else] tb first
        ((turn body increment).renumber (exchange first (middle - first) (next - middle))) next := by
  have readable : Readable statement [.keyword .else] clauses.body :=
    (nested inside.body).readable (declaredBelow_all _) le_rfl
  obtain ⟨increment, middle, stepped⟩ := optional_readable inside.increment first
  obtain ⟨body, next, under⟩ := readable middle
  obtain ⟨body', next', under'⟩ := readable first
  have up := stepped.fresh.1
  obtain ⟨on, sameBody, ends⟩ := statement_again up under under'
  refine ⟨increment, middle, body, next, up, on, stepped, under, fun tb written => ?_⟩
  unfold Clauses.turn at written
  generalize clauses.increment = given at stepped written
  cases stepped with
  | none =>
    rw [if_pos rfl] at written
    cases written
    have whole : next' = next := by omega
    rw [turn, ← sameBody, ← whole]
    exact under'
  | @some _ _ _ e derives reads =>
    have room := leading_nonempty (grammar_leading .expression derives)
    rw [if_neg (List.ne_nil_of_length_pos room)] at written
    obtain ⟨_, ⟨_, ⟨_, ⟨_, ⟨left, opened, rfl⟩, _, rfl, rfl⟩, given, rfl, rfl⟩, _,
      ⟨last, ending, rfl⟩, rfl⟩, _, ⟨right, closed, rfl⟩, rfl⟩ := written
    have opened := List.mem_singleton.mp opened
    have ending := List.mem_singleton.mp ending
    have closed := List.mem_singleton.mp closed
    obtain ⟨e', final, again⟩ := expression_readable derives (first + (next - middle))
    obtain ⟨sameStep, same⟩ := expression_again on reads again
    rw [same] at again
    have block : Reads statement [.keyword .else] _ first (.block [body', .expression e']) next :=
      stepped_reads opened ending closed inside.body under' derives (ends ▸ again)
    rw [sameBody, sameStep] at block
    simpa [Reads, turn, Stmt.renumber, renumberStmts] using block

/-- The loop without the clauses is read as the one they stand for, but for the numbers. -/
theorem loop_reads {second third : Nat} {condition : Option Expr} {body : Stmt}
    (tested : ReadsOptional clauses.condition second condition third)
    (under : ∀ tb ∈ clauses.turn, Reads statement [.keyword .else] tb third body next)
    (written : ts ∈ clauses.loop) :
    Reads statement [.keyword .else] ts second
      (.loop (condition.getD (.literal .true)) body) next := by
  obtain ⟨_, ⟨_, ⟨_, ⟨_, ⟨opener, kind, rfl⟩, _, ⟨left, opened, rfl⟩, rfl⟩, te, test, rfl⟩, _,
    ⟨right, closed, rfl⟩, rfl⟩, tb, turn, rfl⟩ := written
  have kind := List.mem_singleton.mp kind
  have whole := while_reads kind (List.mem_singleton.mp opened) (List.mem_singleton.mp closed)
    (test_reads tested test) (under tb turn)
  simpa using whole

theorem Reads.fixed {s : Stmt} {blocked : List Kind} {start left right : Nat}
    (reads : Reads declaration blocked ts first (some s) next) (below : next ≤ start) :
    s.renumber (exchange start left right) = s := by
  obtain ⟨_, read⟩ := (reads ts.length le_rfl).yields ((statement_declaration_rule _).2 first)
  have kept : ∀ use ∈ s.uses 0, exchange start left right use.id = use.id := by
    intro use member
    have among : use.id ∈ identifiers (stmtUses 0 (some s).toList) := by
      simpa [identifiers, stmtUses] using ⟨use, member, rfl⟩
    obtain ⟨_, above⟩ := (read.fresh 0).within use.id among
    exact exchange_below (by omega)
  exact Likeness.renumber_fixed kept

theorem ReadsOptional.fixed {value : Option Expr} {start left right : Nat}
    (reads : ReadsOptional ts first value next) (below : next ≤ start) :
    (value.getD (.literal .true)).renumber (exchange start left right) =
      value.getD (.literal .true) := by
  cases reads with
  | none => rfl
  | @some _ _ _ e _ reads =>
    obtain ⟨_, read⟩ := (reads ts.length le_rfl).yields (expression_rule _ first)
    have kept : ∀ use ∈ e.uses 0, exchange start left right use.id = use.id := by
      intro use member
      obtain ⟨_, above⟩ := (read.fresh 0).within use.id (List.mem_map_of_mem member)
      exact exchange_below (by omega)
    exact Likeness.renumberExpr_fixed kept

variable (ts ts' first) in
/-- Two programs are read as statements that differ in their numbers only. -/
def ReadsBoth : Prop := ∃ s start left right, first ≤ start ∧
  Reads declaration [.keyword .else] ts first (some s) (start + left + right) ∧
  Reads declaration [.keyword .else] ts' first (some (s.renumber (exchange start left right)))
    (start + left + right)

/-- The loop, from where the initializer ends. -/
theorem bare_reads (inside : clauses.In derived) (spelled : ts ∈ clauses.spelled)
    {initializer : Option Stmt} {second : Nat}
    (starting : ∀ bound, clauses.initializer.length ≤ bound + 1 →
      Takes (forInitializer (rulesAt bound)) [] clauses.initializer first initializer second) :
    ∃ condition increment body start left right, second ≤ start ∧
      Reads statement [.keyword .else] ts first (.forLoop initializer condition increment body)
        (start + left + right) ∧
      ∀ loop ∈ clauses.loop, Reads statement [.keyword .else] loop second
        ((Stmt.loop (condition.getD (.literal .true)) (turn body increment)).renumber
          (exchange start left right)) (start + left + right) := by
  obtain ⟨opener, left, middle, right, rfl, kind, opened, parted, closed⟩ :=
    Clauses.mem_spelled spelled
  obtain ⟨condition, third, tested⟩ := optional_readable inside.condition second
  obtain ⟨increment, fourth, body, next, up, on, stepped, under, turns⟩ := turn_reads inside third
  have ends : third + (fourth - third) + (next - fourth) = next := by omega
  refine ⟨condition, increment, body, third, fourth - third, next - fourth, tested.fresh.1, ?_,
    fun loop written => ?_⟩
  · rw [ends]
    exact for_reads kind opened parted closed starting tested stepped under
  · rw [ends, Stmt.renumber, tested.fixed le_rfl]
    exact loop_reads tested turns written

/-- No declaration is a lone semicolon. -/
theorem not_lone (starts : ts ∈ leading startsDeclaration) :
    ts.map Token.kind ≠ [.symbol .semicolon] := by
  obtain ⟨token, others, rfl, allowed⟩ := starts
  intro alone
  rw [List.map_cons, List.cons.injEq] at alone
  rw [alone.1] at allowed
  cases allowed

/-- Both forms of a loop are read, as statements that differ in their numbers only. -/
theorem forms_read (inside : clauses.In derived) (spelled : ts ∈ clauses.spelled)
    (written : ts' ∈ clauses.writtenOut) (first : Nat) : ReadsBoth ts ts' first := by
  have leads := Clauses.spelled_leading spelled
  have leads' := Clauses.writtenOut_leading written
  unfold Clauses.writtenOut at written
  rcases inside.initializer with declares | ⟨lone, sign, only⟩
  · have starts := initializer_leading declares
    rw [if_neg (not_lone starts)] at written
    obtain ⟨_, ⟨_, ⟨_, ⟨brace, braced, rfl⟩, _, rfl, rfl⟩, loop, rest, rfl⟩, _,
      ⟨last, ended, rfl⟩, rfl⟩ := written
    have braced := List.mem_singleton.mp braced
    obtain ⟨s, second, starting, declaring⟩ := initializer_reads declares first
    obtain ⟨condition, increment, body, start, left, right, on, whole, loops⟩ :=
      bare_reads inside spelled starting
    have led : loop ∈ leading startsStatement := Clauses.loop_leading rest
    have up : first ≤ second := ((declaring clauses.initializer.length le_rfl).yields
      ((statement_declaration_rule _).2 first)).1
    refine ⟨_, start, left, right, up.trans on, statement_declares leads whole, ?_⟩
    have pair : Reads statement [.keyword .else] _ first _ (start + left + right) :=
      pair_reads braced (List.mem_singleton.mp ended) starts (statement_leading led) declaring
        (statement_declares led (loops loop rest))
    refine statement_declares leads' ?_
    simpa [forLoop_eq, Stmt.renumber, renumberStmts, declaring.fixed on] using pair
  · have single : clauses.initializer.map Token.kind = [.symbol .semicolon] := by
      rw [only]
      exact congrArg (· :: []) (List.mem_singleton.mp sign)
    rw [if_pos single] at written
    have starting : ∀ bound, clauses.initializer.length ≤ bound + 1 →
        Takes (forInitializer (rulesAt bound)) [] clauses.initializer first none first := by
      intro bound _ rest endLine faults _
      rw [only]
      simp [forInitializer, accept_hit (List.mem_singleton.mp sign)]
    obtain ⟨condition, increment, body, start, left, right, up, whole, loops⟩ :=
      bare_reads inside spelled starting
    refine ⟨_, start, left, right, up, statement_declares leads whole, ?_⟩
    rw [forLoop_eq]
    exact statement_declares leads' (loops ts' written)

end Forms

end Tree.Parser

namespace Tree

open Tree.Parser Machine Resolution

variable {clauses : Clauses} {ts ts' : List Token} {final final' : Token} {first : Nat}
  {program : List Stmt}

/-- A loop that is accepted is one statement, and the loop written out is the same statement, but for
the numbers that were given out in it. -/
theorem writtenOut_renumbers (grammatical : clauses.In (grammar fun _ => True))
    (spelled : ts ∈ clauses.spelled) (written : ts' ∈ clauses.writtenOut) (last : final.kind = .eof)
    (last' : final'.kind = .eof) (parsed : (parse (ts ++ [final]) first).result = .ok program) :
    ∃ σ : Equiv.Perm Nat,
      (∀ id, σ id ≠ id → first ≤ id ∧ id < (parse (ts ++ [final]) first).nextId) ∧
      parse (ts' ++ [final']) first =
        ⟨.ok (renumberStmts σ program), (parse (ts ++ [final]) first).nextId⟩ := by
  have unended := grammatical.spelled_unended spelled
  have whole := parse_derived parsed
  rw [start_eq unended last] at whole
  obtain ⟨s, start, left, right, up, read, read'⟩ :=
    forms_read (grammatical.limited spelled whole) spelled written first
  have one := parse_one (leading_nonempty (Clauses.spelled_leading spelled)) read unended last
  have one' := parse_one (leading_nonempty (Clauses.writtenOut_leading written)) read'
    (grammatical.writtenOut_unended written) last'
  rw [one] at parsed ⊢
  cases parsed
  refine ⟨exchange start left right, fun id moved => ⟨?_, ?_⟩, one'⟩
  · by_contra below
    exact moved (exchange_below (by omega))
  · dsimp only
    by_contra above
    exact moved (exchange_above (by omega))

/-- A loop with clauses is the loop written out: the one is read as the other is, but for a
permutation of the numbers that were given out in it, the references of both are resolved to the same
distances, and both run alike from any state that a session can be in. -/
theorem loops_agree (grammatical : clauses.In (grammar fun _ => True))
    (spelled : ts ∈ clauses.spelled) (written : ts' ∈ clauses.writtenOut) (last : final.kind = .eof)
    (last' : final'.kind = .eof) (parsed : (parse (ts ++ [final]) first).result = .ok program) :
    ∃ σ : Equiv.Perm Nat,
      (∀ id, σ id ≠ id → first ≤ id ∧ id < (parse (ts ++ [final]) first).nextId) ∧
      parse (ts' ++ [final']) first =
        ⟨.ok (renumberStmts σ program), (parse (ts ++ [final]) first).nextId⟩ ∧
      resolve (renumberStmts σ program) = (resolve program).map (List.map (Prod.map σ id)) ∧
      ((∀ token ∈ ts, token.Genuine) → ∀ session, Reachable Discreet (.idle session) →
        session.nextId = first → ∀ entries, resolve program = .ok entries → ∀ steps,
          Option.Rel (EndsAlike σ)
            (run steps (interpreting program (session.machine.record entries)))
            (run steps (interpreting (renumberStmts σ program)
              (session.machine.record (entries.map (Prod.map σ id)))))) := by
  obtain ⟨σ, inside, again⟩ :=
    writtenOut_renumbers grammatical spelled written last last' parsed
  refine ⟨σ, inside, again, resolve_renumber σ program, ?_⟩
  intro genuine session reached same entries resolved steps
  subst same
  have words : ∀ token ∈ ts ++ [final], token.Genuine := by
    refine List.forall_mem_append.mpr ⟨genuine, List.forall_mem_singleton.mpr ?_⟩
    simp [Token.Genuine, last]
  obtain ⟨up, read⟩ := parse_read words parsed
  have old : ∀ id < session.nextId, σ id = id := by
    intro id earlier
    by_contra moved
    have := (inside id moved).1
    omega
  exact runs_renumber reached σ.injective old up read resolved steps

/-- What is under the numbers 2 and 3 in the one is under 3 and 1 in the other. -/
theorem loops_agree_once : ∃ (σ : Equiv.Perm Nat) (program : List Stmt),
    (parse (Source.tokens (Source.scan "for (var i; !i; i = true) print i;")) 0).result =
      .ok program ∧
    (parse (Source.tokens (Source.scan "\x7bvar i; while (!i) \x7bprint i; i = true;\x7d\x7d"))
      0).result = .ok (renumberStmts σ program) ∧
    resolve program = .ok [(0, 0), (3, 1), (2, 1)] ∧
    resolve (renumberStmts σ program) = .ok [(0, 0), (1, 1), (3, 1)] ∧
    ∀ steps, Option.Rel (EndsAlike σ)
      (run steps (interpreting program
        ((State.start (fun _ => 0) false).record [(0, 0), (3, 1), (2, 1)])))
      (run steps (interpreting (renumberStmts σ program)
        ((State.start (fun _ => 0) false).record [(0, 0), (1, 1), (3, 1)]))) := by
  let sign (sign : Symbol) (text : String) : Token := ⟨.symbol sign, text, 1⟩
  let word (word : Keyword) : Token := ⟨.keyword word, word.text, 1⟩
  let name : Token := ⟨.identifier, "i", 1⟩
  let initializer := [word .var, name, sign .semicolon ";"]
  let condition := [sign .bang "!", name]
  let increment := [name, sign .equal "=", word .true]
  let body := [word .print, name, sign .semicolon ";"]
  let clauses : Clauses := ⟨initializer, condition, increment, body⟩
  have rules := statement_declaration_consumes 1
  have consume : (rulesAt 1).Consume := ⟨expression_consumes 2, rules.1, rules.2⟩
  have inside : clauses.In derived := {
    initializer := (forInitializer_consumes consume).mem (by cbv)
    condition := .inl ((expression_consumes 2).mem (by cbv))
    increment := .inl ((expression_consumes 2).mem (by cbv))
    body := (statement_declaration_consumes 2).1.mem (by cbv) }
  have signed (given : Symbol) (text : String) : [sign given text] ∈ symbol given :=
    one_mem (List.mem_singleton_self _)
  have worded (given : Keyword) : [word given] ∈ keyword given :=
    one_mem (List.mem_singleton_self _)
  let ts := [word .for] ++ [sign .leftParen "("] ++ initializer ++ condition ++
    [sign .semicolon ";"] ++ increment ++ [sign .rightParen ")"] ++ body
  have spelled : ts ∈ clauses.spelled := by
    unfold Clauses.spelled
    iterate 7 refine Language.append_mem_mul ?_ ?_
    exacts [worded _, signed _ _, rfl, rfl, signed _ _, rfl, signed _ _, rfl]
  let turn := [sign .leftBrace "\x7b"] ++ body ++ increment ++ [sign .semicolon ";"] ++
    [sign .rightBrace "\x7d"]
  have turned : turn ∈ clauses.turn := by
    rw [Clauses.turn, if_neg (List.cons_ne_nil _ _)]
    iterate 4 refine Language.append_mem_mul ?_ ?_
    exacts [signed _ _, rfl, rfl, signed _ _, signed _ _]
  let loop := [word .while] ++ [sign .leftParen "("] ++ condition ++ [sign .rightParen ")"] ++ turn
  have looped : loop ∈ clauses.loop := by
    rw [Clauses.loop, Clauses.test, if_neg (List.cons_ne_nil _ _)]
    iterate 4 refine Language.append_mem_mul ?_ ?_
    exacts [worded _, signed _ _, rfl, signed _ _, turned]
  let ts' := [sign .leftBrace "\x7b"] ++ initializer ++ loop ++ [sign .rightBrace "\x7d"]
  have written : ts' ∈ clauses.writtenOut := by
    rw [Clauses.writtenOut, if_neg (by decide)]
    iterate 3 refine Language.append_mem_mul ?_ ?_
    exacts [signed _ _, rfl, looped, signed _ _]
  have scanned : Source.tokens (Source.scan "for (var i; !i; i = true) print i;") =
      ts ++ [Token.eof 1] := by cbv
  have scanned' : Source.tokens (Source.scan "\x7bvar i; while (!i) \x7bprint i; i = true;\x7d\x7d") =
      ts' ++ [Token.eof 1] := by cbv
  let program : List Stmt := [.block [.var name none,
    .loop (.unary (sign .bang "!") (.variable ⟨0, name⟩)) (.block [.print (.variable ⟨3, name⟩),
      .expression (.assign ⟨2, name⟩ (.literal .true))])]]
  have parsed : (parse (ts ++ [Token.eof 1]) 0).result = .ok program := by cbv
  have last : (Token.eof 1).kind = .eof := rfl
  obtain ⟨σ, _, again, alike, runs⟩ :=
    loops_agree (inside.mono grammar_unlimited) spelled written last last parsed
  have other : (parse (ts' ++ [Token.eof 1]) 0).result = .ok [.block [.var name none,
      .loop (.unary (sign .bang "!") (.variable ⟨0, name⟩)) (.block [.print (.variable ⟨1, name⟩),
        .expression (.assign ⟨3, name⟩ (.literal .true))])]] := by cbv
  rw [again] at other
  have numbers : σ 0 = 0 ∧ σ 3 = 1 ∧ σ 2 = 3 := by
    simpa [program, renumberStmts, Stmt.renumber, Expr.renumber, Reference.renumber] using other
  have resolved : resolve program = .ok [(0, 0), (3, 1), (2, 1)] := by cbv
  let session := Session.start (fun _ => 0) false
  have reached : Reachable Discreet (.idle session) := ⟨_, _, .refl _⟩
  have genuine : ∀ token ∈ ts, token.Genuine := by
    intro token member
    refine Source.tokens_genuine "for (var i; !i; i = true) print i;" token ?_
    rw [scanned]
    exact List.mem_append_left _ member
  have both := runs genuine session reached rfl _ resolved
  rw [resolved] at alike
  simp only [Except.map, List.map_cons, List.map_nil, Prod.map_apply, id, numbers] at alike both
  rw [scanned, scanned']
  exact ⟨σ, program, parsed, congrArg _ again, resolved, alike, both⟩

end Tree
end Lox
