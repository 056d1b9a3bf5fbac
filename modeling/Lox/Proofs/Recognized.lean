import Lox.Proofs.Admitted

/-! The parser accepts the programs of the grammar and no others. -/

namespace Lox.Tree.Parser

open Grammar Computability

/-- The rules for what is inside of a statement. -/
def rulesAt (bound : Nat) : Rules :=
  ⟨bound + 1, expression (bound + 1), statement bound, declaration bound⟩

/-- Tokens are read as one value inside of a statement. -/
def ReadableIn {α : Type} (parser : Rules → Parser α) (ts : List Token) : Prop :=
  ∀ first, ∃ value next, ∀ bound, ts.length ≤ bound + 1 →
    Takes (parser (rulesAt bound)) [] ts first value next

variable {α : Type} {ts rest : List Token} {token : Token} {endLine first next : Nat}
  {faults : List Fault}

/-- Tokens are read as this value, whatever the bound that lets them be read. -/
def Reads {α : Type} (parser : Nat → Parser α) (blocked : List Kind) (ts : List Token)
    (first : Nat) (value : α) (next : Nat) : Prop :=
  ∀ bound, ts.length ≤ bound → Takes (parser bound) blocked ts first value next

abbrev ReadsExpr : List Token → Nat → Expr → Nat → Prop :=
  Reads (fun bound => expression (bound + 1)) expressionBlocked

/-- An expression that may be left out is read as this value. -/
inductive ReadsOptional : List Token → Nat → Option Expr → Nat → Prop
  | none (first : Nat) : ReadsOptional [] first none first
  | some {ts : List Token} {first next : Nat} {value : Expr} : ts ∈ derived .expression →
      ReadsExpr ts first value next → ReadsOptional ts first (some value) next

theorem optional_readable (inside : ts ∈ optional (derived .expression)) (first : Nat) :
    ∃ value next, ReadsOptional ts first value next := by
  rcases inside with inner | rfl
  · obtain ⟨value, next, read⟩ := expression_readable inner first
    exact ⟨some value, next, .some inner read⟩
  · exact ⟨none, first, .none first⟩

/-! ### Statements without statements in them -/

theorem expressionStatement_readable (inside : ts ∈ derived .exprStmt) :
    ReadableIn expressionStatement ts := by
  rw [derived_eq] at inside
  obtain ⟨te, inner, _, ⟨last, ending, rfl⟩, rfl⟩ := inside
  have ending : last.kind = .symbol .semicolon := List.mem_singleton.mp ending
  intro first
  obtain ⟨value, next, read⟩ := expression_readable inner first
  refine ⟨.expression value, next, fun bound enough rest endLine faults _ => ?_⟩
  have one := read bound (by simpa using enough) (last :: rest) endLine faults
    (clear_cons.mpr (by rw [ending]; decide))
  simp [expressionStatement, rulesAt, one, expect_hit _ ending]

theorem varDeclaration_readable (inside : ts ∈
    identifier * (optional (symbol .equal * derived .expression) * symbol .semicolon)) :
    ReadableIn varDeclaration ts := by
  obtain ⟨_, ⟨name, named, rfl⟩, _, ⟨_, given, _, ⟨last, ending, rfl⟩, rfl⟩, rfl⟩ := inside
  have named : name.kind = .identifier := List.mem_singleton.mp named
  have ending : last.kind = .symbol .semicolon := List.mem_singleton.mp ending
  intro first
  rcases given with ⟨_, ⟨equals, sign, rfl⟩, te, inner, rfl⟩ | rfl
  · have sign : equals.kind = .symbol .equal := List.mem_singleton.mp sign
    obtain ⟨value, next, read⟩ := expression_readable inner first
    refine ⟨.var name (some value), next, fun bound enough rest endLine faults _ => ?_⟩
    simp only [List.length_append, List.length_cons, List.length_nil] at enough
    have one := read bound (by omega) (last :: rest) endLine faults
      (clear_cons.mpr (by rw [ending]; decide))
    simp [varDeclaration, rulesAt, expectName_hit _ named, accept_hit sign, one, expect_hit _ ending]
  · refine ⟨.var name none, first, fun bound _ rest endLine faults _ => ?_⟩
    have miss : Clear [.symbol .equal] (last :: rest) := by simp [ending]
    simp [varDeclaration, expectName_hit _ named, accept_miss miss, expect_hit _ ending]

/-- What may be left out is read up to a symbol that no expression starts with. -/
theorem optionalUnless_reads {closing : Symbol} (apart : startsExpression (.symbol closing) = false)
    (free : .symbol closing ∉ expressionBlocked) {value : Option Expr}
    (read : ReadsOptional ts first value next) {bound : Nat} (enough : ts.length ≤ bound)
    {right : Token} (closed : right.kind = .symbol closing) :
    optionalUnless (rulesAt bound) closing ⟨ts ++ right :: rest, endLine, first, faults⟩ =
      (.ok value, ⟨right :: rest, endLine, next, faults⟩) := by
  cases read with
  | some inner read =>
    have miss : Clear [.symbol closing] (ts ++ right :: rest) :=
      clear_of_derived inner (by simpa [starts] using apart)
    have one := read bound enough (right :: rest) endLine faults
      (clear_cons.mpr (by rwa [closed]))
    simp [optionalUnless, sees_miss miss, rulesAt, one]
  | none => simp [optionalUnless, sees_hit closed]

theorem printStatement_readable (inside : ts ∈ derived .expression * symbol .semicolon) :
    ReadableIn printStatement ts := by
  obtain ⟨te, inner, _, ⟨last, ending, rfl⟩, rfl⟩ := inside
  have ending : last.kind = .symbol .semicolon := List.mem_singleton.mp ending
  intro first
  obtain ⟨value, next, read⟩ := expression_readable inner first
  refine ⟨.print value, next, fun bound enough rest endLine faults _ => ?_⟩
  have one := read bound (by simpa using enough) (last :: rest) endLine faults
    (clear_cons.mpr (by rw [ending]; decide))
  simp [printStatement, rulesAt, one, expect_hit _ ending]

theorem returnStatement_readable (keyword : Token)
    (inside : ts ∈ optional (derived .expression) * symbol .semicolon) :
    ReadableIn (fun rules => returnStatement rules keyword) ts := by
  obtain ⟨te, inner, _, ⟨last, ending, rfl⟩, rfl⟩ := inside
  have ending : last.kind = .symbol .semicolon := List.mem_singleton.mp ending
  intro first
  have free : Kind.symbol .semicolon ∉ expressionBlocked := by decide
  obtain ⟨value, next, read⟩ := optional_readable inner first
  refine ⟨.ret keyword value, next, fun bound enough rest endLine faults _ => ?_⟩
  have one : optionalUnless (rulesAt bound) .semicolon
      ⟨te ++ last :: rest, endLine, first, faults⟩ = _ :=
    optionalUnless_reads rfl free read (by simpa using enough) ending
  simp [returnStatement, one, expect_hit _ ending]

/-! ### Blocks, functions and classes -/

/-- A declaration that is read, unless an `else` follows. -/
def ReadDeclaration (ts : List Token) : Prop :=
  ts ∈ derived .declaration ∧ Readable declaration [.keyword .else] ts

/-- Shorter declarations are read. -/
def DeclaredBelow (size : Nat) : Prop :=
  ∀ ts ∈ derived .declaration, ts.length < size → ReadDeclaration ts

theorem clear_declarations {parts : List (List Token)} (each : ∀ part ∈ parts, ReadDeclaration part)
    (clear : Clear [.keyword .else] rest) : Clear [.keyword .else] (parts.flatten ++ rest) := by
  cases parts with
  | nil => exact clear
  | cons part others =>
    rw [List.flatten_cons, List.append_assoc]
    exact clear_of_derived (each part List.mem_cons_self).1 (by decide)

/-- Declarations are read one after the other, and what follows them after that. -/
theorem declarations_readable {stop : Parser Bool}
    (goes : ∀ part ∈ derived .declaration, ∀ rest endLine first faults,
      stop ⟨part ++ rest, endLine, first, faults⟩ =
        (.ok false, ⟨part ++ rest, endLine, first, faults⟩)) :
    ∀ parts : List (List Token), (∀ part ∈ parts, ReadDeclaration part) →
      ∀ first, ∃ values next, ∀ bound inner, parts.flatten.length ≤ bound →
        parts.flatten.length ≤ inner → ∀ rest endLine faults, Clear [.keyword .else] rest →
          parts.length ≤ inner ∧
          declarations (declaration bound) stop inner
              ⟨parts.flatten ++ rest, endLine, first, faults⟩ =
            ((values ++ ·) <$> declarations (declaration bound) stop (inner - parts.length))
              ⟨rest, endLine, next, faults⟩
  | [], _, first => by
    refine ⟨[], first, fun bound inner _ _ rest endLine faults _ => ⟨Nat.zero_le _, ?_⟩⟩
    simp only [List.flatten_nil, List.nil_append, List.length_nil, Nat.sub_zero, map_apply]
    split <;> simp [*]
  | part :: parts, each, first => by
    obtain ⟨inside, reads⟩ := each part List.mem_cons_self
    have others := fun part member => each part (List.mem_cons_of_mem _ member)
    obtain ⟨value, middle, read⟩ := reads first
    obtain ⟨values, next, further⟩ := declarations_readable goes parts others middle
    refine ⟨value.toList ++ values, next, fun bound inner enough deep rest endLine faults clear => ?_⟩
    obtain ⟨token, left, rfl, _⟩ := grammar_leading .declaration inside
    simp only [List.flatten_cons, List.length_append, List.length_cons] at enough deep
    obtain ⟨inner, rfl⟩ : ∃ lower, inner = lower + 1 := ⟨inner - 1, by omega⟩
    have free := goes _ inside (parts.flatten ++ rest) endLine first faults
    have one := read bound (by rw [List.length_cons]; omega) (parts.flatten ++ rest) endLine faults
      (clear_declarations others clear)
    obtain ⟨room, same⟩ := further bound inner (by omega) (by omega) rest endLine faults clear
    refine ⟨Nat.succ_le_succ room, ?_⟩
    rw [List.flatten_cons, List.append_assoc, declarations, List.length_cons,
      Nat.add_sub_add_right]
    simp only [List.cons_append] at free one ⊢
    simp only [bind_apply, atEnd, List.isEmpty_cons, Bool.false_eq_true, if_false, free, one, same,
      map_apply]
    rcases declarations (declaration bound) stop (inner - parts.length)
      ⟨rest, endLine, next, faults⟩ with ⟨fault | more, after⟩ <;> simp

theorem block_readable {size : Nat} (below : DeclaredBelow size)
    (inside : ts ∈ (derived .declaration)∗ * symbol .rightBrace) (short : ts.length ≤ size) :
    ReadableIn block ts := by
  obtain ⟨_, ⟨parts, rfl, each⟩, _, ⟨last, ending, rfl⟩, rfl⟩ := inside
  have ending : last.kind = .symbol .rightBrace := List.mem_singleton.mp ending
  have short : parts.flatten.length + 1 ≤ size := by simpa using short
  have reads : ∀ part ∈ parts, ReadDeclaration part := by
    intro part member
    have within := (List.sublist_flatten_of_mem member).length_le
    exact below part (each part member) (by omega)
  have goes : ∀ part ∈ derived .declaration, ∀ rest endLine first faults,
      sees (.symbol .rightBrace) ⟨part ++ rest, endLine, first, faults⟩ =
        (.ok false, ⟨part ++ rest, endLine, first, faults⟩) :=
    fun part inside rest _ _ _ => sees_miss (clear_of_derived inside (by decide))
  intro first
  obtain ⟨values, next, read⟩ := declarations_readable goes parts reads first
  refine ⟨values, next, fun bound enough rest endLine faults _ => ?_⟩
  have enough : parts.flatten.length ≤ bound := by simpa using enough
  obtain ⟨_, all⟩ := read bound (bound + 1) enough (by omega) (last :: rest) endLine faults
    (by simp [ending])
  have stops (inner : Nat) : declarations (declaration bound) (sees (.symbol .rightBrace)) inner
      ⟨last :: rest, endLine, next, faults⟩ = (.ok [], ⟨last :: rest, endLine, next, faults⟩) := by
    cases inner with
    | zero => rfl
    | succ inner => simp [declarations, atEnd, sees_hit ending]
  simp only [block, rulesAt, bind_apply, List.append_assoc, List.singleton_append, all, map_apply,
    stops, expect_hit _ ending, pure_apply, List.append_nil]

theorem parameter_readable (inside : ts ∈ identifier) :
    Readable (fun _ => expectName "parameter name") [] ts := by
  obtain ⟨name, named, rfl⟩ := inside
  exact fun first => ⟨name, first, fun _ _ rest endLine faults _ =>
    expectName_hit _ (List.mem_singleton.mp named)⟩

theorem function_readable {size : Nat} (below : DeclaredBelow size) (role : String)
    (inside : ts ∈ derived .function) (short : ts.length ≤ size) :
    ReadableIn (fun rules => function rules role) ts := by
  rw [derived_eq] at inside
  obtain ⟨_, ⟨_, ⟨_, ⟨_, ⟨name, named, rfl⟩, _, ⟨left, opened, rfl⟩, rfl⟩, args, given, rfl⟩,
    _, ⟨right, closed, rfl⟩, rfl⟩, tb, body, rfl⟩ := inside
  rw [derived_eq] at body given
  simp only [production, mul_assoc] at body
  obtain ⟨_, ⟨brace, braced, rfl⟩, tb, body, rfl⟩ := body
  have named : name.kind = .identifier := List.mem_singleton.mp named
  have opened : left.kind = .symbol .leftParen := List.mem_singleton.mp opened
  have closed : right.kind = .symbol .rightParen := List.mem_singleton.mp closed
  have braced : brace.kind = .symbol .leftBrace := List.mem_singleton.mp braced
  simp only [List.length_append, List.length_cons, List.length_nil] at short
  intro first
  obtain ⟨params, middle, read⟩ := listed_readable "parameters"
    (fun te member _ => parameter_readable member) (by simp) (by simp)
    (oneOf_leading (by simp [starts]) : identifier ≤ leading (starts .parameters)) rfl given le_rfl first
  obtain ⟨statements, next, further⟩ := block_readable below body (by omega) middle
  refine ⟨⟨name, params, statements⟩, next, fun bound enough rest endLine faults clear => ?_⟩
  simp only [List.length_append, List.length_cons, List.length_nil] at enough
  have one := read args.length (bound + 1) le_rfl (by omega) right (brace :: (tb ++ rest)) endLine
    faults closed
  have two := further bound (by omega) rest endLine faults clear
  simp [function, expectName_hit _ named, expect_hit _ opened, show (rulesAt bound).bound = bound + 1
    from rfl, one, expect_hit _ closed, expect_hit _ braced, two]

theorem methods_readable {size : Nat} (below : DeclaredBelow size) :
    ∀ parts : List (List Token), (∀ part ∈ parts, part ∈ derived .function) →
      parts.flatten.length ≤ size → ∀ first, ∃ values next, ∀ bound inner,
        parts.flatten.length ≤ bound + 1 → parts.flatten.length ≤ inner →
        ∀ last rest endLine faults, last.kind = .symbol .rightBrace →
          methods (rulesAt bound) inner ⟨parts.flatten ++ last :: rest, endLine, first, faults⟩ =
            (.ok values, ⟨last :: rest, endLine, next, faults⟩)
  | [], _, _, first => by
    refine ⟨[], first, fun bound inner _ _ last rest endLine faults ending => ?_⟩
    cases inner with
    | zero => rfl
    | succ inner => simp [methods, atEnd, sees_hit ending]
  | part :: parts, each, short, first => by
    simp only [List.flatten_cons, List.length_append] at short
    have inside := each part List.mem_cons_self
    obtain ⟨value, middle, read⟩ := function_readable below "method" inside (by omega) first
    obtain ⟨values, next, further⟩ := methods_readable below parts
      (fun part member => each part (List.mem_cons_of_mem _ member)) (by omega) middle
    refine ⟨value :: values, next, fun bound inner enough deep last rest endLine faults ending => ?_⟩
    simp only [List.flatten_cons, List.length_append] at enough deep
    have miss : Clear [.symbol .rightBrace] (part ++ (parts.flatten ++ last :: rest)) :=
      clear_of_derived inside (by decide)
    obtain ⟨token, left, rfl, _⟩ := grammar_leading .function inside
    simp only [List.length_cons] at enough deep
    obtain ⟨inner, rfl⟩ : ∃ lower, inner = lower + 1 := ⟨inner - 1, by omega⟩
    have one := read bound (by rw [List.length_cons]; omega) (parts.flatten ++ last :: rest) endLine
      faults
      (fun _ _ => List.not_mem_nil)
    have all := further bound inner (by omega) (by omega) last rest endLine faults ending
    simp only [List.flatten_cons, List.append_assoc, List.cons_append] at miss one ⊢
    simp [methods, atEnd, sees_miss miss, one, all]

/-- What stands between `class` and the end of it. -/
theorem classDeclaration_readable {size : Nat} (below : DeclaredBelow size)
    (inside : ts ∈ identifier * (optional (symbol .less * identifier) * (symbol .leftBrace *
      ((derived .function)∗ * symbol .rightBrace)))) (short : ts.length ≤ size) :
    ReadableIn classDeclaration ts := by
  obtain ⟨_, ⟨name, named, rfl⟩, _, ⟨above, given, _, ⟨_, ⟨brace, braced, rfl⟩, _,
    ⟨_, ⟨parts, rfl, each⟩, _, ⟨last, ending, rfl⟩, rfl⟩, rfl⟩, rfl⟩, rfl⟩ := inside
  have named : name.kind = .identifier := List.mem_singleton.mp named
  have braced : brace.kind = .symbol .leftBrace := List.mem_singleton.mp braced
  have ending : last.kind = .symbol .rightBrace := List.mem_singleton.mp ending
  simp only [List.length_append, List.length_cons, List.length_nil] at short
  intro first
  obtain ⟨super, middle, inherits⟩ : ∃ super middle, ∀ rest endLine faults,
      superclass ⟨above ++ brace :: rest, endLine, first, faults⟩ =
        (.ok super, ⟨brace :: rest, endLine, middle, faults⟩) := by
    rcases given with ⟨_, ⟨less, sign, rfl⟩, _, ⟨inherited, known, rfl⟩, rfl⟩ | rfl
    · have sign : less.kind = .symbol .less := List.mem_singleton.mp sign
      have known : inherited.kind = .identifier := List.mem_singleton.mp known
      exact ⟨some ⟨first, inherited⟩, first + 1, fun rest endLine faults => by
        simp [superclass, accept_hit sign, expectName_hit _ known, reference]⟩
    · refine ⟨none, first, fun rest endLine faults => ?_⟩
      have miss : Clear [.symbol .less] (brace :: rest) := by simp [braced]
      simp [superclass, accept_miss miss]
  obtain ⟨values, next, read⟩ := methods_readable below parts each (by omega) middle
  refine ⟨.classDecl name super values, next, fun bound enough rest endLine faults _ => ?_⟩
  simp only [List.length_append, List.length_cons, List.length_nil] at enough
  have all := read bound (bound + 1) (by omega) (by omega) last rest endLine faults ending
  simp [classDeclaration, expectName_hit _ named, inherits, expect_hit _ braced,
    show (rulesAt bound).bound = bound + 1 from rfl, all, expect_hit _ ending]

/-! ### Statements with statements in them -/

/-- The first token tells which statement it is. -/
theorem anyStatement_cons (rules : Rules) :
    anyStatement rules ⟨token :: rest, endLine, first, faults⟩ =
      match token.kind with
      | .keyword .for => forStatement rules ⟨rest, endLine, first, faults⟩
      | .keyword .if => ifStatement rules ⟨rest, endLine, first, faults⟩
      | .keyword .while => whileStatement rules ⟨rest, endLine, first, faults⟩
      | .keyword .return => returnStatement rules token ⟨rest, endLine, first, faults⟩
      | .symbol .leftBrace => (Stmt.block <$> block rules) ⟨rest, endLine, first, faults⟩
      | .keyword .print => printStatement rules ⟨rest, endLine, first, faults⟩
      | _ => expressionStatement rules ⟨token :: rest, endLine, first, faults⟩ := by
  rcases kind : token.kind with sign | word | _ | text | value | _
  · cases sign <;> simp [anyStatement, accept, acceptAny?, kind]
  · cases word <;> simp [anyStatement, accept, acceptAny?, kind]
  all_goals simp [anyStatement, accept, acceptAny?, kind]

/-- Any other first token starts an expression. -/
theorem anyStatement_expression (rules : Rules) (clear : Clear [.keyword .for, .keyword .if,
    .keyword .while, .keyword .return, .symbol .leftBrace, .keyword .print] rest) :
    anyStatement rules ⟨rest, endLine, first, faults⟩ =
      expressionStatement rules ⟨rest, endLine, first, faults⟩ := by
  have missed {kind : Kind} (member : kind ∈ [.keyword .for, .keyword .if, .keyword .while,
      .keyword .return, .symbol .leftBrace, .keyword .print]) : Clear [kind] rest :=
    clear.mono (by simpa using member)
  unfold anyStatement
  simp (disch := decide) [accept_miss (missed _), acceptAny_miss (missed _)]

variable {blocked : List Kind}

/-- A statement is read where the rules for it read it. -/
theorem statement_reads {value : Stmt} (nonempty : 0 < ts.length)
    (read : ∀ bound, ts.length ≤ bound + 1 →
      Takes (anyStatement (rulesAt bound)) blocked ts first value next) :
    Reads statement blocked ts first value next := by
  intro bound enough
  obtain ⟨bound, rfl⟩ : ∃ lower, bound = lower + 1 := ⟨bound - 1, by omega⟩
  exact read bound enough

theorem statement_readable (nonempty : 0 < ts.length)
    (read : ∃ value next, ∀ bound, ts.length ≤ bound + 1 →
      Takes (anyStatement (rulesAt bound)) blocked ts first value next) :
    ∃ value next, Reads statement blocked ts first value next := by
  obtain ⟨value, next, read⟩ := read
  exact ⟨value, next, statement_reads nonempty read⟩

/-- What a `while` or an `if` starts with, up to the statement under it. -/
def guarded (word : Keyword) : Language Token :=
  keyword word * (symbol .leftParen * (derived .expression * symbol .rightParen))

variable {head body other : List Token} {word : Keyword}

theorem mem_guarded (inside : head ∈ guarded word) :
    ∃ opener left condition right, head = opener :: left :: (condition ++ [right]) ∧
      opener.kind = .keyword word ∧ left.kind = .symbol .leftParen ∧
      condition ∈ derived .expression ∧ right.kind = .symbol .rightParen := by
  obtain ⟨_, ⟨opener, kind, rfl⟩, _, ⟨_, ⟨left, opened, rfl⟩, _, ⟨condition, inner, _,
    ⟨right, closed, rfl⟩, rfl⟩, rfl⟩, rfl⟩ := inside
  exact ⟨opener, left, condition, right, rfl, List.mem_singleton.mp kind,
    List.mem_singleton.mp opened, inner, List.mem_singleton.mp closed⟩

theorem while_reads {opener left right : Token} (kind : opener.kind = .keyword .while)
    (opened : left.kind = .symbol .leftParen) (closed : right.kind = .symbol .rightParen)
    {te : List Token} {middle : Nat} {condition : Expr} {stmt : Stmt}
    (tested : ReadsExpr te first condition middle)
    (under : Reads statement blocked body middle stmt next) :
    Reads statement blocked (opener :: left :: (te ++ right :: body)) first (.loop condition stmt)
      next := by
  refine statement_reads (Nat.succ_pos _) ?_
  intro bound enough rest endLine faults clear
  simp only [List.length_append, List.length_cons] at enough
  have one := tested bound (by omega) (right :: (body ++ rest)) endLine faults
    (clear_cons.mpr (by rw [closed]; decide))
  have two := under bound (by omega) rest endLine faults clear
  simp [anyStatement_cons, kind, whileStatement, rulesAt, expect_hit _ opened, one,
    expect_hit _ closed, two]

theorem while_readable (inside : head ∈ guarded .while) (reads : Readable statement blocked body) :
    Readable statement blocked (head ++ body) := by
  obtain ⟨opener, left, te, right, rfl, kind, opened, inner, closed⟩ := mem_guarded inside
  intro first
  obtain ⟨condition, middle, one⟩ := expression_readable inner first
  obtain ⟨stmt, next, two⟩ := reads middle
  have whole := while_reads kind opened closed one two
  refine ⟨.loop condition stmt, next, ?_⟩
  simpa [Reads] using whole

theorem if_readable (inside : head ∈ guarded .if) (reads : Readable statement [.keyword .else] body) :
    Readable statement [.keyword .else] (head ++ body) := by
  obtain ⟨opener, left, te, right, rfl, kind, opened, inner, closed⟩ := mem_guarded inside
  intro first
  obtain ⟨condition, middle, one⟩ := expression_readable inner first
  obtain ⟨stmt, next, two⟩ := reads middle
  refine statement_readable (by simp) ⟨.conditional condition stmt none, next, ?_⟩
  intro bound enough rest endLine faults clear
  simp only [List.length_append, List.length_cons, List.length_nil] at enough
  have one := one bound (by omega) (right :: (body ++ rest)) endLine faults
    (clear_cons.mpr (by rw [closed]; decide))
  have two := two bound (by omega) rest endLine faults clear
  simp [anyStatement_cons, kind, ifStatement, rulesAt, expect_hit _ opened, one,
    expect_hit _ closed, two, accept_miss clear]

theorem ifElse_readable {otherwise : Token} (inside : head ∈ guarded .if)
    (reads : Readable statement [] body) (turn : otherwise.kind = .keyword .else)
    (last : Readable statement blocked other) :
    Readable statement blocked (head ++ (body ++ otherwise :: other)) := by
  obtain ⟨opener, left, te, right, rfl, kind, opened, inner, closed⟩ := mem_guarded inside
  intro first
  obtain ⟨condition, middle, one⟩ := expression_readable inner first
  obtain ⟨stmt, later, two⟩ := reads middle
  obtain ⟨branch, next, three⟩ := last later
  refine statement_readable (by simp) ⟨.conditional condition stmt (some branch), next, ?_⟩
  intro bound enough rest endLine faults clear
  simp only [List.length_append, List.length_cons, List.length_nil] at enough
  have one := one bound (by omega) (right :: (body ++ otherwise :: (other ++ rest))) endLine faults
    (clear_cons.mpr (by rw [closed]; decide))
  have two := two bound (by omega) (otherwise :: (other ++ rest)) endLine faults
    (fun _ _ => List.not_mem_nil)
  have three := three bound (by omega) rest endLine faults clear
  simp [anyStatement_cons, kind, ifStatement, rulesAt, expect_hit _ opened, one,
    expect_hit _ closed, two, accept_hit turn, three]

theorem forInitializer_readable
    (inside : ts ∈ derived .varDecl + derived .exprStmt + symbol .semicolon) :
    ReadableIn forInitializer ts := by
  intro first
  rcases inside with (declared | expr) | ⟨last, ending, rfl⟩
  · rw [derived_eq] at declared
    simp only [production, mul_assoc] at declared
    obtain ⟨_, ⟨opener, kind, rfl⟩, others, inner, rfl⟩ := declared
    have kind : opener.kind = .keyword .var := List.mem_singleton.mp kind
    obtain ⟨value, next, read⟩ := varDeclaration_readable inner first
    refine ⟨some value, next, fun bound enough rest endLine faults clear => ?_⟩
    have enough : others.length ≤ bound := by simpa using enough
    have one := read bound (by omega) rest endLine faults clear
    have miss : Clear [.symbol .semicolon] (opener :: (others ++ rest)) := by simp [kind]
    simp [forInitializer, accept_miss miss, accept_hit kind, one]
  · obtain ⟨value, next, read⟩ := expressionStatement_readable expr first
    refine ⟨some value, next, fun bound enough rest endLine faults clear => ?_⟩
    have one := read bound enough rest endLine faults clear
    have full : Clear [.symbol .semicolon] (ts ++ rest) := clear_of_derived expr (by decide)
    have undeclared : Clear [.keyword .var] (ts ++ rest) := clear_of_derived expr (by decide)
    simp [forInitializer, accept_miss full, accept_miss undeclared, one]
  · have ending : last.kind = .symbol .semicolon := List.mem_singleton.mp ending
    exact ⟨none, first, fun bound _ rest endLine faults _ => by
      simp [forInitializer, accept_hit ending]⟩

/-- What a `for` starts with, up to the statement under it. -/
def forHead : Language Token :=
  keyword .for * (symbol .leftParen * ((derived .varDecl + derived .exprStmt + symbol .semicolon) *
    (optional (derived .expression) * (symbol .semicolon * (optional (derived .expression) *
    symbol .rightParen)))))

theorem for_reads {opener left middle right : Token} (kind : opener.kind = .keyword .for)
    (opened : left.kind = .symbol .leftParen) (parted : middle.kind = .symbol .semicolon)
    (closed : right.kind = .symbol .rightParen) {ti tc tn : List Token} {second third fourth : Nat}
    {initializer : Option Stmt} {condition increment : Option Expr} {stmt : Stmt}
    (starting : ∀ bound, ti.length ≤ bound + 1 →
      Takes (forInitializer (rulesAt bound)) [] ti first initializer second)
    (tested : ReadsOptional tc second condition third)
    (stepped : ReadsOptional tn third increment fourth)
    (under : Reads statement blocked body fourth stmt next) :
    Reads statement blocked
      (opener :: left :: (ti ++ (tc ++ middle :: (tn ++ right :: body)))) first
      (.forLoop initializer condition increment stmt) next := by
  have apart : Kind.symbol .semicolon ∉ expressionBlocked := by decide
  have free : Kind.symbol .rightParen ∉ expressionBlocked := by decide
  refine statement_reads (Nat.succ_pos _) ?_
  intro bound enough rest endLine faults clear
  simp only [List.length_append, List.length_cons] at enough
  have one := starting bound (by omega) (tc ++ middle :: (tn ++ right :: (body ++ rest))) endLine faults
    (fun _ _ => List.not_mem_nil)
  have two : optionalUnless (rulesAt bound) .semicolon
      ⟨tc ++ middle :: (tn ++ right :: (body ++ rest)), endLine, second, faults⟩ = _ :=
    optionalUnless_reads rfl apart tested (by omega) parted
  have three : optionalUnless (rulesAt bound) .rightParen
      ⟨tn ++ right :: (body ++ rest), endLine, third, faults⟩ = _ :=
    optionalUnless_reads rfl free stepped (by omega) closed
  have four := under bound (by omega) rest endLine faults clear
  have five : (rulesAt bound).statement = statement bound := rfl
  simp [anyStatement_cons, kind, forStatement, expect_hit _ opened, one, two, expect_hit _ parted,
    three, expect_hit _ closed, five, four]

theorem for_readable (inside : head ∈ forHead) (reads : Readable statement blocked body) :
    Readable statement blocked (head ++ body) := by
  obtain ⟨_, ⟨opener, kind, rfl⟩, _, ⟨_, ⟨left, opened, rfl⟩, _, ⟨ti, starting, _, ⟨tc, tested, _,
    ⟨_, ⟨middle, parted, rfl⟩, _, ⟨tn, stepped, _, ⟨right, closed, rfl⟩, rfl⟩, rfl⟩, rfl⟩, rfl⟩,
    rfl⟩, rfl⟩ := inside
  have kind : opener.kind = .keyword .for := List.mem_singleton.mp kind
  have opened : left.kind = .symbol .leftParen := List.mem_singleton.mp opened
  have parted : middle.kind = .symbol .semicolon := List.mem_singleton.mp parted
  have closed : right.kind = .symbol .rightParen := List.mem_singleton.mp closed
  intro first
  obtain ⟨initializer, second, one⟩ := forInitializer_readable starting first
  obtain ⟨condition, third, two⟩ := optional_readable tested second
  obtain ⟨increment, fourth, three⟩ := optional_readable stepped third
  obtain ⟨stmt, next, four⟩ := reads fourth
  have whole := for_reads kind opened parted closed one two three four
  refine ⟨.forLoop initializer condition increment stmt, next, ?_⟩
  simpa [Reads] using whole

/-! ### Which `if` an `else` belongs to -/

/-- Statements with no statement in them, but in declarations in a block. -/
def simple : Language Token :=
  derived .exprStmt + derived .printStmt + derived .returnStmt + derived .block

/-- Statements as they are read, where an `else` belongs to the last `if` before it that has none.
The grammar leaves that open. A closed statement ends in no `if` that an `else` could belong to. -/
inductive Nested : Bool → List Token → Prop
  | simple {closed : Bool} {ts : List Token} (inside : ts ∈ simple) : Nested closed ts
  | loop {closed : Bool} {head body : List Token} (opening : head ∈ guarded .while + forHead)
    (under : Nested closed body) : Nested closed (head ++ body)
  | dangling {head body : List Token} (opening : head ∈ guarded .if) (under : Nested false body) :
    Nested false (head ++ body)
  | paired {closed : Bool} {head body other : List Token} {otherwise : Token}
    (opening : head ∈ guarded .if) (under : Nested true body)
    (turn : otherwise.kind = .keyword .else) (last : Nested closed other) :
    Nested closed (head ++ (body ++ otherwise :: other))

/-- An `else` belongs to the statement before it or to one within that. -/
theorem Nested.absorb {closed : Bool} {otherwise : Token} (turn : otherwise.kind = .keyword .else)
    (before : Nested closed body) (after : Nested false other) :
    Nested true body ∨ Nested false (body ++ otherwise :: other) := by
  induction before with
  | simple inside => exact .inl (.simple inside)
  | @loop _ head body opening _ ih =>
    rw [List.append_assoc]
    exact ih.imp (.loop opening) (.loop opening)
  | @dangling head body opening _ ih =>
    rw [List.append_assoc]
    rcases ih with closed | taken
    · exact .inr (.paired opening closed turn after)
    · exact .inr (.dangling opening taken)
  | @paired _ head body last inner opening under kind _ _ ih =>
    rw [List.append_assoc, List.append_assoc, List.cons_append]
    exact ih.imp (.paired opening under kind) (.paired opening under kind)

/-- Where an `else` is given to the first of two statements is settled by what is in that. -/
theorem Nested.branches {otherwise : Token} (opening : head ∈ guarded .if)
    (under : Nested false body) (turn : otherwise.kind = .keyword .else) (last : Nested false other) :
    Nested false (head ++ (body ++ otherwise :: other)) := by
  rcases under.absorb turn last with closed | taken
  · exact .paired opening closed turn last
  · exact .dangling opening taken

theorem leading_nonempty {start : Kind → Bool} (led : ts ∈ leading start) : 0 < ts.length := by
  obtain ⟨token, others, rfl, _⟩ := led
  exact Nat.succ_pos _

theorem guarded_leading (word : Keyword) : guarded word ≤ leading (fun kind => kind = .keyword word) :=
  mul_leading (oneOf_leading (by simp))

theorem forHead_leading : forHead ≤ leading (fun kind => kind = .keyword .for) :=
  mul_leading (oneOf_leading (by simp))

theorem loop_nonempty (opening : head ∈ guarded .while + forHead) : 0 < head.length := by
  rcases opening with opening | opening
  · exact leading_nonempty (guarded_leading _ opening)
  · exact leading_nonempty (forHead_leading opening)

/-- The production of statements, with what stands in front of a statement in one piece. -/
theorem statement_eq : derived .statement = simple +
    (guarded .while + forHead) * derived .statement +
    guarded .if * derived .statement +
    guarded .if * (derived .statement * (keyword .else * derived .statement)) := by
  conv_lhs => rw [derived_eq]
  simp only [production, derived_eq .forStmt, derived_eq .ifStmt, derived_eq .whileStmt, simple,
    forHead, guarded, Grammar.optional, mul_add, add_mul, mul_one, mul_assoc]
  ac_rfl

theorem nested_below : ∀ size, ∀ ts ∈ derived .statement, ts.length < size → Nested false ts
  | 0, _, _, short => absurd short (Nat.not_lt_zero _)
  | size + 1, ts, inside, short => by
    have below := nested_below size
    rw [statement_eq] at inside
    rcases inside with ((inside | ⟨head, opening, body, under, rfl⟩) |
      ⟨head, opening, body, under, rfl⟩) |
      ⟨head, opening, _, ⟨body, under, _, ⟨_, ⟨otherwise, turn, rfl⟩, other, last, rfl⟩, rfl⟩, rfl⟩
    · exact .simple inside
    · have room := loop_nonempty opening
      exact .loop opening (below body under (by rw [List.length_append] at short; omega))
    · have room := leading_nonempty (guarded_leading _ opening)
      exact .dangling opening (below body under (by rw [List.length_append] at short; omega))
    · simp only [List.length_append, List.length_cons, List.length_nil] at short
      exact .branches opening (below body under (by omega)) (List.mem_singleton.mp turn)
        (below other last (by omega))

/-- The statements of the grammar are those that are read. -/
theorem nested (inside : ts ∈ derived .statement) : Nested false ts :=
  nested_below _ ts inside (Nat.lt_succ_self _)

/-! ### Programs -/

theorem Readable.widen {parser : Nat → Parser α} (reads : Readable parser [] ts)
    (blocked : List Kind) : Readable parser blocked ts := by
  intro first
  obtain ⟨value, next, read⟩ := reads first
  exact ⟨value, next, fun bound enough rest endLine faults _ =>
    read bound enough rest endLine faults (fun _ _ => List.not_mem_nil)⟩

theorem simple_readable {size : Nat} (below : DeclaredBelow size) (inside : ts ∈ simple)
    (short : ts.length ≤ size) : Readable statement [] ts := by
  simp only [simple, Language.mem_add] at inside
  intro first
  rcases inside with ((expr | print) | ret) | block
  · refine statement_readable (leading_nonempty (grammar_leading .exprStmt expr)) ?_
    obtain ⟨value, next, read⟩ := expressionStatement_readable expr first
    refine ⟨value, next, fun bound enough rest endLine faults clear => ?_⟩
    rw [anyStatement_expression _ (clear_of_derived expr (by decide))]
    exact read bound enough rest endLine faults clear
  · rw [derived_eq] at print
    simp only [production, mul_assoc] at print
    obtain ⟨_, ⟨opener, kind, rfl⟩, others, inner, rfl⟩ := print
    have kind : opener.kind = .keyword .print := List.mem_singleton.mp kind
    obtain ⟨value, next, read⟩ := printStatement_readable inner first
    refine statement_readable (Nat.succ_pos _) ⟨value, next, ?_⟩
    intro bound enough rest endLine faults clear
    have enough : others.length ≤ bound := by simpa using enough
    have one := read bound (by omega) rest endLine faults clear
    simp [anyStatement_cons, kind, one]
  · rw [derived_eq] at ret
    simp only [production, mul_assoc] at ret
    obtain ⟨_, ⟨opener, kind, rfl⟩, others, inner, rfl⟩ := ret
    have kind : opener.kind = .keyword .return := List.mem_singleton.mp kind
    obtain ⟨value, next, read⟩ := returnStatement_readable opener inner first
    refine statement_readable (Nat.succ_pos _) ⟨value, next, ?_⟩
    intro bound enough rest endLine faults clear
    have enough : others.length ≤ bound := by simpa using enough
    have one := read bound (by omega) rest endLine faults clear
    simp [anyStatement_cons, kind, one]
  · rw [derived_eq] at block
    simp only [production, mul_assoc] at block
    obtain ⟨_, ⟨opener, kind, rfl⟩, others, inner, rfl⟩ := block
    have kind : opener.kind = .symbol .leftBrace := List.mem_singleton.mp kind
    have short : others.length + 1 ≤ size := by simpa using short
    obtain ⟨value, next, read⟩ := block_readable below inner (by omega) first
    refine statement_readable (Nat.succ_pos _) ⟨.block value, next, ?_⟩
    intro bound enough rest endLine faults clear
    have enough : others.length ≤ bound := by simpa using enough
    have one := read bound (by omega) rest endLine faults clear
    simp [anyStatement_cons, kind, one]

/-- What keeps a statement from being read when it follows. -/
def elseUnless (closed : Bool) : List Kind := if closed then [] else [.keyword .else]

theorem Nested.readable {size : Nat} (below : DeclaredBelow size) {closed : Bool}
    (nested : Nested closed ts) (short : ts.length ≤ size) :
    Readable statement (elseUnless closed) ts := by
  induction nested with
  | simple inside => exact (simple_readable below inside short).widen _
  | loop opening _ ih =>
    have under := ih (by rw [List.length_append] at short; omega)
    rcases opening with opening | opening
    · exact while_readable opening under
    · exact for_readable opening under
  | dangling opening _ ih => exact if_readable opening (ih (by rw [List.length_append] at short; omega))
  | paired opening _ turn _ first second =>
    simp only [List.length_append, List.length_cons] at short
    exact ifElse_readable opening (first (by omega)) turn (second (by omega))

theorem anyDeclaration_cons (rules : Rules) :
    anyDeclaration rules ⟨token :: rest, endLine, first, faults⟩ =
      match token.kind with
      | .keyword .class => classDeclaration rules ⟨rest, endLine, first, faults⟩
      | .keyword .fun =>
        (Stmt.function <$> function rules "function") ⟨rest, endLine, first, faults⟩
      | .keyword .var => varDeclaration rules ⟨rest, endLine, first, faults⟩
      | _ => anyStatement rules ⟨token :: rest, endLine, first, faults⟩ := by
  rcases kind : token.kind with sign | word | _ | text | value | _
  · simp [anyDeclaration, accept, acceptAny?, kind]
  · cases word <;> simp [anyDeclaration, accept, acceptAny?, kind]
  all_goals simp [anyDeclaration, accept, acceptAny?, kind]

theorem anyDeclaration_statement (rules : Rules)
    (clear : Clear [.keyword .class, .keyword .fun, .keyword .var] rest) :
    anyDeclaration rules ⟨rest, endLine, first, faults⟩ =
      anyStatement rules ⟨rest, endLine, first, faults⟩ := by
  have missed {kind : Kind} (member : kind ∈ [.keyword .class, .keyword .fun, .keyword .var]) :
      Clear [kind] rest := clear.mono (by simpa using member)
  unfold anyDeclaration
  simp (disch := decide) [accept_miss (missed _)]

/-- A declaration is read where the rules for it read it. -/
theorem declaration_readable (nonempty : 0 < ts.length)
    (reads : ∀ first, ∃ value next, ∀ bound, ts.length ≤ bound + 1 →
      Takes (anyDeclaration (rulesAt bound)) blocked ts first value next) :
    Readable declaration blocked ts := by
  intro first
  obtain ⟨value, next, read⟩ := reads first
  refine ⟨some value, next, fun bound enough rest endLine faults clear => ?_⟩
  obtain ⟨bound, rfl⟩ : ∃ lower, bound = lower + 1 := ⟨bound - 1, by omega⟩
  have one := read bound enough rest endLine faults clear
  change recovering (anyDeclaration (rulesAt bound)) _ = _
  simp [recovering, one]

theorem derived_readable {size : Nat} (below : DeclaredBelow size) (short : ts.length ≤ size)
    (inside : ts ∈ derived .declaration) : Readable declaration [.keyword .else] ts := by
  have nonempty := leading_nonempty (grammar_leading .declaration inside)
  refine declaration_readable nonempty fun first => ?_
  rw [derived_eq] at inside
  simp only [production, Language.mem_add] at inside
  rcases inside with ((declared | declared) | declared) | stated
  · rw [derived_eq] at declared
    simp only [production, mul_assoc] at declared
    obtain ⟨_, ⟨opener, kind, rfl⟩, others, inner, rfl⟩ := declared
    have kind : opener.kind = .keyword .class := List.mem_singleton.mp kind
    have short : others.length + 1 ≤ size := by simpa using short
    obtain ⟨value, next, read⟩ := classDeclaration_readable below inner (by omega) first
    refine ⟨value, next, fun bound enough rest endLine faults _ => ?_⟩
    have enough : others.length ≤ bound := by simpa using enough
    have one := read bound (by omega) rest endLine faults (fun _ _ => List.not_mem_nil)
    simp [anyDeclaration_cons, kind, one]
  · rw [derived_eq] at declared
    obtain ⟨_, ⟨opener, kind, rfl⟩, others, inner, rfl⟩ := declared
    have kind : opener.kind = .keyword .fun := List.mem_singleton.mp kind
    have short : others.length + 1 ≤ size := by simpa using short
    obtain ⟨value, next, read⟩ := function_readable below "function" inner (by omega) first
    refine ⟨.function value, next, fun bound enough rest endLine faults _ => ?_⟩
    have enough : others.length ≤ bound := by simpa using enough
    have one := read bound (by omega) rest endLine faults (fun _ _ => List.not_mem_nil)
    simp [anyDeclaration_cons, kind, one]
  · rw [derived_eq] at declared
    simp only [production, mul_assoc] at declared
    obtain ⟨_, ⟨opener, kind, rfl⟩, others, inner, rfl⟩ := declared
    have kind : opener.kind = .keyword .var := List.mem_singleton.mp kind
    obtain ⟨value, next, read⟩ := varDeclaration_readable inner first
    refine ⟨value, next, fun bound enough rest endLine faults _ => ?_⟩
    have enough : others.length ≤ bound := by simpa using enough
    have one := read bound (by omega) rest endLine faults (fun _ _ => List.not_mem_nil)
    simp [anyDeclaration_cons, kind, one]
  · obtain ⟨value, next, read⟩ := (nested stated).readable below short first
    refine ⟨value, next, fun bound enough rest endLine faults clear => ?_⟩
    rw [anyDeclaration_statement _ (clear_of_derived stated (by decide))]
    exact read (bound + 1) enough rest endLine faults clear

theorem declaredBelow_all : ∀ size, DeclaredBelow size
  | 0 => fun _ _ short => absurd short (Nat.not_lt_zero _)
  | size + 1 => fun _ inside short =>
    ⟨inside, derived_readable (declaredBelow_all size) (Nat.le_of_lt_succ short) inside⟩

/-- All declarations of the grammar are read. -/
theorem readDeclaration (inside : ts ∈ derived .declaration) : ReadDeclaration ts :=
  declaredBelow_all _ ts inside (Nat.lt_succ_self _)

/-- Declarations are read as these statements, whatever is read after them. -/
def ReadAs (parts : List (List Token)) (first : Nat) (values : List Stmt) (next : Nat) : Prop :=
  ∀ bound inner, parts.flatten.length ≤ bound → parts.flatten.length ≤ inner →
    ∀ rest endLine faults, Clear [.keyword .else] rest → parts.length ≤ inner ∧
      declarations (declaration bound) (pure false) inner
          ⟨parts.flatten ++ rest, endLine, first, faults⟩ =
        ((values ++ ·) <$> declarations (declaration bound) (pure false) (inner - parts.length))
          ⟨rest, endLine, next, faults⟩

theorem readAs_of_derived {parts : List (List Token)} (each : ∀ part ∈ parts, part ∈ derived .declaration)
    (first : Nat) : ∃ values next, ReadAs parts first values next :=
  declarations_readable (fun _ _ _ _ _ _ => rfl) parts
    (fun part member => readDeclaration (each part member)) first

/-- A program is read up to the end, without a complaint. -/
theorem ReadAs.program {parts : List (List Token)} {first next : Nat} {values : List Stmt}
    (read : ReadAs parts first values next) (endLine : Nat) :
    Parser.program parts.flatten.length ⟨parts.flatten, endLine, first, []⟩ =
      (.ok values, ⟨[], endLine, next, []⟩) := by
  have stops (inner : Nat) : declarations (declaration parts.flatten.length) (pure false) inner
      ⟨[], endLine, next, []⟩ = (.ok [], ⟨[], endLine, next, []⟩) := by
    cases inner <;> rfl
  obtain ⟨_, all⟩ := read parts.flatten.length parts.flatten.length le_rfl le_rfl [] endLine []
    clear_nil
  rw [List.append_nil] at all
  rw [Parser.program, all, map_apply, stops]
  simp

end Lox.Tree.Parser

namespace Lox.Tree

open Grammar Computability

theorem parse_error {tokens : List Token} {first : Nat} {faults : List Fault}
    (refused : (parse tokens first).result = .error faults) : faults ≠ [] := by
  rintro rfl
  unfold parse at refused
  rcases ran : Parser.program (Progress.start tokens first).rest.length
    (Progress.start tokens first) with ⟨fault | program, after⟩
  · simp [ran] at refused
  · cases told : after.faults <;> simp [ran, told] at refused

theorem mem_program {ts : List Token} {final : Token} (last : final.kind = .eof) :
    ts ++ [final] ∈ derived .program ↔ ts ∈ (derived .declaration)∗ := by
  rw [derived_eq]
  constructor
  · rintro ⟨declared, inside, _, ⟨other, _, rfl⟩, same⟩
    rwa [← List.append_inj_left' same rfl]
  · exact fun inside => Language.append_mem_mul inside ⟨final, List.mem_singleton.mpr last, rfl⟩

theorem start_eq {ts : List Token} {final : Token} (unended : ∀ token ∈ ts, token.kind ≠ .eof)
    (last : final.kind = .eof) (first : Nat) :
    Progress.start (ts ++ [final]) first = ⟨ts, lastLine (ts ++ [final]), first, []⟩ := by
  have all : ∀ token ∈ ts, decide (token.kind ≠ .eof) = true :=
    fun token member => decide_eq_true (unended token member)
  unfold Progress.start
  rw [List.takeWhile_append_of_pos all, List.takeWhile_cons_of_neg (by simp [last]),
    List.append_nil]

/-- The programs that are accepted are those the grammar derives, and for all others there is a
complaint. -/
theorem parse_exact (ts : List Token) (final : Token) (first : Nat)
    (unended : ∀ token ∈ ts, token.kind ≠ .eof) (last : final.kind = .eof) :
    ((∃ program, (parse (ts ++ [final]) first).result = .ok program) ↔
      ts ++ [final] ∈ derived .program) ∧
    (ts ++ [final] ∉ derived .program → ∃ faults, faults ≠ [] ∧
      (parse (ts ++ [final]) first).result = .error faults) := by
  have started := start_eq unended last first
  have accepted : (∃ program, (parse (ts ++ [final]) first).result = .ok program) ↔
      ts ++ [final] ∈ derived .program := by
    rw [mem_program last]
    constructor
    · rintro ⟨program, parsed⟩
      have inside := parse_derived parsed
      rwa [started] at inside
    · rintro ⟨parts, rfl, each⟩
      obtain ⟨values, next, read⟩ := Parser.readAs_of_derived each first
      exact ⟨values, parse_ok.mpr ⟨_, by rw [started]; exact read.program _, rfl⟩⟩
  refine ⟨accepted, fun outside => ?_⟩
  cases refused : (parse (ts ++ [final]) first).result with
  | ok program => exact absurd (accepted.mp ⟨program, refused⟩) outside
  | error faults => exact ⟨faults, parse_error refused, rfl⟩

/-- Two `if` share an `else`; a loop has no declaration under it. -/
theorem parse_exact_of_branches :
    (∃ ts, ts.map Token.kind = [.keyword .if, .symbol .leftParen, .identifier, .symbol .rightParen,
        .keyword .if, .symbol .leftParen, .identifier, .symbol .rightParen, .symbol .leftBrace,
        .symbol .rightBrace, .keyword .else, .symbol .leftBrace, .symbol .rightBrace] ∧
      ts ++ [Token.eof 1] ∈ derived .program) ∧
    ∃ ts, ts.map Token.kind = [.keyword .while, .symbol .leftParen, .identifier,
        .symbol .rightParen, .keyword .var, .identifier, .symbol .semicolon] ∧
      ts ++ [Token.eof 1] ∉ derived .program := by
  let opened : List Token := [⟨.symbol .leftParen, "(", 1⟩, ⟨.identifier, "a", 1⟩,
    ⟨.symbol .rightParen, ")", 1⟩]
  let block : List Token := [⟨.symbol .leftBrace, "\x7b", 1⟩, ⟨.symbol .rightBrace, "\x7d", 1⟩]
  let declared : List Token := [⟨.keyword .var, "var", 1⟩, ⟨.identifier, "b", 1⟩,
    ⟨.symbol .semicolon, ";", 1⟩]
  let branch : List Token := ⟨.keyword .if, "if", 1⟩ :: opened
  refine ⟨⟨branch ++ (branch ++ block ++ ⟨.keyword .else, "else", 1⟩ :: block), rfl, ?_⟩,
    ⟨⟨.keyword .while, "while", 1⟩ :: (opened ++ declared), rfl, fun inside => ?_⟩⟩
  · exact (parse_exact _ (Token.eof 1) 0 (by decide) rfl).1.mp ⟨_, by cbv⟩
  · obtain ⟨program, parsed⟩ := (parse_exact _ (Token.eof 1) 0 (by decide) rfl).1.mpr inside
    have refused : (parse (⟨.keyword .while, "while", 1⟩ :: (opened ++ declared) ++ [Token.eof 1])
        0).result = .error [.parse 1 (some "var") (.missingPhrase "expression")] := by cbv
    rw [refused] at parsed
    cases parsed

end Lox.Tree
