import Lox.Proofs.Derived
import Lox.Proofs.Written

/-! What is read without a complaint is written back as it was, and has the shape that the precedence
of operators gives it. -/

namespace Lox.Tree.Parser

open Grammar Computability

variable {α β : Type} {language : α → Language Token} {others : β → Language Token}

/-! ### One thing after another -/

/-- What is read later completes what was read before. -/
theorem Consumes.followed {parser : Parser α} {next : α → Parser β}
    (first : Consumes language parser)
    (second : ∀ value,
      Consumes (fun other => {ts | ∀ read ∈ language value, read ++ ts ∈ others other}) (next value)) :
    Consumes others (parser >>= next) := by
  refine first.bind second fun value other => ?_
  rintro _ ⟨read, inside, ts, completes, rfl⟩
  exact completes read inside

theorem found_followed {kinds : List Kind} {yes : Token → Parser β} {no : Parser β}
    (taken : ∀ token,
      Consumes (fun value => {ts | token.kind ∈ kinds → token :: ts ∈ others value}) (yes token))
    (left : Consumes others no) :
    Consumes others (acceptAny? kinds >>= fun found => match found with
      | some token => yes token
      | none => no) := by
  refine (acceptAny_reads kinds).followed fun found => ?_
  cases found with
  | none =>
    refine left.widen fun value ts inside => ?_
    rintro _ ⟨rfl, _⟩
    exact inside
  | some token =>
    refine (taken token).widen fun value ts inside => ?_
    rintro _ ⟨rfl, allowed⟩
    exact inside (allowed token rfl)

theorem choice_followed {kind : Kind} {yes no : Parser β}
    (taken : Consumes
      (fun value => {ts | ∀ token : Token, token.kind = kind → token :: ts ∈ others value}) yes)
    (left : Consumes others no) :
    Consumes others (accept kind >>= fun seen => if seen = true then yes else no) := by
  refine (accept_consumes kind).followed fun seen => ?_
  cases seen with
  | false =>
    refine left.widen fun value ts inside => ?_
    rintro _ rfl
    exact inside
  | true =>
    refine taken.widen fun value ts inside => ?_
    rintro _ ⟨token, allowed, rfl⟩
    exact inside token (List.mem_singleton.mp allowed)

theorem expect_reads (sign : Symbol) (place : String) :
    Consumes (fun token => {ts | ts = [token] ∧ token.kind = .symbol sign}) (expect sign place) :=
  found_followed (fun _ => Consumes.pure fun allowed => ⟨rfl, List.mem_singleton.mp allowed⟩)
    (giveUp_consumes _ _)

theorem expectName_reads (phrase : String) :
    Consumes (fun token => {ts | ts = [token] ∧ token.kind = .identifier}) (expectName phrase) :=
  found_followed (fun _ => Consumes.pure fun allowed => ⟨rfl, List.mem_singleton.mp allowed⟩)
    (giveUp_consumes _ _)

theorem one_followed {kind : Kind} {parser : Parser Token} {next : Token → Parser β}
    (first : Consumes (fun token => {ts | ts = [token] ∧ token.kind = kind}) parser)
    (second : ∀ token,
      Consumes (fun value => {ts | token.kind = kind → token :: ts ∈ others value}) (next token)) :
    Consumes others (parser >>= next) := by
  refine first.followed fun token => (second token).widen fun value ts inside => ?_
  rintro _ ⟨rfl, allowed⟩
  exact inside allowed

theorem expect_followed {sign : Symbol} {place : String} {next : Token → Parser β}
    (second : ∀ token,
      Consumes (fun value => {ts | token.kind = .symbol sign → token :: ts ∈ others value})
        (next token)) :
    Consumes others (expect sign place >>= next) :=
  one_followed (expect_reads sign place) second

theorem name_followed {phrase : String} {next : Token → Parser β}
    (second : ∀ token,
      Consumes (fun value => {ts | token.kind = .identifier → token :: ts ∈ others value})
        (next token)) :
    Consumes others (expectName phrase >>= next) :=
  one_followed (expectName_reads phrase) second

/-- What may be left out, with the token before it. -/
def optionally (kind : Kind) (language : α → Language Token) : Option α → Language Token
  | none => 1
  | some value => {ts | ∃ token rest, token.kind = kind ∧ rest ∈ language value ∧ ts = token :: rest}

theorem option_followed {kind : Kind} {parser : Parser α} {next : Option α → Parser β}
    (reads : Consumes language parser)
    (after : ∀ found, Consumes
      (fun other => {ts | ∀ read ∈ optionally kind language found, read ++ ts ∈ others other})
        (next found)) :
    Consumes others (accept kind >>= fun seen =>
      if seen = true then some <$> parser >>= next else Pure.pure none >>= next) := by
  have given : Consumes (fun found => {ts | ∃ value, found = some value ∧ ts ∈ language value})
      (some <$> parser) := reads.map fun value ts inside => ⟨value, rfl, inside⟩
  refine choice_followed (given.followed fun found => ?_) ((after none).widen fun _ _ inside => ?_)
  · refine (after found).widen fun other ts inside => ?_
    rintro read ⟨value, rfl, member⟩ token opens
    exact inside _ ⟨token, read, opens, member, rfl⟩
  · exact inside [] rfl

theorem reference_reads (name : Token) :
    Consumes (fun use => {ts | ts = [] ∧ use.name = name}) (reference name) := by
  refine fun _ => ⟨[], (List.append_nil _).symm, fun use same _ => ⟨[], ⟨rfl, ?_⟩, rfl⟩⟩
  cases same
  rfl

/-! ### Lists -/

section Lists

variable {item : Parser α} {words : α → List Word} {good : α → Prop}

theorem commas_cons {first : List Word} {rest : List (List Word)} (more : rest ≠ []) :
    commas (first :: rest) = first ++ .symbol .comma :: commas rest := by
  cases rest with
  | nil => exact absurd rfl more
  | cons second rest => simp [commas, List.intercalate]

theorem separated_spells (items : String)
    (reads : Consumes (fun value => {ts | ts.map Token.word = words value ∧ good value}) item) :
    ∀ bound count, Consumes (fun values => {ts | values ≠ [] ∧
      ts.map Token.word = commas (values.map words) ∧ ∀ value ∈ values, good value})
        (separated items item bound count) := by
  have one (value : α) {ts : List Token} (spelled : ts.map Token.word = words value ∧ good value) :
      [value] ≠ [] ∧ ts.map Token.word = commas ([value].map words) ∧ ∀ other ∈ [value], good other :=
    ⟨List.cons_ne_nil _ _, by simpa [commas, List.intercalate] using spelled.1,
      List.forall_mem_singleton.mpr spelled.2⟩
  have unread (count : Nat) : Consumes (fun _ => 1) (checkLimit items count) :=
    (checkLimit_consumes items count).widen fun _ _ inside => inside.1
  intro bound
  induction bound with
  | zero => exact fun count => (unread count).freely fun _ => reads.ending fun value _ => one value
  | succ bound ih =>
    intro count
    refine (unread count).freely fun _ => reads.followed fun first => ?_
    refine choice_followed ((ih (count + 1)).ending fun rest => ?_) (Consumes.pure fun read spelled => ?_)
    · rintro ts ⟨more, written, all⟩ comma kind read ⟨spelled, fine⟩
      refine ⟨List.cons_ne_nil _ _, ?_, List.forall_mem_cons.mpr ⟨fine, all⟩⟩
      rw [List.map_cons, commas_cons (by simpa using more)]
      simp [written, spelled, word_of_symbol kind]
    · rw [List.append_nil]
      exact one first spelled

theorem listed_spells (bound : Nat) (items : String)
    (reads : Consumes (fun value => {ts | ts.map Token.word = words value ∧ good value}) item) :
    Consumes (fun values => {ts | ts.map Token.word = commas (values.map words) ∧
      ∀ value ∈ values, good value}) (listed bound items item) := by
  refine (sees_consumes _).freely (branch_consumes (Consumes.pure ⟨rfl, by simp⟩) ?_)
  exact (separated_spells items reads bound 0).widen fun _ _ inside => inside.2

end Lists

/-! ### Expressions -/

/-- An expression was read from such tokens, and is at least so tight. -/
structure Spells (level : Level) (e : Expr) (ts : List Token) : Prop where
  words : ts.map Token.word = e.words
  shaped : e.Shaped
  level : level ≤ e.level

def Spelling (level : Level) (rule : Parser Expr) : Prop :=
  Consumes (fun e => {ts | Spells level e ts}) rule

theorem Spells.loosen {level looser : Level} {e : Expr} {ts : List Token}
    (spelled : Spells level e ts) (loose : looser ≤ level) : Spells looser e ts :=
  ⟨spelled.words, spelled.shaped, loose.trans spelled.level⟩

variable {whole : Parser Expr}

theorem groupingExpr_spells (inner : Spelling .assignment whole) (opening : Token) :
    Consumes (fun e => {ts | opening.kind = .symbol .leftParen → Spells .primary e (opening :: ts)})
      (groupingExpr whole) := by
  refine inner.followed fun e => expect_followed fun closing => Consumes.pure ?_
  intro closes read spelled opens
  refine ⟨?_, spelled.shaped, le_rfl⟩
  simp [spelled.words, word_of_symbol opens, word_of_symbol closes]

theorem superExpr_spells (keyword : Token) :
    Consumes (fun e => {ts | keyword.kind = .keyword .super → Spells .primary e (keyword :: ts)})
      (superExpr keyword) := by
  refine expect_followed fun dot => name_followed fun method =>
    (reference_reads keyword).ending fun use => ?_
  rintro _ ⟨rfl, _⟩ named dotted word
  refine ⟨?_, trivial, le_rfl⟩
  simp [word_of_keyword word, word_of_symbol dotted, word_of_identifier named]

theorem literal_kind {kind : Kind} {literal : Literal} (found : literal? kind = some literal) :
    kind = literal.kind := by
  unfold literal? at found
  split at found <;> cases found <;> rfl

theorem primaryOf_spells (inner : Spelling .assignment whole) {token : Token} {rest : Parser Expr}
    (found : primaryOf? whole token = some rest) :
    Consumes (fun e => {ts | Spells .primary e (token :: ts)}) rest := by
  unfold primaryOf? at found
  split at found
  · rename_i word
    cases found
    exact (superExpr_spells token).widen fun e ts spells => spells word
  · rename_i word
    cases found
    refine (reference_reads token).map fun use => ?_
    rintro _ ⟨rfl, _⟩
    exact ⟨by simp [word_of_keyword word], trivial, le_rfl⟩
  · rename_i named
    cases found
    refine (reference_reads token).map fun use => ?_
    rintro _ ⟨rfl, same⟩
    exact ⟨by simp [word_of_identifier named, same], trivial, le_rfl⟩
  · rename_i opens
    cases found
    exact (groupingExpr_spells inner token).widen fun e ts spells => spells opens
  · obtain ⟨literal, kind, rfl⟩ := Option.map_eq_some_iff.mp found
    exact Consumes.pure ⟨by simp [word_of_literal (literal_kind kind)], trivial, le_rfl⟩

theorem primary_spells (inner : Spelling .assignment whole) : Spelling .primary (primary whole) :=
  primary_reads fun _ _ found => primaryOf_spells inner found

theorem arguments_spell (inner : Spelling .assignment whole) (bound : Nat) :
    Consumes (fun arguments => {ts | ts.map Token.word = commas (exprsWords arguments) ∧
      exprsShaped arguments}) (listed bound "arguments" whole) := by
  have reads : Consumes (fun e => {ts | ts.map Token.word = e.words ∧ e.Shaped}) whole :=
    inner.widen fun e ts spelled => ⟨spelled.words, spelled.shaped⟩
  simp only [exprsWords_eq, exprsShaped_iff]
  exact listed_spells bound "arguments" reads

/-- Calls and properties are added to what was read before them. -/
theorem postfixes_spells (inner : Spelling .assignment whole) (bound : Nat) (left : Expr) :
    Consumes (fun e => {ts | ∀ read, Spells .call left read → Spells .call e (read ++ ts)})
      (postfixes whole bound left) := by
  induction bound generalizing left with
  | zero => exact Consumes.pure fun read spelled => by rwa [List.append_nil]
  | succ bound ih =>
    refine choice_followed ?_ (choice_followed ?_ ?_)
    · refine (arguments_spell inner bound).followed fun arguments =>
        expect_followed fun paren => (ih _).widen fun e ts onwards => ?_
      rintro closes list ⟨written, shaped⟩ opening opens read spelled
      have called : Spells .call (.call left paren arguments) (read ++ opening :: list ++ [paren]) := by
        refine ⟨?_, ⟨spelled.level, spelled.shaped, shaped⟩, le_rfl⟩
        simp [spelled.words, written, word_of_symbol opens, word_of_symbol closes]
      simpa using onwards _ called
    · refine name_followed fun name => (ih _).widen fun e ts onwards => ?_
      intro named dot dotted read spelled
      have got : Spells .call (.get left name) (read ++ [dot, name]) := by
        refine ⟨?_, ⟨spelled.level, spelled.shaped⟩, le_rfl⟩
        simp [spelled.words, word_of_symbol dotted, word_of_identifier named]
      simpa using onwards _ got
    · exact Consumes.pure fun read spelled => by rwa [List.append_nil]

theorem call_spells (bound : Nat) (inner : Spelling .assignment whole) :
    Spelling .call (call bound whole) := by
  refine (primary_spells inner).followed fun e =>
    (postfixes_spells inner bound e).widen fun other ts onwards read spelled => ?_
  exact onwards read (spelled.loosen (by decide))

theorem signs_spell (bound : Nat) :
    Consumes (fun operators => {ts | ts = operators ∧
      ∀ operator ∈ operators, operator.kind ∈ [Kind.symbol .bang, .symbol .minus]}) (signs bound) := by
  induction bound with
  | zero => exact Consumes.pure ⟨rfl, by simp⟩
  | succ bound ih =>
    refine found_followed (fun operator => ih.ending fun rest => ?_) (Consumes.pure ⟨rfl, by simp⟩)
    rintro _ ⟨rfl, all⟩ allowed
    exact ⟨rfl, List.forall_mem_cons.mpr ⟨allowed, all⟩⟩

/-- Operators in front of an operand. -/
theorem Spells.signed {operators ts : List Token} {e : Expr}
    (allowed : ∀ operator ∈ operators, operator.kind ∈ [Kind.symbol .bang, .symbol .minus])
    (spelled : Spells .unary e ts) :
    Spells .unary (operators.foldr Expr.unary e) (operators ++ ts) := by
  induction operators with
  | nil => exact spelled
  | cons operator rest ih =>
    obtain ⟨here, others⟩ := List.forall_mem_cons.mp allowed
    have operand := ih others
    refine ⟨?_, ⟨here, operand.level, operand.shaped⟩, le_rfl⟩
    simpa using operand.words

theorem unary_spells (bound : Nat) (inner : Spelling .assignment whole) :
    Spelling .unary (unary bound whole) := by
  refine (signs_spell bound).followed fun operators => (call_spells bound inner).ending fun e => ?_
  rintro ts spelled _ ⟨rfl, allowed⟩
  exact (spelled.loosen (by decide)).signed allowed

/-! From the tightest operators to the loosest. -/

section Operators

variable {level tighter : Level} {kinds : List Kind} {build : Expr → Token → Expr → Expr}
  {operand : Parser Expr}

/-- An operator of a level between an expression of that level and one that is tighter. -/
def BuildsLevel (level tighter : Level) (kinds : List Kind) (build : Expr → Token → Expr → Expr) : Prop :=
  ∀ operator, operator.kind ∈ kinds → ∀ {left right ts others}, Spells level left ts →
    Spells tighter right others →
      Spells level (build left operator right) (ts ++ operator :: others)

theorem builds_level {level? : Kind → Option Level}
    (words : ∀ left operator right,
      (build left operator right).words = left.words ++ operator.word :: right.words)
    (shaped : ∀ left operator right, Groups (level? operator.kind) left right ∧ left.Shaped ∧
      right.Shaped → (build left operator right).Shaped)
    (own : ∀ left operator right,
      (build left operator right).level = (level? operator.kind).getD .assignment)
    (tight : level < tighter) (known : ∀ kind ∈ kinds, level? kind = some level) :
    BuildsLevel level tighter kinds build := by
  intro operator allowed left right ts others spelled spelled'
  have here := known _ allowed
  refine ⟨?_, shaped left operator right ⟨?_, spelled.shaped, spelled'.shaped⟩, ?_⟩
  · simp [words, spelled.words, spelled'.words]
  · exact ⟨level, here, spelled.level, tight.trans_le spelled'.level⟩
  · simp [own, here]

theorem binary_builds (tight : level < tighter)
    (known : ∀ kind ∈ kinds, binaryLevel? kind = some level) :
    BuildsLevel level tighter kinds Expr.binary :=
  builds_level (fun _ _ _ => rfl) (fun _ _ _ => id) (fun _ _ _ => rfl) tight known

theorem logical_builds (tight : level < tighter)
    (known : ∀ kind ∈ kinds, logicalLevel? kind = some level) :
    BuildsLevel level tighter kinds Expr.logical :=
  builds_level (fun _ _ _ => rfl) (fun _ _ _ => id) (fun _ _ _ => rfl) tight known

theorem chain_spells (builds : BuildsLevel level tighter kinds build) (reads : Spelling tighter operand)
    (bound : Nat) (left : Expr) :
    Consumes (fun e => {ts | ∀ read, Spells level left read → Spells level e (read ++ ts)})
      (chain kinds build operand bound left) := by
  induction bound generalizing left with
  | zero => exact Consumes.pure fun read spelled => by rwa [List.append_nil]
  | succ bound ih =>
    refine found_followed (fun operator => reads.followed fun right =>
      (ih _).widen fun e ts onwards => ?_) ?_
    · intro others spelled' allowed read spelled
      simpa using onwards _ (builds operator allowed spelled spelled')
    · exact Consumes.pure fun read spelled => by rwa [List.append_nil]

theorem leftAssoc_spells (builds : BuildsLevel level tighter kinds build) (loose : level ≤ tighter)
    (reads : Spelling tighter operand) (bound : Nat) :
    Spelling level (leftAssoc bound kinds build operand) := by
  refine reads.followed fun left =>
    (chain_spells builds reads bound left).widen fun e ts onwards read spelled => ?_
  exact onwards read (spelled.loosen loose)

end Operators

theorem disjunction_spells (bound : Nat) (inner : Spelling .assignment whole) :
    Spelling .disjunction (disjunction bound whole) := by
  have factor : Spelling .factor (factor bound whole) :=
    leftAssoc_spells (binary_builds (by decide) (by decide)) (by decide) (unary_spells bound inner) bound
  have term : Spelling .term (term bound whole) :=
    leftAssoc_spells (binary_builds (by decide) (by decide)) (by decide) factor bound
  have comparison : Spelling .comparison (comparison bound whole) :=
    leftAssoc_spells (binary_builds (by decide) (by decide)) (by decide) term bound
  have equality : Spelling .equality (equality bound whole) :=
    leftAssoc_spells (binary_builds (by decide) (by decide)) (by decide) comparison bound
  have conjunction : Spelling .conjunction (conjunction bound whole) :=
    leftAssoc_spells (logical_builds (by decide) (by decide)) (by decide) equality bound
  exact leftAssoc_spells (logical_builds (by decide) (by decide)) (by decide) conjunction bound

/-- Nothing is read after the value, and only what can be assigned to goes without a complaint. -/
theorem assignTo_spells (target value : Expr) (equals : Token) :
    Consumes (fun e => {ts | ∀ rest, Spells .assignment value rest →
      equals.kind ∈ [Kind.symbol .equal] → ∀ read, Spells .disjunction target read →
        Spells .assignment e (read ++ equals :: (rest ++ ts))}) (assignTo target equals value) := by
  cases target with
  | «variable» use =>
    refine (reference_reads use.name).ending fun again => ?_
    rintro _ ⟨rfl, same⟩ rest spelled' equal read spelled
    refine ⟨?_, spelled'.shaped, le_rfl⟩
    simp [spelled.words, spelled'.words, same,
      word_of_symbol (List.mem_singleton.mp equal)]
  | get object name =>
    refine Consumes.pure fun rest spelled' equal read spelled => ?_
    obtain ⟨tight, shaped⟩ := spelled.shaped
    refine ⟨?_, ⟨tight, shaped, spelled'.shaped⟩, le_rfl⟩
    simp [spelled.words, spelled'.words, word_of_symbol (List.mem_singleton.mp equal)]
  | _ =>
    refine (record_consumes _).bind (fun _ => passed_consumes) fun _ _ => ?_
    rw [zero_mul]
    exact bot_le

theorem assignment_spells (bound : Nat) (inner : Spelling .assignment whole) :
    Spelling .assignment (assignment bound whole) := by
  refine (disjunction_spells bound inner).followed fun target =>
    found_followed (fun equals => inner.followed fun value => assignTo_spells target value equals) ?_
  refine Consumes.pure fun read spelled => ?_
  rw [List.append_nil]
  exact spelled.loosen (by decide)

theorem expression_spells (bound : Nat) : Spelling .assignment (expression bound) := by
  induction bound with
  | zero => exact giveUp_consumes _ _
  | succ bound ih => exact assignment_spells (bound + 1) ih

/-! ### Statements -/

/-- No `for` is among the words. A loop with clauses is not written back as it was. -/
def Forless (ts : List Token) : Prop := ∀ token ∈ ts, token.kind ≠ .keyword .for

theorem forless_nil : Forless [] := fun _ => List.not_mem_nil.elim

theorem forless_cons {token : Token} {ts : List Token} :
    Forless (token :: ts) ↔ token.kind ≠ .keyword .for ∧ Forless ts := List.forall_mem_cons

theorem forless_append {ts others : List Token} :
    Forless (ts ++ others) ↔ Forless ts ∧ Forless others := List.forall_mem_append

/-- The tokens that are the words of a well-shaped thing, unless a `for` is among them. -/
def told (words : α → List Word) (shaped : α → Prop) (value : α) : Language Token :=
  {ts | Forless ts → ts.map Token.word = words value ∧ shaped value}

/-- Two things that stand one after the other. -/
theorem told_append {front back : List Token} {first second : List Word} {one other : Prop}
    (here : Forless front → front.map Token.word = first ∧ one)
    (later : Forless back → back.map Token.word = second ∧ other) (forless : Forless (front ++ back)) :
    (front ++ back).map Token.word = first ++ second ∧ one ∧ other := by
  obtain ⟨ahead, behind⟩ := forless_append.mp forless
  obtain ⟨words, shaped⟩ := here ahead
  obtain ⟨words', shaped'⟩ := later behind
  exact ⟨by rw [List.map_append, words, words'], shaped, shaped'⟩

/-- A rule that is written back as it was read. -/
def Tells (words : α → List Word) (shaped : α → Prop) (rule : Parser α) : Prop :=
  Consumes (told words shaped) rule

/-- The same for a rule that goes on after a token of some kind. -/
def TellsAfter (kind : Kind) (words : α → List Word) (shaped : α → Prop) (rule : Parser α) : Prop :=
  Consumes (fun value => {ts | ∀ token : Token, token.kind = kind →
    token :: ts ∈ told words shaped value}) rule

/-- A statement that may hang on a condition. -/
def Branch (s : Stmt) : Prop := s.Shaped ∧ s.declared? = none

structure Rules.Tell (rules : Rules) : Prop where
  consume : rules.Consume
  expression : Spelling .assignment rules.expression
  statement : Tells Stmt.words Branch rules.statement
  declaration : Tells (fun s : Option Stmt => stmtsWords s.toList)
    (fun s => stmtsShaped s.toList) rules.declaration

theorem stmtsWords_append (body others : List Stmt) :
    stmtsWords (body ++ others) = stmtsWords body ++ stmtsWords others := by
  induction body with
  | nil => rfl
  | cons s rest ih => simp only [List.cons_append, stmtsWords, ih, List.append_assoc]

theorem stmtsShaped_append (body others : List Stmt) :
    stmtsShaped (body ++ others) ↔ stmtsShaped body ∧ stmtsShaped others := by
  induction body with
  | nil => simp [stmtsShaped]
  | cons s rest ih => simp [stmtsShaped, ih, and_assoc]

theorem declarations_tell {declaration : Parser (Option Stmt)} {stop : Parser Bool}
    (reads : Tells (fun s : Option Stmt => stmtsWords s.toList) (fun s => stmtsShaped s.toList)
      declaration) (stops : Consumes (fun _ => 1) stop) (bound : Nat) :
    Tells stmtsWords stmtsShaped (declarations declaration stop bound) := by
  have none : Tells stmtsWords stmtsShaped (Pure.pure [] : Parser (List Stmt)) :=
    Consumes.pure fun _ => ⟨rfl, trivial⟩
  induction bound with
  | zero => exact none
  | succ bound ih =>
    refine atEnd_consumes.freely (branch_consumes none (stops.freely (branch_consumes none ?_)))
    refine reads.followed fun first => ih.ending fun rest => ?_
    intro ts later read here forless
    rw [stmtsWords_append, stmtsShaped_append]
    exact told_append here later forless

section Rules

variable {rules : Rules}

theorem block_tells (tell : rules.Tell) :
    TellsAfter (.symbol .leftBrace)
      (fun body => .symbol .leftBrace :: stmtsWords body ++ [.symbol .rightBrace]) stmtsShaped
      (block rules) := by
  refine (declarations_tell tell.declaration (sees_consumes _) rules.bound).followed fun body =>
    expect_followed fun closing => Consumes.pure ?_
  intro closes read told opening opens forless
  obtain ⟨_, inside⟩ := forless_cons.mp forless
  obtain ⟨words, shaped⟩ := told (forless_append.mp inside).1
  exact ⟨by simp [words, word_of_symbol opens, word_of_symbol closes], shaped⟩

theorem params_spell (bound : Nat) :
    Consumes (fun params => {ts | ts.map Token.word = commas (paramsWords params)})
      (listed bound "parameters" (expectName "parameter name")) := by
  have reads : Consumes (fun param => {ts | ts.map Token.word = [.name param.lexeme] ∧ True})
      (expectName "parameter name") := by
    refine (expectName_reads _).widen fun param => ?_
    rintro _ ⟨rfl, named⟩
    exact ⟨by simp [word_of_identifier named], trivial⟩
  exact (listed_spells bound "parameters" reads).widen fun _ _ inside => inside.1

theorem function_tells (tell : rules.Tell) (role : String) :
    Tells FunctionDecl.words FunctionDecl.Shaped (function rules role) := by
  refine name_followed fun name => expect_followed fun opening => (params_spell _).followed
    fun params => expect_followed fun closing => (expect_reads _ _).followed fun brace =>
    (block_tells tell).ending fun body => ?_
  rintro ts block _ ⟨rfl, braced⟩ closes list (written : list.map _ = _) opens named forless
  simp only [forless_cons, forless_append, forless_nil, and_true] at forless
  obtain ⟨words, shaped⟩ := block brace braced (forless_cons.mpr forless.2.2.2.2)
  refine ⟨?_, shaped⟩
  rw [List.map_cons] at words
  simp [words, written, word_of_identifier named, word_of_symbol opens,
    word_of_symbol closes]

theorem methods_tell (tell : rules.Tell) (bound : Nat) :
    Tells methodsWords methodsShaped (methods rules bound) := by
  have none : Tells methodsWords methodsShaped (Pure.pure [] : Parser (List FunctionDecl)) :=
    Consumes.pure fun _ => ⟨rfl, trivial⟩
  induction bound with
  | zero => exact none
  | succ bound ih =>
    refine atEnd_consumes.freely (branch_consumes none
      ((sees_consumes _).freely (branch_consumes none ?_)))
    refine (function_tells tell "method").followed fun first => ih.ending fun rest => ?_
    exact fun ts later read here forless => told_append here later forless

theorem superclass_reads : Consumes (fun superclass =>
    {ts | ts.map Token.word = superclassWords superclass ∧
      ∀ reference ∈ superclass, reference.name.kind = .identifier}) superclass := by
  refine choice_followed (name_followed fun name => (reference_reads name).ending fun use => ?_)
    (Consumes.pure ⟨rfl, by simp⟩)
  rintro _ ⟨rfl, rfl⟩ named sign less
  refine ⟨?_, by simpa using named⟩
  simp [superclassWords, word_of_identifier named, word_of_symbol less]

theorem classDeclaration_tells (tell : rules.Tell) :
    TellsAfter (.keyword .class) Stmt.words Stmt.Shaped (classDeclaration rules) := by
  refine name_followed fun name => superclass_reads.followed fun superclass =>
    expect_followed fun opening => (methods_tell tell _).followed fun methods =>
    expect_followed fun closing => Consumes.pure ?_
  rintro closes body told opens above ⟨written, named'⟩ named keyword word forless
  simp only [forless_cons, forless_append] at forless
  obtain ⟨words, shaped⟩ := told forless.2.2.2.2.1
  refine ⟨?_, named', shaped⟩
  simp [words, written, word_of_keyword word, word_of_identifier named,
    word_of_symbol opens, word_of_symbol closes]

/-- What an initializer was read from. -/
theorem optionally_spells {initializer : Option Expr} {ts : List Token}
    (inside : ts ∈ optionally (.symbol .equal) (fun e => {ts | Spells .assignment e ts}) initializer) :
    ts.map Token.word = optionalWords [.symbol .equal] initializer ∧ optionalShaped initializer := by
  cases initializer with
  | none =>
    cases inside
    exact ⟨rfl, trivial⟩
  | some e =>
    obtain ⟨equals, read, equal, spelled, rfl⟩ := inside
    exact ⟨by simp [optionalWords, spelled.words, word_of_symbol equal], spelled.shaped⟩

theorem varDeclaration_tells (tell : rules.Tell) :
    TellsAfter (.keyword .var) Stmt.words Stmt.Shaped (varDeclaration rules) := by
  refine name_followed fun name => option_followed tell.expression fun initializer =>
    expect_followed fun semicolon => Consumes.pure ?_
  intro ends read inside named keyword word _
  obtain ⟨words, shaped⟩ := optionally_spells inside
  refine ⟨?_, shaped⟩
  simp [words, word_of_keyword word, word_of_identifier named, word_of_symbol ends]

theorem expressionStatement_tells (tell : rules.Tell) :
    Tells Stmt.words Branch (expressionStatement rules) := by
  refine tell.expression.followed fun e => expect_followed fun semicolon => Consumes.pure ?_
  intro ends read spelled _
  exact ⟨by simp [spelled.words, word_of_symbol ends], spelled.shaped, rfl⟩

theorem printStatement_tells (tell : rules.Tell) :
    TellsAfter (.keyword .print) Stmt.words Branch (printStatement rules) := by
  refine tell.expression.followed fun e => expect_followed fun semicolon => Consumes.pure ?_
  intro ends read spelled keyword word _
  refine ⟨?_, spelled.shaped, rfl⟩
  simp [spelled.words, word_of_keyword word, word_of_symbol ends]

theorem optionalUnless_spells (tell : rules.Tell) (closing : Symbol) :
    Consumes (fun value => {ts | ts.map Token.word = optionalWords [] value ∧ optionalShaped value})
      (optionalUnless rules closing) :=
  (sees_consumes _).freely (branch_consumes (Consumes.pure ⟨rfl, trivial⟩)
    (tell.expression.map fun _ _ spelled => ⟨spelled.words, spelled.shaped⟩))

theorem returnStatement_tells (tell : rules.Tell) (keyword : Token) :
    Consumes (fun s => {ts | keyword.kind ∈ [Kind.keyword .return] →
      keyword :: ts ∈ told Stmt.words Branch s}) (returnStatement rules keyword) := by
  refine (optionalUnless_spells tell _).followed fun value =>
    expect_followed fun semicolon => Consumes.pure ?_
  rintro ends read ⟨words, shaped⟩ word _
  refine ⟨?_, shaped, rfl⟩
  simp [words, word_of_keyword (List.mem_singleton.mp word), word_of_symbol ends]

theorem optionally_tells {branch : Option Stmt} {ts : List Token}
    (inside : ts ∈ optionally (.keyword .else) (told Stmt.words Branch) branch)
    (forless : Forless ts) : ts.map Token.word = elseWords branch ∧ elseShaped branch := by
  cases branch with
  | none =>
    cases inside
    exact ⟨rfl, trivial⟩
  | some s =>
    obtain ⟨keyword, read, word, tells, rfl⟩ := inside
    obtain ⟨words, shaped⟩ := tells (forless_cons.mp forless).2
    exact ⟨by simp [words, word_of_keyword word], shaped⟩

theorem ifStatement_tells (tell : rules.Tell) :
    TellsAfter (.keyword .if) Stmt.words Branch (ifStatement rules) := by
  refine expect_followed fun opening => tell.expression.followed fun condition =>
    expect_followed fun closing => tell.statement.followed fun thenBranch =>
    option_followed tell.statement fun elseBranch => Consumes.pure ?_
  intro other otherwise body told closes read spelled opens keyword word forless
  simp only [forless_cons, forless_append, List.append_nil] at forless
  obtain ⟨words, shaped⟩ := told forless.2.2.2.2.1
  obtain ⟨words', shaped'⟩ := optionally_tells otherwise forless.2.2.2.2.2
  refine ⟨?_, ⟨spelled.shaped, shaped, shaped'⟩, rfl⟩
  simp [spelled.words, words, words', word_of_keyword word, word_of_symbol opens,
    word_of_symbol closes]

theorem whileStatement_tells (tell : rules.Tell) :
    TellsAfter (.keyword .while) Stmt.words Branch (whileStatement rules) := by
  refine expect_followed fun opening => tell.expression.followed fun condition =>
    expect_followed fun closing => tell.statement.ending fun body => ?_
  intro ts told closes read spelled opens keyword word forless
  simp only [forless_cons, forless_append] at forless
  obtain ⟨words, shaped⟩ := told forless.2.2.2.2
  refine ⟨?_, ⟨spelled.shaped, shaped⟩, rfl⟩
  simp [spelled.words, words, word_of_keyword word, word_of_symbol opens,
    word_of_symbol closes]

theorem forStatement_tells (tell : rules.Tell) :
    TellsAfter (.keyword .for) Stmt.words Branch (forStatement rules) :=
  (forStatement_consumes tell.consume).widen fun _ _ _ _ word forless =>
    absurd word (forless_cons.mp forless).1

theorem anyStatement_tells (tell : rules.Tell) :
    Tells Stmt.words Branch (anyStatement rules) := by
  refine choice_followed (forStatement_tells tell) (choice_followed (ifStatement_tells tell)
    (choice_followed (whileStatement_tells tell) (found_followed (returnStatement_tells tell)
    (choice_followed ((block_tells tell).ending fun body => ?_)
    (choice_followed (printStatement_tells tell) (expressionStatement_tells tell))))))
  intro ts block token opens forless
  obtain ⟨words, shaped⟩ := block token opens forless
  exact ⟨words, shaped, rfl⟩

theorem anyDeclaration_tells (tell : rules.Tell) :
    Tells Stmt.words Stmt.Shaped (anyDeclaration rules) := by
  refine choice_followed (classDeclaration_tells tell) (choice_followed
    ((function_tells tell "function").ending fun declaration => ?_)
    (choice_followed (varDeclaration_tells tell)
    ((anyStatement_tells tell).widen fun s ts told forless => ?_)))
  · intro ts told keyword word forless
    obtain ⟨words, shaped⟩ := told (forless_cons.mp forless).2
    exact ⟨by simp [words, word_of_keyword word], shaped⟩
  · obtain ⟨words, shaped, _⟩ := told forless
    exact ⟨words, shaped⟩

theorem recovering_tells {declaration : Parser Stmt} (reads : Tells Stmt.words Stmt.Shaped declaration) :
    Tells (fun s : Option Stmt => stmtsWords s.toList) (fun s => stmtsShaped s.toList)
      (recovering declaration) := by
  refine recovering_consumes (reads.widen fun s ts told forless => ?_)
  obtain ⟨words, shaped⟩ := told forless
  exact ⟨by simp [words], shaped, trivial⟩

end Rules

/-! ### Programs -/

theorem statement_declaration_tell (bound : Nat) :
    Tells Stmt.words Branch (statement bound) ∧
      Tells (fun s : Option Stmt => stmtsWords s.toList) (fun s => stmtsShaped s.toList)
        (declaration bound) := by
  induction bound with
  | zero => exact ⟨giveUp_consumes _ _, recovering_tells (giveUp_consumes _ _)⟩
  | succ bound ih =>
    have consume := statement_declaration_consumes bound
    have tell : Rules.Tell
        ⟨bound + 1, expression (bound + 1), statement bound, declaration bound⟩ :=
      ⟨⟨expression_consumes _, consume.1, consume.2⟩, expression_spells _, ih.1, ih.2⟩
    exact ⟨anyStatement_tells tell, recovering_tells (anyDeclaration_tells tell)⟩

end Lox.Tree.Parser

namespace Lox.Tree

/-- A program that is read without a `for` is written back as it was read, and its operators are
where their precedence has them. -/
theorem parse_spelled {tokens : List Token} {first : Nat} {program : List Stmt}
    (parsed : (parse tokens first).result = .ok program)
    (forless : ∀ token ∈ tokens.takeWhile (·.kind ≠ .eof), token.kind ≠ .keyword .for) :
    (tokens.takeWhile (·.kind ≠ .eof)).map Token.word = stmtsWords program ∧
      stmtsShaped program := by
  have told := parse_reads (fun bound => Parser.declarations_tell
    (Parser.statement_declaration_tell bound).2 Parser.passed_consumes bound) parsed
  exact told forless

/-- Differences group to the left. -/
theorem differences_spelled : ∃ a b c minus semicolon : Token, ∃ program,
    (parse [a, minus, b, minus, c, semicolon] 0).result = .ok program ∧
      program = [.expression (.binary
        (.binary (.variable ⟨0, a⟩) minus (.variable ⟨1, b⟩)) minus (.variable ⟨2, c⟩))] ∧
      [a, minus, b, minus, c, semicolon].map Token.word = stmtsWords program ∧
        stmtsShaped program := by
  let a : Token := ⟨.identifier, "a", 1⟩
  let b : Token := ⟨.identifier, "b", 1⟩
  let c : Token := ⟨.identifier, "c", 1⟩
  let minus : Token := ⟨.symbol .minus, "-", 1⟩
  let semicolon : Token := ⟨.symbol .semicolon, ";", 1⟩
  have parsed : (parse [a, minus, b, minus, c, semicolon] 0).result = .ok [.expression (.binary
    (.binary (.variable ⟨0, a⟩) minus (.variable ⟨1, b⟩)) minus (.variable ⟨2, c⟩))] := by cbv
  exact ⟨a, b, c, minus, semicolon, _, parsed, rfl, parse_spelled parsed (by decide)⟩

end Lox.Tree
