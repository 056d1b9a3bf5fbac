import Lox.Proofs.Grammar
import Lox.Tree.Statement

/-! What is read without a complaint is derived by the grammar. -/

namespace Lox.Tree.Parser

open Grammar Computability

/-- A rule only adds to the complaints, and where it adds none, what it has read is of a language
that may depend on what it gives. -/
def Consumes {α : Type} (language : α → Language Token) (parser : Parser α) : Prop :=
  ∀ before, ∃ more, (parser before).2.faults = before.faults ++ more ∧
    ∀ value, (parser before).1 = .ok value → more = [] →
      ∃ ts ∈ language value, before.rest = ts ++ (parser before).2.rest

namespace Consumes

variable {α β : Type} {language wider : α → Language Token} {others : β → Language Token}

theorem widen {parser : Parser α} (consumes : Consumes language parser)
    (within : ∀ value, language value ≤ wider value) : Consumes wider parser := by
  intro before
  obtain ⟨more, told, given⟩ := consumes before
  refine ⟨more, told, fun value same quiet => ?_⟩
  obtain ⟨ts, derived, read⟩ := given value same quiet
  exact ⟨ts, within value derived, read⟩

theorem pure {value : α} (empty : [] ∈ language value) :
    Consumes language (Pure.pure value : Parser α) := by
  refine fun before => ⟨[], (List.append_nil _).symm, fun other same _ => ?_⟩
  cases same
  exact ⟨[], empty, rfl⟩

theorem bind {parser : Parser α} {next : α → Parser β} {between : α → β → Language Token}
    (first : Consumes language parser) (second : ∀ value, Consumes (between value) (next value))
    (within : ∀ value other, language value * between value other ≤ others other) :
    Consumes others (parser >>= next) := by
  intro before
  obtain ⟨more, told, given⟩ := first before
  rw [bind_apply]
  rcases ran : parser before with ⟨fault | value, middle⟩
  · rw [ran] at told
    exact ⟨more, told, nofun⟩
  · rw [ran] at told given
    obtain ⟨further, later, finished⟩ := second value middle
    refine ⟨more ++ further, by rw [later, told, List.append_assoc], fun other same quiet => ?_⟩
    obtain ⟨rfl, rfl⟩ := List.append_eq_nil_iff.mp quiet
    obtain ⟨ts, derived, read⟩ := given value rfl rfl
    obtain ⟨rest, also, left⟩ := finished other same rfl
    refine ⟨ts ++ rest, within value other (Language.append_mem_mul derived also), ?_⟩
    rw [read, left, List.append_assoc]

/-- In most rules the language does not depend on what was read. -/
theorem before {L M : Language Token} {parser : Parser α} {next : α → Parser β}
    (first : Consumes (fun _ => L) parser) (second : ∀ value, Consumes (fun _ => M) (next value)) :
    Consumes (fun _ => L * M) (parser >>= next) :=
  first.bind second fun _ _ => le_rfl

/-- What is done at the start reads nothing. -/
theorem freely {parser : Parser α} {next : α → Parser β} (first : Consumes (fun _ => 1) parser)
    (second : ∀ value, Consumes others (next value)) : Consumes others (parser >>= next) :=
  first.bind second fun _ value => (one_mul (others value)).le

theorem map {parser : Parser α} {f : α → β} (first : Consumes language parser)
    (within : ∀ value, language value ≤ others (f value)) : Consumes others (f <$> parser) := by
  intro before
  obtain ⟨more, told, given⟩ := first before
  rw [map_apply]
  rcases ran : parser before with ⟨fault | value, after⟩ <;> rw [ran] at told given
  · exact ⟨more, told, nofun⟩
  · refine ⟨more, told, fun other same quiet => ?_⟩
    cases same
    obtain ⟨ts, derived, read⟩ := given value rfl quiet
    exact ⟨ts, within value derived, read⟩

/-- What is done at the end reads nothing. -/
theorem ending {parser : Parser α} {f : α → β} (first : Consumes language parser)
    (within : ∀ value, language value ≤ others (f value)) :
    Consumes others (parser >>= fun value => Pure.pure (f value)) :=
  first.map within

theorem yield {L : Language Token} {parser : Parser α} {f : α → β}
    (first : Consumes (fun _ => L) parser) :
    Consumes (fun _ => L) (parser >>= fun value => Pure.pure (f value)) :=
  first.ending fun _ => le_rfl

end Consumes

variable {α β : Type} {L M : Language Token}

/-! ### Tokens -/

theorem giveUp_consumes (language : α → Language Token) (complaint : ParseComplaint) :
    Consumes language (giveUp complaint : Parser α) :=
  fun _ => ⟨[], (List.append_nil _).symm, nofun⟩

theorem record_consumes (fault : Fault) : Consumes (fun _ => 0) (record fault) :=
  fun _ => ⟨[fault], rfl, nofun⟩

theorem reference_consumes (name : Token) : Consumes (fun _ => 1) (reference name) :=
  fun _ => ⟨[], (List.append_nil _).symm, fun _ _ _ => ⟨[], rfl, rfl⟩⟩

theorem sees_consumes (kind : Kind) : Consumes (fun _ => 1) (sees kind) := by
  intro before
  refine ⟨[], ?_, fun _ _ _ => ⟨[], rfl, ?_⟩⟩ <;> unfold sees <;> split <;> simp [*]

theorem acceptAny_reads (kinds : List Kind) :
    Consumes (fun found => {ts | ts = found.toList ∧ ∀ token ∈ found, token.kind ∈ kinds})
      (acceptAny? kinds) := by
  intro before
  unfold acceptAny?
  cases shape : before.rest with
  | nil =>
    refine ⟨[], by simp, fun value same _ => ?_⟩
    cases same
    exact ⟨[], ⟨rfl, by simp⟩, by simp [shape]⟩
  | cons token rest =>
    by_cases allowed : token.kind ∈ kinds
    · refine ⟨[], by simp [allowed], fun value same _ => ?_⟩
      simp only [allowed, if_true, Except.ok.injEq] at same
      subst same
      exact ⟨[token], ⟨rfl, by simpa using allowed⟩, by simp [allowed]⟩
    · refine ⟨[], by simp [allowed], fun value same _ => ?_⟩
      simp only [allowed, if_false, Except.ok.injEq] at same
      subst same
      exact ⟨[], ⟨rfl, by simp⟩, by simp [allowed, shape]⟩

theorem acceptAny_consumes (kinds : List Kind) :
    Consumes (fun token => if token.isSome then oneOf kinds else 1) (acceptAny? kinds) := by
  refine (acceptAny_reads kinds).widen fun found => ?_
  rintro _ ⟨rfl, allowed⟩
  cases found with
  | none => rfl
  | some token => exact ⟨token, allowed token rfl, rfl⟩

theorem accept_consumes (kind : Kind) :
    Consumes (fun seen => if seen then oneOf [kind] else 1) (accept kind) :=
  (acceptAny_consumes [kind]).map fun _ => le_rfl

/-- Two ways to go on, of which the first is taken after a token. -/
theorem found_consumes {kinds : List Kind} {yes : Token → Parser α} {no : Parser α}
    {L M : α → Language Token} (taken : ∀ token, Consumes L (yes token)) (left : Consumes M no) :
    Consumes (fun value => oneOf kinds * L value + M value)
      (acceptAny? kinds >>= fun found => match found with
        | some token => yes token
        | none => no) := by
  have split : ∀ found : Option Token,
      Consumes (fun value => if found.isSome then L value else M value)
        (match found with | some token => yes token | none => no) := by
    intro found
    cases found with
    | some token => exact taken token
    | none => exact left
  refine (acceptAny_consumes kinds).bind split fun found value => ?_
  cases found with
  | some token => exact le_self_add
  | none => exact (one_mul (M value)).le.trans le_add_self

theorem choice_consumes {kind : Kind} {yes no : Parser α} {L M : α → Language Token}
    (taken : Consumes L yes) (left : Consumes M no) :
    Consumes (fun value => oneOf [kind] * L value + M value)
      (accept kind >>= fun seen => if seen = true then yes else no) := by
  have split : ∀ seen : Bool, Consumes (fun value => if seen then L value else M value)
      (if seen = true then yes else no) := by
    intro seen
    cases seen with
    | true => exact taken
    | false => exact left
  refine (accept_consumes kind).bind split fun seen value => ?_
  cases seen with
  | true => exact le_self_add
  | false => exact (one_mul (M value)).le.trans le_add_self

theorem passed_consumes {value : α} : Consumes (fun _ => 1) (Pure.pure value : Parser α) :=
  Consumes.pure Language.nil_mem_one

theorem expect_consumes (sign : Symbol) (place : String) :
    Consumes (fun _ => symbol sign) (expect sign place) :=
  (found_consumes (fun _ => passed_consumes) (giveUp_consumes (fun _ => 0) _)).widen
    fun _ => by simp

theorem expectName_consumes (phrase : String) :
    Consumes (fun _ => identifier) (expectName phrase) :=
  (found_consumes (fun _ => passed_consumes) (giveUp_consumes (fun _ => 0) _)).widen
    fun _ => by simp

theorem checkLimit_consumes (items : String) (count : Nat) :
    Consumes (fun _ => {ts | ts = [] ∧ count < maxArguments}) (checkLimit items count) := by
  intro before
  unfold checkLimit
  by_cases full : maxArguments ≤ count
  · rw [if_pos full]
    exact ⟨[_], rfl, nofun⟩
  · rw [if_neg full]
    exact ⟨[], (List.append_nil _).symm, fun _ _ _ => ⟨[], ⟨rfl, by omega⟩, rfl⟩⟩

/-! ### Lists and operators -/

variable {item : Parser α}

theorem separated_consumes (items : String) (reads : Consumes (fun _ => L) item) :
    ∀ bound count, Consumes (fun _ => listOf (fun length => count + length ≤ maxArguments) L)
      (separated items item bound count)
  | 0, count => by
    refine (checkLimit_consumes items count).bind (fun _ => reads.yield) fun _ _ => ?_
    rintro _ ⟨_, ⟨rfl, room⟩, ts, derived, rfl⟩
    exact listOf_one L room derived
  | bound + 1, count => by
    have more := separated_consumes items reads bound (count + 1)
    refine (checkLimit_consumes items count).bind
      (fun _ => reads.before fun _ => choice_consumes more.yield passed_consumes) fun _ _ => ?_
    rintro _ ⟨_, ⟨rfl, room⟩, ts, derived, rfl⟩
    simp only [mul_add, mul_one, Nat.add_assoc] at derived
    rcases derived with derived | derived
    · exact listOf_more L derived
    · exact listOf_one L room derived

theorem listed_consumes (bound : Nat) (items : String) (reads : Consumes (fun _ => L) item) :
    Consumes (fun _ => optional (listOf (· ≤ maxArguments) L)) (listed bound items item) := by
  have split : ∀ none : Bool, Consumes (fun _ => optional (listOf (· ≤ maxArguments) L))
      (if none = true then Pure.pure [] else separated items item bound 0) := by
    intro none
    cases none with
    | true => exact Consumes.pure (Or.inr rfl)
    | false =>
      refine (separated_consumes items reads bound 0).widen fun _ => ?_
      simp only [Nat.zero_add]
      exact le_self_add
  exact (sees_consumes _).bind split fun _ _ => (one_mul _).le

/-- What stands for a target: where an expression can be assigned to, the grammar derives it as a
target too. -/
def target : Expr → Language Token
  | .variable _ => identifier
  | .get _ _ => derived .call * symbol .dot * identifier
  | _ => ⊤

/-- No target, whatever it is made of. -/
def Targetless : Expr → Prop
  | .variable _ | .get _ _ => False
  | _ => True

theorem Targetless.target {value : Expr} (free : Targetless value) (ts : List Token) :
    ts ∈ target value := by
  cases value <;> trivial

variable {kinds : List Kind} {build : Expr → Token → Expr → Expr} {operand : Parser Expr}

theorem chain_consumes (never : ∀ left operator right, Targetless (build left operator right))
    (reads : Consumes (fun value => L ⊓ target value) operand) :
    ∀ bound left, Consumes (fun value => {ts | ts ∈ (oneOf kinds * L)∗ ∧
      (Targetless value ∨ value = left ∧ ts = [])}) (chain kinds build operand bound left)
  | 0, left => Consumes.pure ⟨Language.nil_mem_kstar _, .inr ⟨rfl, rfl⟩⟩
  | bound + 1, left => by
    have more (operator : Token) : Consumes
        (fun value => {ts | ts ∈ L * (oneOf kinds * L)∗ ∧ Targetless value})
        (operand >>= fun right => chain kinds build operand bound (build left operator right)) := by
      refine reads.bind (fun right => chain_consumes never reads bound _) fun right value => ?_
      rintro _ ⟨first, ⟨inside, _⟩, rest, ⟨others, free⟩, rfl⟩
      refine ⟨Language.append_mem_mul inside others, ?_⟩
      rcases free with free | ⟨rfl, _⟩
      · exact free
      · exact never left operator right
    have none : Consumes (fun value => {ts | value = left ∧ ts = []}) (Pure.pure left) :=
      Consumes.pure ⟨rfl, rfl⟩
    refine Consumes.widen (found_consumes more none) fun value => ?_
    have further : oneOf kinds * (L * (oneOf kinds * L)∗) ≤ (oneOf kinds * L)∗ := by
      rw [← mul_assoc]
      exact mul_kstar_le_kstar
    rintro ts (⟨first, operator, rest, ⟨others, free⟩, rfl⟩ | ⟨rfl, rfl⟩)
    · exact ⟨further (Language.append_mem_mul operator others), .inl free⟩
    · exact ⟨Language.nil_mem_kstar _, .inr ⟨rfl, rfl⟩⟩

theorem leftAssoc_consumes (bound : Nat)
    (never : ∀ left operator right, Targetless (build left operator right))
    (reads : Consumes (fun value => L ⊓ target value) operand) :
    Consumes (fun value => operation L kinds ⊓ target value)
      (leftAssoc bound kinds build operand) := by
  refine reads.bind (fun left => chain_consumes never reads bound left) fun left value => ?_
  rintro _ ⟨first, ⟨inside, allowed⟩, rest, ⟨others, free⟩, rfl⟩
  refine ⟨Language.append_mem_mul inside others, ?_⟩
  rcases free with free | ⟨rfl, rfl⟩
  · exact free.target _
  · simpa using allowed

/-! ### Expressions -/

/-- Whatever is read, what a rule gives has a property. -/
def Gives {α : Type} (property : α → Prop) (parser : Parser α) : Prop :=
  ∀ before value after, parser before = (.ok value, after) → property value

theorem Gives.pure {property : α → Prop} {value : α} (holds : property value) :
    Gives property (Pure.pure value : Parser α) := by
  intro before other after ran
  cases ran
  exact holds

theorem Gives.last {property : β → Prop} {parser : Parser α} {next : α → Parser β}
    (gives : ∀ value, Gives property (next value)) : Gives property (parser >>= next) := by
  intro before value after ran
  rw [bind_apply] at ran
  rcases step : parser before with ⟨fault | first, middle⟩ <;> rw [step] at ran
  · cases ran
  · exact gives first middle value after ran

theorem Consumes.gives {property : α → Prop} {parser : Parser α}
    (consumes : Consumes (fun _ => L) parser) (gives : Gives property parser) :
    Consumes (fun value => {ts | ts ∈ L ∧ property value}) parser := by
  intro before
  obtain ⟨more, told, given⟩ := consumes before
  refine ⟨more, told, fun value same quiet => ?_⟩
  obtain ⟨ts, inside, read⟩ := given value same quiet
  exact ⟨ts, ⟨inside, gives before value _ (Prod.ext same rfl)⟩, read⟩

variable {whole : Parser Expr}

theorem superExpr_consumes (keyword : Token) :
    Consumes (fun _ => symbol .dot * identifier) (superExpr keyword) := by
  refine (expect_consumes .dot _).before fun _ => ?_
  refine (expectName_consumes _).bind (fun method => (reference_consumes keyword).yield) ?_
  exact fun _ _ => (mul_one identifier).le

theorem superExpr_gives (keyword : Token) :
    Gives (fun value => Targetless value) (superExpr keyword) :=
  Gives.last fun _ => Gives.last fun _ => Gives.last fun _ => Gives.pure trivial

theorem groupingExpr_consumes (reads : Consumes (fun _ => L) whole) :
    Consumes (fun _ => L * symbol .rightParen) (groupingExpr whole) :=
  reads.before fun _ => (expect_consumes .rightParen _).yield

theorem groupingExpr_gives : Gives (fun value => Targetless value) (groupingExpr whole) :=
  Gives.last fun _ => Gives.last fun _ => Gives.pure trivial

/-- A primary expression is a target only as a variable. -/
def primaryTarget : Expr → Language Token
  | .variable _ => identifier
  | .get _ _ => ⊥
  | _ => ⊤

theorem Targetless.primaryTarget {value : Expr} (free : Targetless value) (ts : List Token) :
    ts ∈ primaryTarget value := by
  cases value <;> trivial

theorem cons_mem {token : Token} {ts : List Token} (kind : token.kind ∈ kinds) (rest : ts ∈ L) :
    token :: ts ∈ oneOf kinds * L :=
  Language.append_mem_mul (a := [token]) ⟨token, kind, rfl⟩ rest

theorem one_mem {token : Token} (kind : token.kind ∈ kinds) : [token] ∈ oneOf kinds :=
  ⟨token, kind, rfl⟩

theorem literal_primary {token : Token} {literal : Literal}
    (found : literal? token.kind = some literal) : [token] ∈ derived .primary := by
  rw [derived_eq]
  simp only [production, Language.mem_add]
  cases kind : token.kind with
  | symbol sign => simp [kind, literal?] at found
  | identifier => simp [kind, literal?] at found
  | eof => simp [kind, literal?] at found
  | number value => simp [show [token] ∈ number from ⟨token, value, kind, rfl⟩]
  | string text => simp [show [token] ∈ string from ⟨token, text, kind, rfl⟩]
  | keyword word =>
    have one : [token] ∈ oneOf [.keyword word] := one_mem (by simp [kind])
    cases word <;> simp_all [literal?]

theorem primaryOf_consumes (reads : Consumes (fun _ => derived .expression) whole) {token : Token}
    {rest : Parser Expr} (found : primaryOf? whole token = some rest) :
    Consumes (fun value => {ts | token :: ts ∈ derived .primary ∧ token :: ts ∈ primaryTarget value})
      rest := by
  unfold primaryOf? at found
  split at found
  · rename_i kind
    cases found
    refine ((superExpr_consumes token).gives (superExpr_gives token)).widen fun value => ?_
    rintro ts ⟨inside, free⟩
    refine ⟨?_, free.primaryTarget _⟩
    have first : token.kind ∈ [Kind.keyword .super] := by simp [kind]
    have read := cons_mem first inside
    rw [derived_eq]
    simp only [production, Language.mem_add, mul_assoc, read, or_true]
  · rename_i kind
    cases found
    have one : [token] ∈ keyword .this := one_mem (by simp [kind])
    have within : [token] ∈ derived .primary := by
      rw [derived_eq]
      simp only [production, Language.mem_add, one, or_true, true_or]
    refine (reference_consumes token).map fun value => ?_
    rintro _ rfl
    exact ⟨within, trivial⟩
  · rename_i kind
    cases found
    have one : [token] ∈ identifier := one_mem (by simp [kind])
    have within : [token] ∈ derived .primary := by
      rw [derived_eq]
      simp only [production, Language.mem_add, one, or_true, true_or]
    refine (reference_consumes token).map fun value => ?_
    rintro _ rfl
    exact ⟨within, one⟩
  · rename_i kind
    cases found
    refine ((groupingExpr_consumes reads).gives groupingExpr_gives).widen fun value => ?_
    rintro ts ⟨inside, free⟩
    refine ⟨?_, free.primaryTarget _⟩
    have first : token.kind ∈ [Kind.symbol .leftParen] := by simp [kind]
    have read := cons_mem first inside
    rw [derived_eq]
    simp only [production, Language.mem_add, mul_assoc, read, or_true, true_or]
  · obtain ⟨literal, kind, rfl⟩ := Option.map_eq_some_iff.mp found
    exact Consumes.pure ⟨literal_primary kind, trivial⟩

/-- A primary expression is known by its first token. -/
theorem primary_reads {language : Expr → Language Token}
    (reads : ∀ token rest, primaryOf? whole token = some rest →
      Consumes (fun value => {ts | token :: ts ∈ language value}) rest) :
    Consumes language (primary whole) := by
  intro before
  cases shape : before.rest with
  | nil =>
    have none : primary whole before = giveUp (.missingPhrase "expression") before := by
      simp [primary, peek?, shape]
    rw [none]
    exact ⟨[], (List.append_nil _).symm, nofun⟩
  | cons token rest =>
    cases found : primaryOf? whole token with
    | none =>
      have none : primary whole before = giveUp (.missingPhrase "expression") before := by
        simp [primary, peek?, shape, found]
      rw [none]
      exact ⟨[], (List.append_nil _).symm, nofun⟩
    | some next =>
      have same : primary whole before = next { before with rest := rest } := by
        simp [primary, peek?, skip, shape, found]
      obtain ⟨more, told, given⟩ := reads token next found { before with rest := rest }
      rw [same]
      refine ⟨more, told, fun value found quiet => ?_⟩
      obtain ⟨ts, inside, read⟩ := given value found quiet
      exact ⟨token :: ts, inside, congrArg (token :: ·) read⟩

theorem primary_consumes (reads : Consumes (fun _ => derived .expression) whole) :
    Consumes (fun value => derived .primary ⊓ primaryTarget value) (primary whole) :=
  primary_reads fun _ _ found => primaryOf_consumes reads found

/-- A call's arguments or a property after an expression. -/
def suffix : Language Token :=
  symbol .leftParen * optional (derived .arguments) * symbol .rightParen +
    symbol .dot * identifier

/-- What stands after a primary expression, by what it makes of it. -/
def suffixes : Expr → Language Token
  | .variable _ => 0
  | .get _ _ => suffix∗ * (symbol .dot * identifier)
  | _ => suffix∗

/-- Nothing was read, and nothing has changed. -/
def unread (expr value : Expr) : Language Token := {ts | value = expr ∧ ts = []}

theorem mul_unread {M : Language Token} {expr value : Expr} (within : value = expr → L ≤ M) :
    L * unread expr value ≤ M := by
  rintro _ ⟨ts, inside, _, ⟨same, rfl⟩, rfl⟩
  simpa only [List.append_nil] using within same inside

theorem suffixes_le (value : Expr) : suffixes value ≤ suffix∗ := by
  cases value with
  | «variable» use => exact bot_le
  | get object name =>
    refine le_trans ?_ (kstar_mul_kstar suffix).le
    exact mul_le_mul' le_rfl (le_trans le_add_self le_kstar)
  | _ => exact le_rfl

theorem suffix_suffixes (value : Expr) : suffix * suffixes value ≤ suffixes value := by
  cases value with
  | «variable» use => exact (mul_zero _).le
  | get object name =>
    rw [suffixes, ← mul_assoc]
    exact mul_le_mul' mul_kstar_le_kstar le_rfl
  | _ => exact mul_kstar_le_kstar

theorem unread_targetless {expr : Expr} (free : Targetless expr) (value : Expr) :
    unread expr value ≤ suffixes value := by
  rintro _ ⟨rfl, rfl⟩
  cases value <;> first | exact Language.nil_mem_kstar _ | cases free

theorem call_suffixes (value : Expr) :
    symbol .leftParen * (optional (derived .arguments) * (symbol .rightParen * suffixes value)) ≤
      suffixes value := by
  refine le_trans ?_ (suffix_suffixes value)
  rw [suffix, add_mul]
  exact le_trans (by simp only [mul_assoc, le_refl]) le_self_add

/-- A property that was just read may be the last thing after the expression. -/
theorem get_suffixes (expr : Expr) (name : Token) (value : Expr) :
    symbol .dot * (identifier * (suffixes value + unread (.get expr name) value)) ≤
      suffixes value := by
  rw [← mul_assoc, mul_add]
  refine add_le ?_ ?_
  · refine le_trans ?_ (suffix_suffixes value)
    rw [suffix, add_mul]
    exact le_add_self
  · refine mul_unread fun same => ?_
    rw [same]
    calc symbol .dot * identifier = 1 * (symbol .dot * identifier) := (one_mul _).symm
      _ ≤ suffix∗ * (symbol .dot * identifier) := mul_le_mul' one_le_kstar le_rfl

theorem postfixes_consumes (reads : Consumes (fun _ => derived .expression) whole) :
    ∀ bound expr, Consumes (fun value => suffixes value + unread expr value)
      (postfixes whole bound expr)
  | 0, expr => Consumes.pure (.inr ⟨rfl, rfl⟩)
  | bound + 1, expr => by
    have given : Consumes (fun _ => optional (derived .arguments))
        (listed bound "arguments" whole) := by
      rw [derived_eq]
      exact listed_consumes bound "arguments" reads
    have closed (arguments : List Expr) : Consumes
        (fun value => symbol .rightParen * suffixes value)
        (expect .rightParen "after arguments" >>= fun paren =>
          postfixes whole bound (.call expr paren arguments)) := by
      refine (expect_consumes _ _).bind (fun paren => postfixes_consumes reads bound _) ?_
      intro paren value
      have free : Targetless (.call expr paren arguments) := trivial
      gcongr
      exact add_le le_rfl (unread_targetless free value)
    have called := given.bind closed fun _ _ => le_rfl
    have got := (expectName_consumes "property name after '.'").bind
      (fun name => postfixes_consumes reads bound (.get expr name)) fun name value =>
        mul_le_mul' le_rfl (le_iSup
          (fun name => suffixes value + unread (.get expr name) value) name)
    have none : Consumes (unread expr) (Pure.pure expr : Parser Expr) := Consumes.pure ⟨rfl, rfl⟩
    refine (choice_consumes called (choice_consumes got none)).widen fun value => ?_
    refine add_le ((call_suffixes value).trans le_self_add) (add_le ?_ le_add_self)
    rw [Language.mul_iSup, Language.mul_iSup]
    exact iSup_le fun name => (get_suffixes expr name value).trans le_self_add

theorem call_eq : derived .call = derived .primary * suffix∗ := derived_eq .call

theorem call_consumes (bound : Nat) (reads : Consumes (fun _ => derived .expression) whole) :
    Consumes (fun value => derived .call ⊓ target value) (call bound whole) := by
  refine (primary_consumes reads).bind (fun expr => postfixes_consumes reads bound expr) ?_
  intro expr value
  refine le_inf ?_ ?_
  · rw [call_eq]
    refine mul_le_mul' inf_le_left (add_le (suffixes_le value) ?_)
    rintro _ ⟨_, rfl⟩
    exact Language.nil_mem_kstar suffix
  · rw [mul_add]
    refine add_le ?_ (mul_unread fun same => ?_)
    · cases value with
      | «variable» use => exact (mul_zero _).le.trans bot_le
      | get object name =>
        rw [target, call_eq, suffixes, mul_assoc, mul_assoc]
        exact mul_le_mul' inf_le_left le_rfl
      | _ => exact le_top
    · subst same
      refine inf_le_right.trans ?_
      cases value with
      | get object name => exact bot_le
      | _ => exact le_rfl

/-- The operators in front of an operand. -/
abbrev sign : Language Token := oneOf [.symbol .bang, .symbol .minus]

theorem signs_consumes :
    ∀ bound, Consumes (fun operators => if operators = [] then 1 else sign∗) (signs bound)
  | 0 => Consumes.pure Language.nil_mem_one
  | bound + 1 => by
    have more (operator : Token) : Consumes
        (fun operators => if operators = [] then 0 else sign∗)
        (signs bound >>= fun rest => Pure.pure (operator :: rest)) := by
      refine (signs_consumes bound).ending fun rest => ?_
      rw [if_neg (List.cons_ne_nil operator rest)]
      split
      · exact one_le_kstar
      · exact le_rfl
    have none : Consumes (fun operators => if operators = [] then 1 else 0)
        (Pure.pure [] : Parser (List Token)) := Consumes.pure Language.nil_mem_one
    refine (found_consumes more none).widen fun operators => ?_
    by_cases empty : operators = []
    · simp [empty]
    · simp only [empty, if_false, add_zero]
      exact mul_kstar_le_kstar

theorem unary_eq : derived .unary = sign * derived .unary + derived .call := derived_eq .unary

theorem call_unary : derived .call ≤ derived .unary := by
  rw [unary_eq]
  exact le_add_self

theorem signs_unary : sign∗ * derived .call ≤ derived .unary := by
  refine kstar_mul_le call_unary ?_
  calc sign * derived .unary ≤ sign * derived .unary + derived .call := le_self_add
    _ = derived .unary := unary_eq.symm

/-- An operand with operators in front is no target. -/
def signed : List Token → Expr → Language Token
  | [], value => derived .call ⊓ target value
  | _ :: _, value => {ts | ts ∈ derived .call ∧ Targetless value}

theorem unary_consumes (bound : Nat) (reads : Consumes (fun _ => derived .expression) whole) :
    Consumes (fun value => derived .unary ⊓ target value) (unary bound whole) := by
  have operand (operators : List Token) : Consumes (signed operators)
      (call bound whole >>= fun value => Pure.pure (operators.foldr Expr.unary value)) := by
    refine (call_consumes bound reads).ending fun value => ?_
    cases operators with
    | nil => exact le_rfl
    | cons operator rest => exact fun _ inside => ⟨inside.1, trivial⟩
  refine (signs_consumes bound).bind operand fun operators value => ?_
  cases operators with
  | nil =>
    rw [if_pos rfl, one_mul]
    exact inf_le_inf call_unary le_rfl
  | cons operator rest =>
    rw [if_neg (List.cons_ne_nil operator rest)]
    rintro _ ⟨first, signs, others, ⟨inside, free⟩, rfl⟩
    exact ⟨signs_unary (Language.append_mem_mul signs inside), free.target _⟩

/-! From the tightest operators to the loosest. -/

theorem operation_derived {rule operandRule : Rule} {operand : Parser Expr} (bound : Nat)
    (same : derived rule = operation (derived operandRule) kinds)
    (never : ∀ left operator right, Targetless (build left operator right))
    (reads : Consumes (fun value => derived operandRule ⊓ target value) operand) :
    Consumes (fun value => derived rule ⊓ target value) (leftAssoc bound kinds build operand) := by
  rw [same]
  exact leftAssoc_consumes bound never reads

theorem disjunction_consumes (bound : Nat) (reads : Consumes (fun _ => derived .expression) whole) :
    Consumes (fun value => derived .logicOr ⊓ target value) (disjunction bound whole) := by
  have binary : ∀ left operator right, Targetless (.binary left operator right) := fun _ _ _ => trivial
  have logical : ∀ left operator right, Targetless (.logical left operator right) := fun _ _ _ => trivial
  have factor := operation_derived bound (derived_eq .factor) binary (unary_consumes bound reads)
  have term := operation_derived bound (derived_eq .term) binary factor
  have comparison := operation_derived bound (derived_eq .comparison) binary term
  have equality := operation_derived bound (derived_eq .equality) binary comparison
  have conjunction := operation_derived bound (derived_eq .logicAnd) logical equality
  exact operation_derived bound (derived_eq .logicOr) logical conjunction

/-- Nothing is read after the value, but anything but a target is complained of. -/
def assignable : Expr → Language Token
  | .variable _ | .get _ _ => 1
  | _ => 0

theorem assignTo_consumes (found : Expr) (equals : Token) (value : Expr) :
    Consumes (fun _ => assignable found) (assignTo found equals value) := by
  cases found with
  | «variable» use => exact (reference_consumes use.name).yield
  | get object name => exact Consumes.pure Language.nil_mem_one
  | _ => exact (record_consumes _).yield

theorem expression_eq : derived .expression =
    optional (derived .call * symbol .dot) * identifier * symbol .equal * derived .expression +
      derived .logicOr := by
  have same : derived .expression = derived .assignment := derived_eq .expression
  rw [same]
  exact derived_eq .assignment

/-- A target before an equals sign is one for the grammar. -/
theorem target_assigned (found : Expr) :
    target found * (symbol .equal * (derived .expression * assignable found)) ≤
      derived .expression := by
  have closed : optional (derived .call * symbol .dot) * identifier * symbol .equal *
      derived .expression ≤ derived .expression := by
    conv_rhs => rw [expression_eq]
    exact le_self_add
  have one (L : Language Token) : 1 ≤ optional L := le_add_self
  have some (L : Language Token) : L ≤ optional L := le_self_add
  cases found with
  | «variable» use =>
    refine le_trans ?_ closed
    rw [target, assignable, mul_one, ← mul_assoc]
    gcongr
    exact le_trans (one_mul identifier).symm.le (mul_le_mul' (one _) le_rfl)
  | get object name =>
    refine le_trans ?_ closed
    rw [target, assignable, mul_one, ← mul_assoc]
    gcongr
    exact some _
  | _ => simp [assignable]

theorem assignment_consumes (bound : Nat) (reads : Consumes (fun _ => derived .expression) whole) :
    Consumes (fun _ => derived .expression) (assignment bound whole) := by
  have rest (found : Expr) : Consumes
      (fun _ => symbol .equal * (derived .expression * assignable found) + 1)
      (acceptAny? [.symbol .equal] >>= fun equals => match equals with
        | some equals => whole >>= assignTo found equals
        | none => Pure.pure found) :=
    found_consumes (fun equals => reads.before (assignTo_consumes found equals))
      passed_consumes
  refine (disjunction_consumes bound reads).bind rest fun found value => ?_
  rw [mul_add, mul_one]
  refine add_le ?_ ?_
  · exact (mul_le_mul' inf_le_right le_rfl).trans (target_assigned found)
  · rw [expression_eq]
    exact inf_le_left.trans le_add_self

theorem expression_consumes : ∀ bound, Consumes (fun _ => derived .expression) (expression bound)
  | 0 => giveUp_consumes _ _
  | bound + 1 => assignment_consumes (bound + 1) (expression_consumes bound)

/-! ### Statements -/

theorem atEnd_consumes : Consumes (fun _ => 1) atEnd :=
  fun _ => ⟨[], (List.append_nil _).symm, fun _ _ _ => ⟨[], rfl, rfl⟩⟩

theorem branch_consumes {yes no : Parser α} {M : α → Language Token} (taken : Consumes M yes)
    (left : Consumes M no) (which : Bool) : Consumes M (if which = true then yes else no) := by
  cases which with
  | true => exact taken
  | false => exact left

theorem declarations_consumes {declaration : Parser (Option Stmt)} {stop : Parser Bool}
    (reads : Consumes (fun _ => L) declaration) (stops : Consumes (fun _ => 1) stop) :
    ∀ bound, Consumes (fun _ => L∗) (declarations declaration stop bound)
  | 0 => Consumes.pure (Language.nil_mem_kstar L)
  | bound + 1 => by
    have none : Consumes (fun _ => L∗) (Pure.pure [] : Parser (List Stmt)) :=
      Consumes.pure (Language.nil_mem_kstar L)
    refine atEnd_consumes.freely (branch_consumes none (stops.freely (branch_consumes none ?_)))
    refine Consumes.widen ?_ fun _ => mul_kstar_le_kstar
    exact reads.before fun _ => (declarations_consumes reads stops bound).yield

/-- What the rules that a statement is made of read. -/
structure Rules.Consume (rules : Rules) : Prop where
  expression : Consumes (fun _ => derived .expression) rules.expression
  statement : Consumes (fun _ => derived .statement) rules.statement
  declaration : Consumes (fun _ => derived .declaration) rules.declaration

section

variable {rules : Rules}

theorem block_consumes (consume : rules.Consume) :
    Consumes (fun _ => (derived .declaration)∗ * symbol .rightBrace) (block rules) :=
  (declarations_consumes consume.declaration (sees_consumes _) rules.bound).before fun _ =>
    (expect_consumes _ _).yield

theorem function_consumes (consume : rules.Consume) (role : String) :
    Consumes (fun _ => derived .function) (function rules role) := by
  unfold function
  refine Consumes.widen ((expectName_consumes _).before fun _ => (expect_consumes _ _).before
    fun _ => (listed_consumes _ _ (expectName_consumes _)).before fun _ =>
    (expect_consumes _ _).before fun _ => (expect_consumes _ _).before fun _ =>
    (block_consumes consume).yield) fun _ => le_of_eq ?_
  simp only [derived_eq .function, production, derived_eq .block, derived_eq .parameters, mul_assoc]

theorem methods_consumes (consume : rules.Consume) :
    ∀ bound, Consumes (fun _ => (derived .function)∗) (methods rules bound)
  | 0 => Consumes.pure (Language.nil_mem_kstar _)
  | bound + 1 => by
    have none : Consumes (fun _ => (derived .function)∗) (Pure.pure [] : Parser (List FunctionDecl)) :=
      Consumes.pure (Language.nil_mem_kstar _)
    refine atEnd_consumes.freely (branch_consumes none
      ((sees_consumes _).freely (branch_consumes none ?_)))
    refine Consumes.widen ?_ fun _ => mul_kstar_le_kstar
    exact (function_consumes consume "method").before fun _ => (methods_consumes consume bound).yield

theorem superclass_consumes :
    Consumes (fun _ => optional (symbol .less * identifier)) superclass := by
  unfold superclass
  refine Consumes.widen (choice_consumes ((expectName_consumes _).before fun name =>
    (reference_consumes name).yield) passed_consumes) fun _ => le_of_eq ?_
  rw [mul_one, Grammar.optional]

/-! A keyword was read before. -/

theorem classDeclaration_consumes (consume : rules.Consume) :
    Consumes (fun _ => identifier * (optional (symbol .less * identifier) * (symbol .leftBrace *
      ((derived .function)∗ * symbol .rightBrace)))) (classDeclaration rules) :=
  (expectName_consumes _).before fun _ => superclass_consumes.before fun _ =>
    (expect_consumes _ _).before fun _ => (methods_consumes consume _).before fun _ =>
    (expect_consumes _ _).yield

/-- What may be left out, with what comes after it either way. -/
theorem option_consumes {kind : Kind} {parser : Parser α} {next : Option α → Parser β}
    (reads : Consumes (fun _ => L) parser) (after : ∀ found, Consumes (fun _ => M) (next found)) :
    Consumes (fun _ => optional (oneOf [kind] * L) * M)
      (accept kind >>= fun seen =>
        if seen = true then some <$> parser >>= next else Pure.pure none >>= next) := by
  have given : Consumes (fun _ => L) (some <$> parser) := reads.map fun _ => le_rfl
  refine (choice_consumes (given.before after) (passed_consumes.freely after)).widen fun _ => ?_
  rw [Grammar.optional, add_mul, one_mul, mul_assoc]

theorem varDeclaration_consumes (consume : rules.Consume) :
    Consumes (fun _ => identifier * (optional (symbol .equal * derived .expression) *
      symbol .semicolon)) (varDeclaration rules) :=
  (expectName_consumes _).before fun _ => option_consumes consume.expression fun _ =>
    (expect_consumes _ _).yield

theorem expressionStatement_consumes (consume : rules.Consume) :
    Consumes (fun _ => derived .exprStmt) (expressionStatement rules) := by
  rw [derived_eq]
  exact consume.expression.before fun _ => (expect_consumes _ _).yield

theorem printStatement_consumes (consume : rules.Consume) :
    Consumes (fun _ => derived .expression * symbol .semicolon) (printStatement rules) :=
  consume.expression.before fun _ => (expect_consumes _ _).yield

theorem optionalUnless_consumes (consume : rules.Consume) (closing : Symbol) :
    Consumes (fun _ => optional (derived .expression)) (optionalUnless rules closing) :=
  (sees_consumes _).freely (branch_consumes (Consumes.pure (Or.inr rfl))
    (consume.expression.map fun _ => le_self_add))

theorem returnStatement_consumes (consume : rules.Consume) (keyword : Token) :
    Consumes (fun _ => optional (derived .expression) * symbol .semicolon)
      (returnStatement rules keyword) :=
  (optionalUnless_consumes consume .semicolon).before fun _ => (expect_consumes _ _).yield

theorem ifStatement_consumes (consume : rules.Consume) :
    Consumes (fun _ => symbol .leftParen * (derived .expression * (symbol .rightParen *
      (derived .statement * optional (keyword .else * derived .statement))))) (ifStatement rules) := by
  rw [← mul_one (optional (keyword .else * derived .statement))]
  exact (expect_consumes _ _).before fun _ => consume.expression.before fun _ =>
    (expect_consumes _ _).before fun _ => consume.statement.before fun _ =>
    option_consumes consume.statement fun _ => passed_consumes

theorem whileStatement_consumes (consume : rules.Consume) :
    Consumes (fun _ => symbol .leftParen * (derived .expression * (symbol .rightParen *
      derived .statement))) (whileStatement rules) :=
  (expect_consumes _ _).before fun _ => consume.expression.before fun _ =>
    (expect_consumes _ _).before fun _ => consume.statement.yield

theorem forInitializer_consumes (consume : rules.Consume) :
    Consumes (fun _ => derived .varDecl + derived .exprStmt + symbol .semicolon)
      (forInitializer rules) := by
  have given {L : Language Token} {parser : Parser Stmt} (reads : Consumes (fun _ => L) parser) :
      Consumes (fun _ => L) (some <$> parser) := reads.map fun _ => le_rfl
  unfold forInitializer
  refine Consumes.widen (choice_consumes passed_consumes (choice_consumes
    (given (varDeclaration_consumes consume)) (given (expressionStatement_consumes consume))))
    fun _ => le_of_eq ?_
  rw [mul_one, add_comm, derived_eq .varDecl]
  simp only [production, mul_assoc]

theorem forStatement_consumes (consume : rules.Consume) :
    Consumes (fun _ => symbol .leftParen *
      ((derived .varDecl + derived .exprStmt + symbol .semicolon) *
      (optional (derived .expression) * (symbol .semicolon * (optional (derived .expression) *
      (symbol .rightParen * derived .statement)))))) (forStatement rules) :=
  (expect_consumes _ _).before fun _ => (forInitializer_consumes consume).before fun _ =>
    (optionalUnless_consumes consume _).before fun _ => (expect_consumes _ _).before fun _ =>
    (optionalUnless_consumes consume _).before fun _ => (expect_consumes _ _).before fun _ =>
    consume.statement.yield

theorem anyStatement_consumes (consume : rules.Consume) :
    Consumes (fun _ => derived .statement) (anyStatement rules) := by
  unfold anyStatement
  refine Consumes.widen (choice_consumes (forStatement_consumes consume)
    (choice_consumes (ifStatement_consumes consume)
    (choice_consumes (whileStatement_consumes consume)
    (found_consumes (returnStatement_consumes consume)
    (choice_consumes (block_consumes consume).yield
    (choice_consumes (printStatement_consumes consume)
      (expressionStatement_consumes consume))))))) fun _ => le_of_eq ?_
  refine Eq.trans ?_ (derived_eq .statement).symm
  dsimp only [production]
  rw [derived_eq .forStmt, derived_eq .ifStmt, derived_eq .whileStmt, derived_eq .returnStmt,
    derived_eq .printStmt, derived_eq .block]
  simp only [production, mul_assoc]
  ac_rfl

theorem anyDeclaration_consumes (consume : rules.Consume) :
    Consumes (fun _ => derived .declaration) (anyDeclaration rules) := by
  unfold anyDeclaration
  refine Consumes.widen (choice_consumes (classDeclaration_consumes consume)
    (choice_consumes (function_consumes consume "function").yield
    (choice_consumes (varDeclaration_consumes consume) (anyStatement_consumes consume))))
    fun _ => le_of_eq ?_
  simp only [derived_eq .declaration, production, derived_eq .classDecl, derived_eq .funDecl,
    derived_eq .varDecl, mul_assoc, add_assoc]

end

/-! ### Programs -/

/-- A declaration that gives up is complained of. -/
theorem recovering_consumes {language : Option Stmt → Language Token} {declaration : Parser Stmt}
    (reads : Consumes (fun s => language (some s)) declaration) :
    Consumes language (recovering declaration) := by
  intro before
  obtain ⟨more, told, given⟩ := reads before
  unfold recovering
  rcases ran : declaration before with ⟨fault | value, after⟩ <;> rw [ran] at told given
  · refine ⟨more ++ [fault], ?_, fun _ _ quiet => by simp at quiet⟩
    rw [← List.append_assoc, ← told]
    rfl
  · refine ⟨more, told, fun found same quiet => ?_⟩
    cases same
    exact given value rfl quiet

theorem statement_declaration_consumes (bound : Nat) :
    Consumes (fun _ => derived .statement) (statement bound) ∧
      Consumes (fun _ => derived .declaration) (declaration bound) := by
  induction bound with
  | zero => exact ⟨giveUp_consumes _ _, recovering_consumes (giveUp_consumes _ _)⟩
  | succ bound ih =>
    have consume : Rules.Consume
        ⟨bound + 1, expression (bound + 1), statement bound, declaration bound⟩ :=
      ⟨expression_consumes _, ih.1, ih.2⟩
    exact ⟨anyStatement_consumes consume, recovering_consumes (anyDeclaration_consumes consume)⟩

/-- Without a complaint, declarations are read up to the end. -/
theorem declarations_end {declaration : Parser (Option Stmt)}
    (reads : Consumes (fun _ => derived .declaration) declaration) :
    ∀ bound before value after, before.rest.length ≤ bound →
      declarations declaration (pure false) bound before = (.ok value, after) →
      after.faults = before.faults → after.rest = []
  | 0, before, value, after, short, ran, quiet => by
    cases ran
    exact List.length_eq_zero_iff.mp (Nat.le_zero.mp short)
  | bound + 1, before, value, after, short, ran, quiet => by
    unfold declarations at ran
    simp only [bind_apply, atEnd] at ran
    by_cases ended : before.rest.isEmpty = true
    · rw [if_pos ended] at ran
      cases ran
      exact List.isEmpty_iff.mp ended
    · rw [if_neg ended] at ran
      simp only [bind_apply, pure_apply, Bool.false_eq_true, if_false] at ran
      obtain ⟨more, told, given⟩ := reads before
      rcases first : declaration before with ⟨fault | stmt, middle⟩ <;> rw [first] at ran told given
      · cases ran
      · have stops : Consumes (fun _ => 1) (pure false : Parser Bool) := passed_consumes
        have rest := declarations_consumes reads stops bound middle
        obtain ⟨further, later, _⟩ := rest
        rcases second : declarations declaration (pure false) bound middle with
          ⟨fault | others, finish⟩ <;> simp only [second] at ran later <;> cases ran
        have none : more ++ further = [] := by
          rw [told, List.append_assoc] at later
          exact List.self_eq_append_right.mp (quiet.symm.trans later)
        obtain ⟨rfl, rfl⟩ := List.append_eq_nil_iff.mp none
        obtain ⟨ts, inside, read⟩ := given stmt rfl rfl
        obtain ⟨token, others, rfl, _⟩ := grammar_leading .declaration inside
        refine declarations_end reads bound middle _ after ?_ second ?_
        · rw [read] at short
          simp only [List.cons_append, List.length_cons, List.length_append] at short
          omega
        · exact later.trans (List.append_nil _)

end Lox.Tree.Parser

namespace Lox.Tree

open Grammar Computability

/-- A program was read where all declarations were, with nothing to complain of. -/
theorem parse_ok {tokens : List Token} {first : Nat} {program : List Stmt} :
    (parse tokens first).result = .ok program ↔
      ∃ after, Parser.program (Progress.start tokens first).rest.length
        (Progress.start tokens first) = (.ok program, after) ∧ after.faults = [] := by
  unfold parse
  rcases ran : Parser.program (Progress.start tokens first).rest.length
    (Progress.start tokens first) with ⟨fault | found, after⟩
  · simp [ran]
  · cases faults : after.faults <;> simp [ran, faults]

/-- A program was read from all its tokens. -/
theorem parse_reads {language : List Stmt → Language Token}
    (reads : ∀ bound, Parser.Consumes language
      (Parser.declarations (Parser.declaration bound) (pure false) bound))
    {tokens : List Token} {first : Nat} {program : List Stmt}
    (parsed : (parse tokens first).result = .ok program) :
    (Progress.start tokens first).rest ∈ language program := by
  obtain ⟨after, ran, quiet⟩ := parse_ok.mp parsed
  have derives := (Parser.statement_declaration_consumes (Progress.start tokens first).rest.length).2
  obtain ⟨more, told, given⟩ :=
    reads (Progress.start tokens first).rest.length (Progress.start tokens first)
  unfold Parser.program at ran
  rw [ran] at told given
  have none : more = [] := (told.symm.trans quiet : [] ++ more = [])
  obtain ⟨ts, inside, read⟩ := given program rfl none
  have ended := Parser.declarations_end derives _ _ _ _ le_rfl ran quiet
  rw [read, ended, List.append_nil]
  exact inside

/-- What a program was read from is derived by the grammar. -/
theorem parse_derived {tokens : List Token} {first : Nat} {program : List Stmt}
    (parsed : (parse tokens first).result = .ok program) :
    (Progress.start tokens first).rest ∈ (derived .declaration)∗ :=
  parse_reads (fun bound => Parser.declarations_consumes
    (Parser.statement_declaration_consumes bound).2 Parser.passed_consumes bound) parsed

end Lox.Tree
