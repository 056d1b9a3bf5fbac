import Lox.Proofs.Derived

/-! What the grammar derives is read, and as the same tree whatever follows it. -/

namespace Lox.Tree.Parser

open Grammar Computability

/-- What follows does not start with one of these kinds. -/
def Clear (kinds : List Kind) (rest : List Token) : Prop :=
  ∀ token, rest.head? = some token → token.kind ∉ kinds

/-- Tokens are read as a value, whatever follows but what would be read with them. -/
def Takes {α : Type} (parser : Parser α) (blocked : List Kind) (ts : List Token) (first : Nat)
    (value : α) (next : Nat) : Prop :=
  ∀ rest endLine faults, Clear blocked rest →
    parser ⟨ts ++ rest, endLine, first, faults⟩ = (.ok value, ⟨rest, endLine, next, faults⟩)

/-- Tokens are read as one value, whatever the bound that lets them be read. -/
def Readable {α : Type} (parser : Nat → Parser α) (blocked : List Kind) (ts : List Token) : Prop :=
  ∀ first, ∃ value next, ∀ bound, ts.length ≤ bound →
    Takes (parser bound) blocked ts first value next

variable {α β : Type} {kinds blocked : List Kind} {token : Token} {rest ts : List Token}
  {endLine first next : Nat} {faults : List Fault}

@[simp] theorem clear_nil : Clear kinds [] := nofun

@[simp] theorem clear_cons : Clear kinds (token :: rest) ↔ token.kind ∉ kinds := by
  simp [Clear]

theorem Clear.mono {fewer : List Kind} (clear : Clear kinds rest) (subset : fewer ⊆ kinds) :
    Clear fewer rest :=
  fun token same member => clear token same (subset member)

theorem clear_of_leading {start : Kind → Bool} (led : ts ∈ leading start)
    (apart : ∀ kind ∈ kinds, start kind = false) : Clear kinds (ts ++ rest) := by
  obtain ⟨token, others, rfl, allowed⟩ := led
  rw [List.cons_append, clear_cons]
  intro member
  rw [apart _ member] at allowed
  cases allowed

/-- What is derived from a rule starts with none of the kinds the rule does not start with. -/
theorem clear_of_derived {rule : Rule} (inside : ts ∈ derived rule)
    (apart : ∀ kind ∈ kinds, starts rule kind = false) : Clear kinds (ts ++ rest) :=
  clear_of_leading (grammar_leading rule inside) apart

/-! ### Tokens -/

theorem acceptAny_hit (member : token.kind ∈ kinds) :
    acceptAny? kinds ⟨token :: rest, endLine, first, faults⟩ =
      (.ok (some token), ⟨rest, endLine, first, faults⟩) := by
  simp [acceptAny?, member]

theorem acceptAny_miss (clear : Clear kinds rest) :
    acceptAny? kinds ⟨rest, endLine, first, faults⟩ =
      (.ok none, ⟨rest, endLine, first, faults⟩) := by
  cases rest with
  | nil => rfl
  | cons token others => simp [acceptAny?, clear_cons.mp clear]

theorem accept_hit {kind : Kind} (same : token.kind = kind) :
    accept kind ⟨token :: rest, endLine, first, faults⟩ =
      (.ok true, ⟨rest, endLine, first, faults⟩) := by
  simp [accept, acceptAny_hit (List.mem_singleton.mpr same)]

theorem accept_miss {kind : Kind} (clear : Clear [kind] rest) :
    accept kind ⟨rest, endLine, first, faults⟩ =
      (.ok false, ⟨rest, endLine, first, faults⟩) := by
  simp [accept, acceptAny_miss clear]

theorem expect_hit {sign : Symbol} (place : String) (same : token.kind = .symbol sign) :
    expect sign place ⟨token :: rest, endLine, first, faults⟩ =
      (.ok token, ⟨rest, endLine, first, faults⟩) := by
  simp [expect, acceptAny_hit (List.mem_singleton.mpr same)]

theorem expectName_hit (phrase : String) (same : token.kind = .identifier) :
    expectName phrase ⟨token :: rest, endLine, first, faults⟩ =
      (.ok token, ⟨rest, endLine, first, faults⟩) := by
  simp [expectName, acceptAny_hit (List.mem_singleton.mpr same)]

theorem sees_hit {kind : Kind} (same : token.kind = kind) :
    sees kind ⟨token :: rest, endLine, first, faults⟩ =
      (.ok true, ⟨token :: rest, endLine, first, faults⟩) := by
  simp [sees, same]

theorem sees_miss {kind : Kind} (clear : Clear [kind] rest) :
    sees kind ⟨rest, endLine, first, faults⟩ =
      (.ok false, ⟨rest, endLine, first, faults⟩) := by
  cases rest with
  | nil => rfl
  | cons token others =>
    have apart : token.kind ≠ kind := by simpa using clear
    simp [sees, apart]

theorem primary_hit {whole reader : Parser Expr} (found : primaryOf? whole token = some reader) :
    primary whole ⟨token :: rest, endLine, first, faults⟩ =
      reader ⟨rest, endLine, first, faults⟩ := by
  simp [primary, peek?, skip, found]

/-! ### Expressions -/

/-- What would be read as a part of an expression. -/
def callBlocked : List Kind := [.symbol .leftParen, .symbol .dot]

def factorBlocked : List Kind := [.symbol .star, .symbol .slash] ++ callBlocked

def termBlocked : List Kind := [.symbol .minus, .symbol .plus] ++ factorBlocked

def comparisonBlocked : List Kind :=
  [.symbol .greater, .symbol .greaterEqual, .symbol .less, .symbol .lessEqual] ++ termBlocked

def equalityBlocked : List Kind := [.symbol .bangEqual, .symbol .equalEqual] ++ comparisonBlocked

def conjunctionBlocked : List Kind := [.keyword .and] ++ equalityBlocked

def disjunctionBlocked : List Kind := [.keyword .or] ++ conjunctionBlocked

def expressionBlocked : List Kind := [.symbol .equal] ++ disjunctionBlocked

/-- Shorter expressions are read. -/
def Below (size : Nat) : Prop :=
  ∀ ts ∈ derived .expression, ts.length < size →
    Readable (fun bound => expression (bound + 1)) expressionBlocked ts

theorem literal_readable {literal : Literal} (found : literal? token.kind = some literal) :
    Readable (fun bound => primary (expression bound)) [] [token] := by
  refine fun first => ⟨.literal literal, first, fun bound _ rest endLine faults _ => ?_⟩
  have reader (whole : Parser Expr) :
      primaryOf? whole token = some (pure (.literal literal)) := by
    unfold primaryOf?
    split <;> simp_all [literal?]
  exact primary_hit (reader (expression bound))

theorem keyword_literal {word : Keyword} {literal : Literal}
    (known : literal? (.keyword word) = some literal) (inside : ts ∈ keyword word) :
    Readable (fun bound => primary (expression bound)) [] ts := by
  obtain ⟨token, member, rfl⟩ := inside
  rw [← List.mem_singleton.mp member] at known
  exact literal_readable known

theorem grouping_readable (below : Below ts.length)
    (inside : ts ∈ symbol .leftParen * derived .expression * symbol .rightParen) :
    Readable (fun bound => primary (expression bound)) [] ts := by
  obtain ⟨_, ⟨_, ⟨left, opened, rfl⟩, te, inner, rfl⟩, _, ⟨right, closed, rfl⟩, rfl⟩ := inside
  have opened : left.kind = .symbol .leftParen := List.mem_singleton.mp opened
  have closed : right.kind = .symbol .rightParen := List.mem_singleton.mp closed
  intro first
  simp only [List.length_append, List.length_cons, List.length_nil] at below
  obtain ⟨value, next, read⟩ := below te inner (by omega) first
  refine ⟨.grouping value, next, fun bound enough rest endLine faults _ => ?_⟩
  simp only [List.length_append, List.length_cons, List.length_nil] at enough
  obtain ⟨bound, rfl⟩ : ∃ lower, bound = lower + 1 := ⟨bound - 1, by omega⟩
  have reader (whole : Parser Expr) : primaryOf? whole left = some (groupingExpr whole) := by
    simp [primaryOf?, opened]
  have inner := read bound (by omega) (right :: rest) endLine faults
    (by simp [closed, expressionBlocked, disjunctionBlocked, conjunctionBlocked, equalityBlocked,
      comparisonBlocked, termBlocked, factorBlocked, callBlocked])
  simp [primary_hit (reader _), groupingExpr, inner, expect_hit _ closed]

theorem Below.mono {size other : Nat} (below : Below size) (smaller : other ≤ size) : Below other :=
  fun ts inside short => below ts inside (Nat.lt_of_lt_of_le short smaller)

theorem primary_readable (below : Below ts.length) (inside : ts ∈ derived .primary) :
    Readable (fun bound => primary (expression bound)) [] ts := by
  rw [derived_eq] at inside
  simp only [production, Language.mem_add] at inside
  rcases inside with (((((((number | text) | yes) | no) | nil) | this) | name) | grouping) | super
  · obtain ⟨token, value, kind, rfl⟩ := number
    exact literal_readable (congrArg literal? kind)
  · obtain ⟨token, value, kind, rfl⟩ := text
    exact literal_readable (congrArg literal? kind)
  · exact keyword_literal rfl yes
  · exact keyword_literal rfl no
  · exact keyword_literal rfl nil
  · obtain ⟨token, kind, rfl⟩ := this
    refine fun first => ⟨.this ⟨first, token⟩, first + 1, fun bound _ rest endLine faults _ => ?_⟩
    have reader : primaryOf? (expression bound) token = some (Expr.this <$> reference token) := by
      simp [primaryOf?, List.mem_singleton.mp kind]
    exact primary_hit reader
  · obtain ⟨token, kind, rfl⟩ := name
    refine fun first => ⟨.variable ⟨first, token⟩, first + 1, fun bound _ rest endLine faults _ => ?_⟩
    have reader : primaryOf? (expression bound) token = some (Expr.variable <$> reference token) := by
      simp [primaryOf?, List.mem_singleton.mp kind]
    exact primary_hit reader
  · exact grouping_readable below grouping
  · obtain ⟨_, ⟨_, ⟨token, kind, rfl⟩, _, ⟨dot, between, rfl⟩, rfl⟩, _, ⟨name, named, rfl⟩, rfl⟩ := super
    refine fun first => ⟨.super ⟨first, token⟩ name, first + 1,
      fun bound _ rest endLine faults _ => ?_⟩
    have reader : primaryOf? (expression bound) token = some (superExpr token) := by
      simp [primaryOf?, List.mem_singleton.mp kind]
    have dotted : dot.kind = .symbol .dot := List.mem_singleton.mp between
    have named : name.kind = .identifier := List.mem_singleton.mp named
    simp [primary_hit reader, superExpr, expect_hit _ dotted, expectName_hit _ named, reference]

/-! ### Lists and operators -/

theorem checkLimit_pass (items : String) {count : Nat} (room : count < maxArguments)
    (progress : Progress) : checkLimit items count progress = (.ok (), progress) :=
  if_neg (Nat.not_le.mpr room)

theorem separated_readable (items : String) {item : Nat → Parser α} {L : Language Token}
    {size : Nat} (reads : ∀ te ∈ L, te.length ≤ size → Readable item blocked te)
    (comma : .symbol .comma ∉ blocked) :
    ∀ more count ts, count + more < maxArguments → ts ∈ L * (symbol .comma * L) ^ more →
      ts.length ≤ size → ∀ first, ∃ values next, ∀ bound inner, ts.length ≤ bound →
      ts.length ≤ inner →
      Takes (separated items (item bound) inner count) (.symbol .comma :: blocked) ts first values
        next
  | 0, count, ts, room, inside, short, first => by
    rw [pow_zero, mul_one] at inside
    obtain ⟨value, next, read⟩ := reads ts inside short first
    refine ⟨[value], next, fun bound inner enough _ rest endLine faults clear => ?_⟩
    have one := read bound enough rest endLine faults (clear.mono (List.subset_cons_self _ _))
    have stop : Clear [.symbol .comma] rest := clear.mono (by simp)
    cases inner with
    | zero => simp [separated, checkLimit_pass items (by omega : count < _), one]
    | succ inner =>
      simp [separated, checkLimit_pass items (by omega : count < _), one, accept_miss stop]
  | more + 1, count, ts, room, inside, short, first => by
    rw [pow_succ', mul_assoc] at inside
    obtain ⟨te, head, _, ⟨_, ⟨token, between, rfl⟩, others, tail, rfl⟩, rfl⟩ := inside
    have between : token.kind = .symbol .comma := List.mem_singleton.mp between
    simp only [List.length_append, List.length_cons, List.length_nil] at short
    obtain ⟨value, middle, read⟩ := reads te head (by omega) first
    obtain ⟨values, next, further⟩ := separated_readable items reads comma more (count + 1) others
      (by omega) tail (by omega) middle
    refine ⟨value :: values, next, fun bound inner enough deep rest endLine faults clear => ?_⟩
    simp only [List.length_append, List.length_cons, List.length_nil] at enough deep
    obtain ⟨inner, rfl⟩ : ∃ lower, inner = lower + 1 := ⟨inner - 1, by omega⟩
    have one := read bound (by omega) (token :: (others ++ rest)) endLine faults
      (clear_cons.mpr (by rwa [between]))
    have last := further bound inner (by omega) (by omega) rest endLine faults clear
    simp [separated, checkLimit_pass items (by omega : count < _), one, accept_hit between, last]

theorem listed_readable (items : String) {item : Nat → Parser α} {L : Language Token}
    {size : Nat} (reads : ∀ te ∈ L, te.length ≤ size → Readable item blocked te)
    (comma : .symbol .comma ∉ blocked) (closing : .symbol .rightParen ∉ blocked)
    {start : Kind → Bool} (led : L ≤ leading start) (apart : start (.symbol .rightParen) = false)
    (inside : ts ∈ optional (listOf (fun length => length ≤ maxArguments) L))
    (short : ts.length ≤ size) (first : Nat) :
    ∃ values next, ∀ bound inner, ts.length ≤ bound → ts.length ≤ inner →
      ∀ right rest endLine faults, right.kind = .symbol .rightParen →
        listed inner items (item bound) ⟨ts ++ right :: rest, endLine, first, faults⟩ =
          (.ok values, ⟨right :: rest, endLine, next, faults⟩) := by
  rcases inside with ⟨more, fit, inside⟩ | rfl
  · obtain ⟨values, next, read⟩ :=
      separated_readable items reads comma more 0 ts (by omega) inside short first
    refine ⟨values, next, fun bound inner enough deep right rest endLine faults kind => ?_⟩
    obtain ⟨token, others, rfl, opening⟩ := mul_leading led inside
    have miss : Clear [.symbol .rightParen] (token :: others ++ right :: rest) := by
      rw [List.cons_append, clear_cons, List.mem_singleton]
      intro same
      rw [same, apart] at opening
      cases opening
    have all := read bound inner enough deep (right :: rest) endLine faults
      (clear_cons.mpr (by simp [kind, closing]))
    simp only [listed, bind_apply, sees_miss miss, Bool.false_eq_true, if_false, all]
  · exact ⟨[], first, fun bound inner _ _ right rest endLine faults kind => by
      simp [listed, sees_hit kind]⟩

theorem arguments_readable {size : Nat} (below : Below size)
    (inside : ts ∈ symbol .leftParen * optional (derived .arguments) * symbol .rightParen)
    (short : ts.length ≤ size) (expr : Expr) (first : Nat) :
    ∃ value next, ∀ bound inner, ts.length ≤ bound → ts.length ≤ inner + 1 →
      ∀ rest endLine faults,
        postfixes (expression bound) (inner + 1) expr ⟨ts ++ rest, endLine, first, faults⟩ =
          postfixes (expression bound) inner value ⟨rest, endLine, next, faults⟩ := by
  obtain ⟨_, ⟨_, ⟨left, opened, rfl⟩, args, given, rfl⟩, _, ⟨right, closed, rfl⟩, rfl⟩ := inside
  have opened : left.kind = .symbol .leftParen := List.mem_singleton.mp opened
  have closed : right.kind = .symbol .rightParen := List.mem_singleton.mp closed
  rw [derived_eq] at given
  simp only [List.length_append, List.length_cons, List.length_nil] at short
  obtain ⟨values, next, read⟩ := listed_readable "arguments"
    (fun te member small => below te member (by omega : te.length < size))
    (by decide) (by decide) (grammar_leading .expression) rfl given (le_refl args.length) first
  refine ⟨.call expr right values, next, fun bound inner enough deep rest endLine faults => ?_⟩
  simp only [List.length_append, List.length_cons, List.length_nil] at enough deep
  obtain ⟨bound, rfl⟩ : ∃ lower, bound = lower + 1 := ⟨bound - 1, by omega⟩
  have all := read bound inner (by omega) (by omega) right rest endLine faults closed
  simp [postfixes, accept_hit opened, all, expect_hit _ closed]

theorem property_readable {whole : Parser Expr} {dot name : Token} (dotted : dot.kind = .symbol .dot)
    (named : name.kind = .identifier) (expr : Expr) (inner : Nat) :
    postfixes whole (inner + 1) expr ⟨dot :: name :: rest, endLine, first, faults⟩ =
      postfixes whole inner (.get expr name) ⟨rest, endLine, first, faults⟩ := by
  have miss : Clear [.symbol .leftParen] (dot :: name :: rest) := by simp [dotted]
  simp [postfixes, accept_miss miss, accept_hit dotted, expectName_hit _ named]

theorem suffix_readable {size : Nat} (below : Below size) (inside : ts ∈ suffix)
    (short : ts.length ≤ size) (expr : Expr) (first : Nat) :
    ∃ value next, ∀ bound inner, ts.length ≤ bound → ts.length ≤ inner + 1 →
      ∀ rest endLine faults,
        postfixes (expression bound) (inner + 1) expr ⟨ts ++ rest, endLine, first, faults⟩ =
          postfixes (expression bound) inner value ⟨rest, endLine, next, faults⟩ := by
  rcases inside with called | ⟨_, ⟨dot, dotted, rfl⟩, _, ⟨name, named, rfl⟩, rfl⟩
  · exact arguments_readable below called short expr first
  · exact ⟨.get expr name, first, fun _ inner _ _ _ _ _ =>
      property_readable (List.mem_singleton.mp dotted) (List.mem_singleton.mp named) expr inner⟩

theorem suffix_nonempty (inside : ts ∈ suffix) : 0 < ts.length := by
  rcases inside with ⟨_, ⟨_, ⟨left, _, rfl⟩, args, _, rfl⟩, _, _, rfl⟩ |
    ⟨_, ⟨dot, _, rfl⟩, _, _, rfl⟩ <;> simp

theorem suffixes_readable {size : Nat} (below : Below size) :
    ∀ parts : List (List Token), (∀ part ∈ parts, part ∈ suffix) → parts.flatten.length ≤ size →
      ∀ expr first, ∃ value next, ∀ bound inner, parts.flatten.length ≤ bound →
        parts.flatten.length ≤ inner → ∀ rest endLine faults,
          parts.length ≤ inner ∧
          postfixes (expression bound) inner expr ⟨parts.flatten ++ rest, endLine, first, faults⟩ =
            postfixes (expression bound) (inner - parts.length) value
              ⟨rest, endLine, next, faults⟩
  | [], _, _, expr, first => ⟨expr, first, fun _ _ _ _ _ _ _ => ⟨Nat.zero_le _, rfl⟩⟩
  | part :: parts, each, short, expr, first => by
    simp only [List.flatten_cons, List.length_append] at short
    have inside := each part List.mem_cons_self
    obtain ⟨value, middle, read⟩ := suffix_readable below inside (by omega) expr first
    obtain ⟨last, next, further⟩ := suffixes_readable below parts
      (fun part member => each part (List.mem_cons_of_mem _ member)) (by omega) value middle
    refine ⟨last, next, fun bound inner enough deep rest endLine faults => ?_⟩
    simp only [List.flatten_cons, List.length_append] at enough deep
    have nonempty := suffix_nonempty inside
    obtain ⟨inner, rfl⟩ : ∃ lower, inner = lower + 1 := ⟨inner - 1, by omega⟩
    obtain ⟨room, same⟩ := further bound inner (by omega) (by omega) rest endLine faults
    refine ⟨Nat.succ_le_succ room, ?_⟩
    rw [List.flatten_cons, List.append_assoc, read bound inner (by omega) (by omega), same]
    simp

theorem postfixes_end {whole : Parser Expr} (clear : Clear callBlocked rest) (inner : Nat)
    (expr : Expr) : postfixes whole inner expr ⟨rest, endLine, first, faults⟩ =
      (.ok expr, ⟨rest, endLine, first, faults⟩) := by
  cases inner with
  | zero => rfl
  | succ inner =>
    have paren : Clear [.symbol .leftParen] rest := clear.mono (by simp [callBlocked])
    have dot : Clear [.symbol .dot] rest := clear.mono (by simp [callBlocked])
    simp [postfixes, accept_miss paren, accept_miss dot]

/-- What begins with a call is read that far. -/
theorem call_begins {head : List Token} {parts : List (List Token)} {size : Nat}
    (below : Below size) (inside : head ∈ derived .primary) (each : ∀ part ∈ parts, part ∈ suffix)
    (short : (head ++ parts.flatten).length ≤ size) (first : Nat) :
    ∃ value next, ∀ bound, (head ++ parts.flatten).length ≤ bound → ∀ rest endLine faults,
      parts.length ≤ bound ∧
      call (bound + 1) (expression bound)
          ⟨head ++ (parts.flatten ++ rest), endLine, first, faults⟩ =
        postfixes (expression bound) (bound + 1 - parts.length) value
          ⟨rest, endLine, next, faults⟩ := by
  rw [List.length_append] at short
  obtain ⟨expr, middle, read⟩ := primary_readable (below.mono (by omega)) inside first
  obtain ⟨value, next, further⟩ := suffixes_readable below parts each (by omega) expr middle
  refine ⟨value, next, fun bound enough rest endLine faults => ?_⟩
  rw [List.length_append] at enough
  have one := read bound (by omega) (parts.flatten ++ rest) endLine faults (by simp [Clear])
  obtain ⟨room, _⟩ := further bound bound (by omega) (by omega) rest endLine faults
  obtain ⟨_, all⟩ := further bound (bound + 1) (by omega) (by omega) rest endLine faults
  exact ⟨room, by simp only [call, bind_apply, one, all]⟩

theorem call_readable (below : Below ts.length) (inside : ts ∈ derived .call) :
    Readable (fun bound => call (bound + 1) (expression bound)) callBlocked ts := by
  rw [call_eq] at inside
  obtain ⟨head, primary, _, ⟨parts, rfl, each⟩, rfl⟩ := inside
  intro first
  obtain ⟨value, next, read⟩ := call_begins below primary each le_rfl first
  refine ⟨value, next, fun bound enough rest endLine faults clear => ?_⟩
  obtain ⟨_, same⟩ := read bound enough rest endLine faults
  rw [postfixes_end clear, ← List.append_assoc] at same
  exact same

/-- A target is read as one. -/
theorem property_target (below : Below ts.length)
    (inside : ts ∈ derived .call * symbol .dot * identifier) (first : Nat) :
    ∃ object name next, ∀ bound, ts.length ≤ bound →
      Takes (call (bound + 1) (expression bound)) callBlocked ts first (.get object name) next := by
  rw [call_eq] at inside
  obtain ⟨_, ⟨_, ⟨head, primary, _, ⟨parts, rfl, each⟩, rfl⟩, _, ⟨dot, dotted, rfl⟩, rfl⟩, _,
    ⟨name, named, rfl⟩, rfl⟩ := inside
  have dotted : dot.kind = .symbol .dot := List.mem_singleton.mp dotted
  have named : name.kind = .identifier := List.mem_singleton.mp named
  simp only [List.length_append, List.length_cons, List.length_nil] at below
  obtain ⟨object, next, read⟩ := call_begins below primary each
    (by rw [List.length_append]; omega) first
  refine ⟨object, name, next, fun bound enough rest endLine faults clear => ?_⟩
  simp only [List.length_append, List.length_cons, List.length_nil] at enough
  obtain ⟨room, same⟩ := read bound (by rw [List.length_append]; omega) (dot :: name :: rest)
    endLine faults
  obtain ⟨left, more⟩ : ∃ lower, bound + 1 - parts.length = lower + 1 :=
    ⟨bound - parts.length, by omega⟩
  rw [more, property_readable dotted named, postfixes_end clear] at same
  simpa using same

theorem name_target (inside : ts ∈ identifier) (first : Nat) :
    ∃ name, ∀ bound, Takes (call (bound + 1) (expression bound)) callBlocked ts first
      (.variable ⟨first, name⟩) (first + 1) := by
  obtain ⟨token, kind, rfl⟩ := inside
  refine ⟨token, fun bound rest endLine faults clear => ?_⟩
  have reader : primaryOf? (expression bound) token = some (Expr.variable <$> reference token) := by
    simp [primaryOf?, List.mem_singleton.mp kind]
  simp [call, primary_hit reader, reference, postfixes_end clear]

/-! Operators. -/

theorem leftAssoc_single {operand : Parser Expr} {build : Expr → Token → Expr → Expr} {value : Expr}
    (reads : Takes operand blocked ts first value next) (bound : Nat) :
    Takes (leftAssoc bound kinds build operand) (kinds ++ blocked) ts first value next := by
  intro rest endLine faults clear
  have one := reads rest endLine faults (clear.mono (List.subset_append_right _ _))
  have miss : Clear kinds rest := clear.mono (List.subset_append_left _ _)
  cases bound with
  | zero => simp [leftAssoc, chain, one]
  | succ bound => simp [leftAssoc, chain, one, acceptAny_miss miss]

/-- An operand ends where the next operator or what follows starts. -/
theorem clear_operators {L : Language Token} {parts : List (List Token)}
    (apart : ∀ kind ∈ kinds, kind ∉ blocked) (each : ∀ part ∈ parts, part ∈ oneOf kinds * L)
    (clear : Clear (kinds ++ blocked) rest) : Clear blocked (parts.flatten ++ rest) := by
  cases parts with
  | nil => exact clear.mono (List.subset_append_right _ _)
  | cons part others =>
    obtain ⟨_, ⟨operator, member, rfl⟩, te, _, rfl⟩ := each part List.mem_cons_self
    exact clear_cons.mpr (apart _ member)

theorem chain_readable (build : Expr → Token → Expr → Expr) {L : Language Token}
    {operand : Nat → Parser Expr} {size : Nat}
    (reads : ∀ te ∈ L, te.length ≤ size → Readable operand blocked te)
    (apart : ∀ kind ∈ kinds, kind ∉ blocked) :
    ∀ parts : List (List Token), (∀ part ∈ parts, part ∈ oneOf kinds * L) →
      parts.flatten.length ≤ size → ∀ left first, ∃ value next, ∀ bound inner,
        parts.flatten.length ≤ bound → parts.flatten.length ≤ inner →
        ∀ rest endLine faults, Clear (kinds ++ blocked) rest →
          chain kinds build (operand bound) inner left
              ⟨parts.flatten ++ rest, endLine, first, faults⟩ =
            (.ok value, ⟨rest, endLine, next, faults⟩)
  | [], _, _, left, first => by
    refine ⟨left, first, fun bound inner _ _ rest endLine faults clear => ?_⟩
    have miss : Clear kinds rest := clear.mono (List.subset_append_left _ _)
    cases inner with
    | zero => rfl
    | succ inner => simp [chain, acceptAny_miss miss]
  | part :: parts, each, short, left, first => by
    obtain ⟨_, ⟨operator, member, rfl⟩, te, inside, rfl⟩ := each part List.mem_cons_self
    simp only [List.flatten_cons, List.length_append, List.length_cons, List.length_nil] at short
    obtain ⟨right, middle, read⟩ := reads te inside (by omega) first
    obtain ⟨value, next, further⟩ := chain_readable build reads apart parts
      (fun part member => each part (List.mem_cons_of_mem _ member)) (by omega)
      (build left operator right) middle
    refine ⟨value, next, fun bound inner enough deep rest endLine faults clear => ?_⟩
    simp only [List.flatten_cons, List.length_append, List.length_cons, List.length_nil]
      at enough deep
    obtain ⟨inner, rfl⟩ : ∃ lower, inner = lower + 1 := ⟨inner - 1, by omega⟩
    have stop := clear_operators apart (fun part member => each part (List.mem_cons_of_mem _ member))
      clear
    have one := read bound (by omega) (parts.flatten ++ rest) endLine faults stop
    have all := further bound inner (by omega) (by omega) rest endLine faults clear
    simp [chain, acceptAny_hit member, one, all]

theorem operation_readable {L : Language Token} {operand : Nat → Parser Expr}
    {build : Expr → Token → Expr → Expr} {size : Nat}
    (reads : ∀ te ∈ L, te.length ≤ size → Readable operand blocked te)
    (apart : ∀ kind ∈ kinds, kind ∉ blocked) :
    ∀ ts ∈ operation L kinds, ts.length ≤ size →
      Readable (fun bound => leftAssoc (bound + 1) kinds build (operand bound)) (kinds ++ blocked)
        ts := by
  rintro _ ⟨te, inside, _, ⟨parts, rfl, each⟩, rfl⟩ short first
  have short : te.length + parts.flatten.length ≤ size := by simpa using short
  obtain ⟨left, middle, read⟩ := reads te inside (by omega) first
  obtain ⟨value, next, further⟩ := chain_readable build reads apart parts each (by omega)
    left middle
  refine ⟨value, next, fun bound enough rest endLine faults clear => ?_⟩
  have enough : te.length + parts.flatten.length ≤ bound := by simpa using enough
  have one := read bound (by omega) (parts.flatten ++ rest) endLine faults
    (clear_operators apart each clear)
  have all := further bound (bound + 1) (by omega) (by omega) rest endLine faults clear
  simp only [leftAssoc, bind_apply, List.append_assoc, one, all]

theorem signs_none (clear : Clear [.symbol .bang, .symbol .minus] rest) (bound : Nat) :
    signs bound ⟨rest, endLine, first, faults⟩ = (.ok [], ⟨rest, endLine, first, faults⟩) := by
  cases bound with
  | zero => rfl
  | succ bound => simp [signs, acceptAny_miss clear]

theorem signs_read {operators : List Token}
    (each : ∀ operator ∈ operators, operator.kind ∈ [.symbol .bang, .symbol .minus])
    (clear : Clear [.symbol .bang, .symbol .minus] rest) :
    ∀ bound, operators.length ≤ bound →
      signs bound ⟨operators ++ rest, endLine, first, faults⟩ =
        (.ok operators, ⟨rest, endLine, first, faults⟩) := by
  induction operators with
  | nil => exact fun bound _ => signs_none clear bound
  | cons operator others ih =>
    intro bound enough
    rw [List.length_cons] at enough
    obtain ⟨bound, rfl⟩ : ∃ lower, bound = lower + 1 := ⟨bound - 1, by omega⟩
    have member := each operator List.mem_cons_self
    have all := ih (fun operator member => each operator (List.mem_cons_of_mem _ member)) bound
      (by simpa using enough)
    simp [signs, acceptAny_hit member, all]

/-- All operators stand before the operand. -/
theorem unary_signs : derived .unary = sign∗ * derived .call := by
  have nonempty : [] ∉ sign := by
    rintro ⟨token, _, same⟩
    cases same
  exact (Language.self_eq_mul_add_iff nonempty).mp unary_eq

theorem mem_kstar_oneOf (inside : ts ∈ (oneOf kinds)∗) : ∀ token ∈ ts, token.kind ∈ kinds := by
  obtain ⟨parts, rfl, each⟩ := inside
  intro token member
  obtain ⟨part, among, inner⟩ := List.mem_flatten.mp member
  obtain ⟨only, kind, rfl⟩ := each part among
  rwa [List.mem_singleton.mp inner]

theorem unary_readable {size : Nat} (below : Below size) :
    ∀ ts ∈ derived .unary, ts.length ≤ size →
      Readable (fun bound => unary (bound + 1) (expression bound)) callBlocked ts := by
  intro ts inside short first
  rw [unary_signs] at inside
  obtain ⟨operators, many, te, inner, rfl⟩ := inside
  have short : operators.length + te.length ≤ size := by simpa using short
  obtain ⟨value, next, read⟩ := call_readable (below.mono (by omega)) inner first
  refine ⟨operators.foldr Expr.unary value, next, fun bound enough rest endLine faults clear => ?_⟩
  have enough : operators.length + te.length ≤ bound := by simpa using enough
  have stop : Clear [.symbol .bang, .symbol .minus] (te ++ rest) :=
    clear_of_derived inner (by simp [starts, startsPrimary])
  have one := read bound (by omega) rest endLine faults clear
  simp [unary, signs_read (mem_kstar_oneOf many) stop (bound + 1) (by omega), one]

theorem disjunction_readable {size : Nat} (below : Below size) :
    ∀ ts ∈ derived .logicOr, ts.length ≤ size →
      Readable (fun bound => disjunction (bound + 1) (expression bound)) disjunctionBlocked ts := by
  have factor : ∀ ts ∈ derived .factor, ts.length ≤ size →
      Readable (fun bound => factor (bound + 1) (expression bound)) factorBlocked ts := by
    rw [derived_eq]
    exact operation_readable (unary_readable below) (by decide)
  have term : ∀ ts ∈ derived .term, ts.length ≤ size →
      Readable (fun bound => term (bound + 1) (expression bound)) termBlocked ts := by
    rw [derived_eq]
    exact operation_readable factor (by decide)
  have comparison : ∀ ts ∈ derived .comparison, ts.length ≤ size →
      Readable (fun bound => comparison (bound + 1) (expression bound)) comparisonBlocked ts := by
    rw [derived_eq]
    exact operation_readable term (by decide)
  have equality : ∀ ts ∈ derived .equality, ts.length ≤ size →
      Readable (fun bound => equality (bound + 1) (expression bound)) equalityBlocked ts := by
    rw [derived_eq]
    exact operation_readable comparison (by decide)
  have conjunction : ∀ ts ∈ derived .logicAnd, ts.length ≤ size →
      Readable (fun bound => conjunction (bound + 1) (expression bound)) conjunctionBlocked ts := by
    rw [derived_eq]
    exact operation_readable equality (by decide)
  rw [derived_eq]
  exact operation_readable conjunction (by decide)

/-- A call with no operator around it is read as it stands. -/
theorem disjunction_single {whole : Parser Expr} {bound : Nat} {value : Expr}
    (reads : Takes (call (bound + 1) whole) callBlocked ts first value next)
    (unsigned : ∀ rest, Clear [.symbol .bang, .symbol .minus] (ts ++ rest)) :
    Takes (disjunction (bound + 1) whole) disjunctionBlocked ts first value next := by
  have single : Takes (unary (bound + 1) whole) callBlocked ts first value next := by
    intro rest endLine faults clear
    simp [unary, signs_none (unsigned rest), reads rest endLine faults clear]
  have factor : Takes (factor (bound + 1) whole) factorBlocked ts first value next :=
    leftAssoc_single single _
  have term : Takes (term (bound + 1) whole) termBlocked ts first value next :=
    leftAssoc_single factor _
  have comparison : Takes (comparison (bound + 1) whole) comparisonBlocked ts first value next :=
    leftAssoc_single term _
  have equality : Takes (equality (bound + 1) whole) equalityBlocked ts first value next :=
    leftAssoc_single comparison _
  have conjunction : Takes (conjunction (bound + 1) whole) conjunctionBlocked ts first value next :=
    leftAssoc_single equality _
  exact leftAssoc_single conjunction _

/-- What is read where the grammar has a target can be assigned to. -/
theorem target_readable {size : Nat} (below : Below size) (short : ts.length ≤ size)
    (inside : ts ∈ optional (derived .call * symbol .dot) * identifier) (first : Nat) :
    ∃ value next, ¬Targetless value ∧ ∀ bound, ts.length ≤ bound →
      Takes (disjunction (bound + 1) (expression bound)) disjunctionBlocked ts first value next := by
  have start : ts ∈ leading startsPrimary := by
    refine optional_mul_leading (mul_leading (grammar_leading .call)) ?_ inside
    exact oneOf_leading (by simp [starts, startsPrimary])
  have unsigned (rest : List Token) : Clear [.symbol .bang, .symbol .minus] (ts ++ rest) :=
    clear_of_leading start (by simp [startsPrimary])
  obtain ⟨before, owner | rfl, last, named, rfl⟩ := inside
  · have all : before ++ last ∈ derived .call * symbol .dot * identifier :=
      Language.append_mem_mul owner named
    obtain ⟨object, name, next, read⟩ := property_target (below.mono short) all first
    exact ⟨.get object name, next, id, fun bound enough =>
      disjunction_single (read bound enough) unsigned⟩
  · obtain ⟨name, read⟩ := name_target named first
    exact ⟨.variable ⟨first, name⟩, first + 1, id, fun bound _ =>
      disjunction_single (read bound) unsigned⟩

theorem assignTo_read {found : Expr} (assignable : ¬Targetless found) (equals : Token) (value : Expr)
    (later : Nat) : ∃ result next, ∀ rest endLine faults,
      assignTo found equals value ⟨rest, endLine, later, faults⟩ =
        (.ok result, ⟨rest, endLine, next, faults⟩) := by
  cases found with
  | «variable» use => exact ⟨.assign ⟨later, use.name⟩ value, later + 1, fun _ _ _ => rfl⟩
  | get object name => exact ⟨.set object name value, later, fun _ _ _ => rfl⟩
  | _ => exact absurd trivial assignable

theorem expression_step (below : Below ts.length) (inside : ts ∈ derived .expression) :
    Readable (fun bound => expression (bound + 1)) expressionBlocked ts := by
  intro first
  rw [expression_eq] at inside
  rcases inside with ⟨_, ⟨tt, found, _, ⟨equals, sign, rfl⟩, rfl⟩, te, assigned, rfl⟩ | bare
  · have sign : equals.kind = .symbol .equal := List.mem_singleton.mp sign
    simp only [List.length_append, List.length_cons, List.length_nil] at below
    obtain ⟨place, middle, assignable, read⟩ := target_readable below (by omega) found first
    obtain ⟨value, later, further⟩ := below te assigned (by omega) middle
    obtain ⟨result, next, last⟩ := assignTo_read assignable equals value later
    refine ⟨result, next, fun bound enough rest endLine faults clear => ?_⟩
    simp only [List.length_append, List.length_cons, List.length_nil] at enough
    obtain ⟨bound, rfl⟩ : ∃ lower, bound = lower + 1 := ⟨bound - 1, by omega⟩
    have one := read (bound + 1) (by omega) (equals :: (te ++ rest)) endLine faults
      (clear_cons.mpr (by rw [sign]; decide))
    have two := further bound (by omega) rest endLine faults clear
    have hit := List.mem_singleton.mpr sign
    change assignment (bound + 1 + 1) (expression (bound + 1)) _ = _
    simp [assignment, one, acceptAny_hit hit, two, last]
  · obtain ⟨value, next, read⟩ := disjunction_readable below ts bare le_rfl first
    refine ⟨value, next, fun bound enough rest endLine faults clear => ?_⟩
    have one := read bound enough rest endLine faults (clear.mono (List.subset_append_right _ _))
    have miss : Clear [.symbol .equal] rest := clear.mono (List.subset_append_left _ _)
    change assignment (bound + 1) (expression bound) _ = _
    simp [assignment, one, acceptAny_miss miss]

theorem below_all : ∀ size, Below size
  | 0 => fun _ _ short => absurd short (Nat.not_lt_zero _)
  | size + 1 => fun _ inside short =>
    expression_step ((below_all size).mono (Nat.le_of_lt_succ short)) inside

theorem expression_readable (inside : ts ∈ derived .expression) :
    Readable (fun bound => expression (bound + 1)) expressionBlocked ts :=
  expression_step (below_all _) inside

end Lox.Tree.Parser
