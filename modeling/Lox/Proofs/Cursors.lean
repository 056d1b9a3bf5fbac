import Mathlib
import Lox.Tree.Statement

/-! A parser that keeps its place among the tokens as an index. What bounds its loops and its
recursion is nothing but fuel. Fuel that does not last and a place outside of the tokens are
outcomes of their own. -/

namespace Lox.Tree

structure Cursor where
  tokens : List Token
  /-- The place of the next token. -/
  current : Nat
  nextId : Nat
  faults : List Fault
  /-- Every place there has been, the last one first. -/
  trail : List Nat

/-- A look at a place where there is no token. -/
inductive Stray
  | outOfRange

/-- What may be out of fuel, may stop for good at a place outside of the tokens, and may give up
with a fault. -/
abbrev Reader := ExceptT Fault (StateT Cursor (ExceptT Stray Option))

namespace Cursor

/-- More fuel was needed. -/
def exhausted {α : Type} : Reader α := fun _ => none

/-! ### Tokens -/

def tokenAt (place : Nat) : Reader Token := fun cursor =>
  match cursor.tokens[place]? with
  | some token => some (.ok (.ok token, cursor))
  | none => some (.error .outOfRange)

def peek : Reader Token := do tokenAt (← get).current

def previous : Reader Token := do tokenAt ((← get).current - 1)

def isAtEnd : Reader Bool := do return (← peek).kind = .eof

/-- One place further on. -/
def next (cursor : Cursor) : Cursor :=
  { cursor with current := cursor.current + 1, trail := (cursor.current + 1) :: cursor.trail }

/-- The end stays the next token however often it is passed. -/
def advance : Reader Token := do
  if ← isAtEnd then previous
  else
    modify next
    previous

def check (kind : Kind) : Reader Bool := do
  if ← isAtEnd then return false
  else return (← peek).kind = kind

def checkAny : List Kind → Reader Bool
  | [] => return false
  | kind :: kinds => do
    if ← check kind then return true
    else checkAny kinds

def acceptAny? (kinds : List Kind) : Reader (Option Token) := do
  if ← checkAny kinds then return some (← advance)
  else return none

def accept (kind : Kind) : Reader Bool := Option.isSome <$> acceptAny? [kind]

def faultHere (complaint : ParseComplaint) : Reader Fault := do
  let token ← peek
  if token.kind = .eof then return .parse token.line none complaint
  else return .parse token.line (some token.lexeme) complaint

def giveUp {α : Type} (complaint : ParseComplaint) : Reader α := do throw (← faultHere complaint)

def consume (kind : Kind) (complaint : ParseComplaint) : Reader Token := do
  if ← check kind then advance
  else giveUp complaint

def expect (symbol : Symbol) (place : String) : Reader Token :=
  consume (.symbol symbol) (.missing symbol place)

def expectName (phrase : String) : Reader Token := consume .identifier (.missingPhrase phrase)

def record (fault : Fault) : Reader Unit :=
  modify fun cursor => { cursor with faults := cursor.faults ++ [fault] }

def reference (name : Token) : Reader Reference := do
  let id := (← get).nextId
  modify fun cursor => { cursor with nextId := id + 1 }
  return ⟨id, name⟩

def checkLimit (items : String) (count : Nat) : Reader Unit := do
  if maxArguments ≤ count then record (← faultHere (.tooMany items))
  else return ()

/-! ### Expressions -/

/-- The operators with a left operand, from the loosest to the tightest. -/
inductive Tier
  | disjunction
  | conjunction
  | equality
  | comparison
  | term
  | factor

namespace Tier

def operators : Tier → List Kind
  | disjunction => [.keyword .or]
  | conjunction => [.keyword .and]
  | equality => [.symbol .bangEqual, .symbol .equalEqual]
  | comparison => [.symbol .greater, .symbol .greaterEqual, .symbol .less, .symbol .lessEqual]
  | term => [.symbol .minus, .symbol .plus]
  | factor => [.symbol .star, .symbol .slash]

def build : Tier → Expr → Token → Expr → Expr
  | disjunction | conjunction => .logical
  | equality | comparison | term | factor => .binary

end Tier

def superExpr (keyword : Token) : Reader Expr := do
  let _ ← expect .dot "after 'super'"
  let method ← expectName "superclass method name"
  return .super (← reference keyword) method

def groupingExpr (whole : Reader Expr) : Reader Expr := do
  let inner ← whole
  let _ ← expect .rightParen "after expression"
  return .grouping inner

def assignTo (target : Expr) (equals : Token) (value : Expr) : Reader Expr := do
  match target with
  | .variable use => return .assign (← reference use.name) value
  | .get object name => return .set object name value
  | other =>
    record (.static (.invalidAssignmentTarget equals.line))
    return other

mutual

def expression : Nat → Reader Expr
  | 0 => exhausted
  | fuel + 1 => do
    let target ← chained fuel .disjunction
    match ← acceptAny? [.symbol .equal] with
    | some equals => assignTo target equals (← expression fuel)
    | none => return target

def chained : Nat → Tier → Reader Expr
  | 0, _ => exhausted
  | fuel + 1, tier => do chain fuel tier (← operand fuel tier)

def chain : Nat → Tier → Expr → Reader Expr
  | 0, _, _ => exhausted
  | fuel + 1, tier, left => do
    match ← acceptAny? tier.operators with
    | some operator => chain fuel tier (tier.build left operator (← operand fuel tier))
    | none => return left

def operand : Nat → Tier → Reader Expr
  | 0, _ => exhausted
  | fuel + 1, .disjunction => chained fuel .conjunction
  | fuel + 1, .conjunction => chained fuel .equality
  | fuel + 1, .equality => chained fuel .comparison
  | fuel + 1, .comparison => chained fuel .term
  | fuel + 1, .term => chained fuel .factor
  | fuel + 1, .factor => unary fuel

def unary : Nat → Reader Expr
  | 0 => exhausted
  | fuel + 1 => do
    match ← acceptAny? [.symbol .bang, .symbol .minus] with
    | some operator => return .unary operator (← unary fuel)
    | none => postfixes fuel (← primary fuel)

def postfixes : Nat → Expr → Reader Expr
  | 0, _ => exhausted
  | fuel + 1, expr => do
    if ← accept (.symbol .leftParen) then
      let arguments ← listedArguments fuel
      let paren ← expect .rightParen "after arguments"
      postfixes fuel (.call expr paren arguments)
    else if ← accept (.symbol .dot) then
      let name ← expectName "property name after '.'"
      postfixes fuel (.get expr name)
    else return expr

def listedArguments : Nat → Reader (List Expr)
  | 0 => exhausted
  | fuel + 1 => do
    if ← check (.symbol .rightParen) then return []
    else arguments fuel 0

def arguments : Nat → Nat → Reader (List Expr)
  | 0, _ => exhausted
  | fuel + 1, count => do
    checkLimit "arguments" count
    let first ← expression fuel
    if ← accept (.symbol .comma) then return first :: (← arguments fuel (count + 1))
    else return [first]

def primary : Nat → Reader Expr
  | 0 => exhausted
  | fuel + 1 => do
    if ← accept (.keyword .false) then return .literal .false
    else if ← accept (.keyword .true) then return .literal .true
    else if ← accept (.keyword .nil) then return .literal .nil
    else match (← peek).kind with
    | .number value =>
      let _ ← advance
      return .literal (.number value)
    | .string text =>
      let _ ← advance
      return .literal (.string text)
    | _ =>
      match ← acceptAny? [.keyword .super] with
      | some keyword => superExpr keyword
      | none =>
      match ← acceptAny? [.keyword .this] with
      | some keyword => return .this (← reference keyword)
      | none =>
      match ← acceptAny? [.identifier] with
      | some name => return .variable (← reference name)
      | none =>
        if ← accept (.symbol .leftParen) then groupingExpr (expression fuel)
        else giveUp (.missingPhrase "expression")

end

/-! ### Statements -/

def params : Nat → Nat → Reader (List Token)
  | 0, _ => exhausted
  | fuel + 1, count => do
    checkLimit "parameters" count
    let first ← expectName "parameter name"
    if ← accept (.symbol .comma) then return first :: (← params fuel (count + 1))
    else return [first]

def superclass : Reader (Option Reference) := do
  if ← accept (.symbol .less) then
    let name ← expectName "superclass name"
    return some (← reference name)
  else return none

def skipOn : Nat → Reader Unit
  | 0 => exhausted
  | fuel + 1 => do
    if ← isAtEnd then return ()
    else if (← previous).kind = .symbol .semicolon then return ()
    else if (← peek).kind ∈ Parser.openers then return ()
    else
      let _ ← advance
      skipOn fuel

section Simple

variable (fuel : Nat)

def listedParams : Reader (List Token) := do
  if ← check (.symbol .rightParen) then return []
  else params fuel 0

def varDeclaration : Reader Stmt := do
  let name ← expectName "variable name"
  let initializer ← if ← accept (.symbol .equal) then some <$> expression fuel else pure none
  let _ ← expect .semicolon "after variable declaration"
  return .var name initializer

def expressionStatement : Reader Stmt := do
  let expr ← expression fuel
  let _ ← expect .semicolon "after expression"
  return .expression expr

def printStatement : Reader Stmt := do
  let expr ← expression fuel
  let _ ← expect .semicolon "after value"
  return .print expr

def optionalUnless (closing : Symbol) : Reader (Option Expr) := do
  if ← check (.symbol closing) then return none
  else some <$> expression fuel

def returnStatement (keyword : Token) : Reader Stmt := do
  let value ← optionalUnless fuel .semicolon
  let _ ← expect .semicolon "after return value"
  return .ret keyword value

def forInitializer : Reader (Option Stmt) := do
  if ← accept (.symbol .semicolon) then return none
  else if ← accept (.keyword .var) then some <$> varDeclaration fuel
  else some <$> expressionStatement fuel

/-- The token in the way is skipped, and then as many more as needed. -/
def synchronize : Reader Unit := do
  let _ ← advance
  skipOn fuel

/-- What becomes of a declaration that could not be read. -/
def recovered (fault : Fault) : Reader (Option Stmt) := do
  record fault
  synchronize fuel
  return none

end Simple

mutual

def declaration : Nat → Reader (Option Stmt)
  | 0 => exhausted
  | fuel + 1 => do
    try some <$> anyDeclaration fuel
    catch fault => recovered fuel fault

def anyDeclaration : Nat → Reader Stmt
  | 0 => exhausted
  | fuel + 1 => do
    if ← accept (.keyword .class) then classDeclaration fuel
    else if ← accept (.keyword .fun) then return .function (← function fuel "function")
    else if ← accept (.keyword .var) then varDeclaration fuel
    else statement fuel

def classDeclaration : Nat → Reader Stmt
  | 0 => exhausted
  | fuel + 1 => do
    let name ← expectName "class name"
    let superclass ← superclass
    let _ ← expect .leftBrace "before class body"
    let methods ← methods fuel
    let _ ← expect .rightBrace "after class body"
    return .classDecl name superclass methods

def methods : Nat → Reader (List FunctionDecl)
  | 0 => exhausted
  | fuel + 1 => do
    if ← check (.symbol .rightBrace) then return []
    else if ← isAtEnd then return []
    else
      let first ← function fuel "method"
      return first :: (← methods fuel)

def function : Nat → String → Reader FunctionDecl
  | 0, _ => exhausted
  | fuel + 1, role => do
    let name ← expectName (role ++ " name")
    let _ ← expect .leftParen ("after " ++ role ++ " name")
    let params ← listedParams fuel
    let _ ← expect .rightParen "after parameters"
    let _ ← expect .leftBrace ("before " ++ role ++ " body")
    return { name, params, body := ← block fuel }

def block : Nat → Reader (List Stmt)
  | 0 => exhausted
  | fuel + 1 => do
    let body ← declarations fuel
    let _ ← expect .rightBrace "after block"
    return body

def declarations : Nat → Reader (List Stmt)
  | 0 => exhausted
  | fuel + 1 => do
    if ← check (.symbol .rightBrace) then return []
    else if ← isAtEnd then return []
    else
      let first ← declaration fuel
      return first.toList ++ (← declarations fuel)

def statement : Nat → Reader Stmt
  | 0 => exhausted
  | fuel + 1 => do
    if ← accept (.keyword .for) then forStatement fuel
    else if ← accept (.keyword .if) then ifStatement fuel
    else if ← accept (.keyword .while) then whileStatement fuel
    else match ← acceptAny? [.keyword .return] with
      | some keyword => returnStatement fuel keyword
      | none =>
        if ← accept (.symbol .leftBrace) then return .block (← block fuel)
        else if ← accept (.keyword .print) then printStatement fuel
        else expressionStatement fuel

def forStatement : Nat → Reader Stmt
  | 0 => exhausted
  | fuel + 1 => do
    let _ ← expect .leftParen "after 'for'"
    let initializer ← forInitializer fuel
    let condition ← optionalUnless fuel .semicolon
    let _ ← expect .semicolon "after loop condition"
    let increment ← optionalUnless fuel .rightParen
    let _ ← expect .rightParen "after for clauses"
    return .forLoop initializer condition increment (← statement fuel)

def ifStatement : Nat → Reader Stmt
  | 0 => exhausted
  | fuel + 1 => do
    let _ ← expect .leftParen "after 'if'"
    let condition ← expression fuel
    let _ ← expect .rightParen "after if condition"
    let thenBranch ← statement fuel
    let elseBranch ← if ← accept (.keyword .else) then some <$> statement fuel else pure none
    return .conditional condition thenBranch elseBranch

def whileStatement : Nat → Reader Stmt
  | 0 => exhausted
  | fuel + 1 => do
    let _ ← expect .leftParen "after 'while'"
    let condition ← expression fuel
    let _ ← expect .rightParen "after condition"
    return .loop condition (← statement fuel)

end

/-! ### Programs -/

def program : Nat → Reader (List Stmt)
  | 0 => exhausted
  | fuel + 1 => do
    if ← isAtEnd then return []
    else
      let first ← declaration fuel
      return first.toList ++ (← program fuel)

def parse (fuel : Nat) : Reader (Except (List Fault) (List Stmt)) := do
  let program ← program fuel
  let faults := (← get).faults
  if faults.isEmpty then return .ok program
  else return .error faults

/-- The tokens with an end after them, if that is not what they end in already. -/
def stored (tokens : List Token) : List Token :=
  match tokens.getLast? with
  | some last => if last.kind = .eof then tokens else tokens ++ [.eof last.line]
  | none => [.eof 1]

def start (tokens : List Token) (firstId : Nat) : Cursor := ⟨stored tokens, 0, firstId, [], [0]⟩

end Cursor

/-! ### Runs -/

namespace Reader

/-- With enough fuel the rule comes to an end, always the same one, and with less it comes to
none. -/
def Ends {α : Type} (rule : Nat → Reader α) (before : Cursor) (outcome : Except Fault α)
    (after : Cursor) : Prop :=
  ∃ enough, ∀ fuel,
    rule fuel before = if enough ≤ fuel then some (.ok (outcome, after)) else none

section

variable {α β : Type} {rule : Reader α} {next : α → Reader β} {before after : Cursor}

theorem bind_ok {value : α} (ran : rule before = some (.ok (.ok value, after))) :
    (rule >>= next) before = next value after := by
  change (rule before >>= fun result => _) = _
  rw [ran]
  rfl

theorem bind_fault {fault : Fault} (ran : rule before = some (.ok (.error fault, after))) :
    (rule >>= next) before = some (.ok (.error fault, after)) := by
  change (rule before >>= fun result => _) = _
  rw [ran]
  rfl

theorem bind_exhausted (ran : rule before = none) : (rule >>= next) before = none := by
  change (rule before >>= fun result => _) = _
  rw [ran]
  rfl

theorem catch_ok {handler : Fault → Reader α} {value : α}
    (ran : rule before = some (.ok (.ok value, after))) :
    (tryCatch rule handler) before = some (.ok (.ok value, after)) := by
  change (rule before >>= fun result => _) = _
  rw [ran]
  rfl

theorem catch_fault {handler : Fault → Reader α} {fault : Fault}
    (ran : rule before = some (.ok (.error fault, after))) :
    (tryCatch rule handler) before = handler fault after := by
  change (rule before >>= fun result => _) = _
  rw [ran]
  rfl

theorem catch_exhausted {handler : Fault → Reader α} (ran : rule before = none) :
    (tryCatch rule handler) before = none := by
  change (rule before >>= fun result => _) = _
  rw [ran]
  rfl

end

namespace Ends

variable {α β : Type} {rule : Nat → Reader α} {next : α → Nat → Reader β}
  {before middle after : Cursor} {outcome : Except Fault α} {answer : Except Fault β}

/-- What takes no fuel. -/
theorem now {rule : Reader α} (ran : rule before = some (.ok (outcome, after))) :
    Ends (fun _ => rule) before outcome after :=
  ⟨0, fun fuel => ran.trans (if_pos fuel.zero_le).symm⟩

/-- What does the same as another rule does from elsewhere. -/
theorem of_eq {other : Nat → Reader α} (ends : Ends other middle outcome after)
    (same : ∀ fuel, rule fuel before = other fuel middle) : Ends rule before outcome after := by
  obtain ⟨enough, ran⟩ := ends
  exact ⟨enough, fun fuel => (same fuel).trans (ran fuel)⟩

/-- A turn takes one unit of fuel. -/
theorem fueled (none : rule 0 = Cursor.exhausted)
    (ends : Ends (fun fuel => rule (fuel + 1)) before outcome after) :
    Ends rule before outcome after := by
  obtain ⟨enough, ran⟩ := ends
  refine ⟨enough + 1, fun fuel => ?_⟩
  cases fuel with
  | zero =>
    rw [none, if_neg (Nat.not_succ_le_zero _)]
    rfl
  | succ fuel => simp only [ran, Nat.succ_le_succ_iff]

/-- A rule that starts with another one and, when that has come to an end, goes on with a third. -/
theorem follow {whole later : Nat → Reader β} (first : Ends rule before outcome middle)
    (second : Ends later middle answer after)
    (goes : ∀ fuel, rule fuel before = some (.ok (outcome, middle)) →
      whole fuel before = later fuel middle)
    (stops : ∀ fuel, rule fuel before = none → whole fuel before = none) :
    Ends whole before answer after := by
  obtain ⟨enough, ran⟩ := first
  obtain ⟨enough', ran'⟩ := second
  refine ⟨max enough enough', fun fuel => ?_⟩
  have ran := ran fuel
  by_cases lasts : enough ≤ fuel
  · rw [if_pos lasts] at ran
    simp only [goes fuel ran, ran', Nat.max_le, lasts, true_and]
  · rw [if_neg lasts] at ran
    rw [stops fuel ran, if_neg (by omega)]

theorem bind_ok {value : α} (first : Ends rule before (.ok value) middle)
    (second : Ends (next value) middle answer after) :
    Ends (fun fuel => rule fuel >>= fun value => next value fuel) before answer after :=
  first.follow second (fun _ => Reader.bind_ok) fun _ => Reader.bind_exhausted

theorem bind_fault {fault : Fault} (first : Ends rule before (.error fault) middle) :
    Ends (fun fuel => rule fuel >>= fun value => next value fuel) before (.error fault) middle :=
  first.follow (.now rfl : Ends (fun _ => throw fault) middle (.error fault) middle)
    (fun _ => Reader.bind_fault) fun _ => Reader.bind_exhausted

theorem catch_ok {handler : Fault → Nat → Reader α} {value : α}
    (first : Ends rule before (.ok value) middle) :
    Ends (fun fuel => tryCatch (rule fuel) fun fault => handler fault fuel) before (.ok value)
      middle :=
  first.follow (.now rfl : Ends (fun _ => pure value) middle (.ok value) middle)
    (fun _ => Reader.catch_ok) fun _ => Reader.catch_exhausted

theorem catch_fault {handler : Fault → Nat → Reader α} {fault : Fault}
    (first : Ends rule before (.error fault) middle)
    (second : Ends (handler fault) middle outcome after) :
    Ends (fun fuel => tryCatch (rule fuel) fun fault => handler fault fuel) before outcome
      after :=
  first.follow second (fun _ => Reader.catch_fault) fun _ => Reader.catch_exhausted

theorem unique {outcome' : Except Fault α} {after' : Cursor}
    (ends : Ends rule before outcome after) (ends' : Ends rule before outcome' after') :
    outcome = outcome' ∧ after = after' := by
  obtain ⟨enough, ran⟩ := ends
  obtain ⟨enough', ran'⟩ := ends'
  have same := (ran (max enough enough')).symm.trans (ran' _)
  rw [if_pos (Nat.le_max_left ..), if_pos (Nat.le_max_right ..)] at same
  injection same with same
  injection same with same
  injection same with outcome after
  exact ⟨outcome, after⟩

end Ends

end Reader

/-! ### Places -/

/-- The place of the first end. -/
def firstEnd (tokens : List Token) : Nat := tokens.findIdx (·.kind = .eof)

theorem getElem?_firstEnd {tokens : List Token} (ended : firstEnd tokens < tokens.length) :
    ∃ last, tokens[firstEnd tokens]? = some last ∧ last.kind = .eof ∧
      lastLine tokens = last.line := by
  have found : tokens[firstEnd tokens]? = some tokens[firstEnd tokens] :=
    List.getElem?_eq_getElem ended
  refine ⟨_, found, of_decide_eq_true (List.findIdx_getElem (w := ended)), ?_⟩
  rw [lastLine, List.find?_eq_getElem?_findIdx]
  unfold firstEnd at found
  rw [found]
  rfl

theorem kind_before {tokens : List Token} {place : Nat} {token : Token}
    (before : place < firstEnd tokens) (found : tokens[place]? = some token) :
    token.kind ≠ .eof := by
  obtain ⟨inside, rfl⟩ := List.getElem?_eq_some_iff.mp found
  simpa using List.not_of_lt_findIdx before

namespace Cursor

/-- What a cursor has still to read, as rules on lists of tokens see it. -/
def progress (cursor : Cursor) : Progress where
  rest := (cursor.tokens.take (firstEnd cursor.tokens)).drop cursor.current
  endLine := lastLine cursor.tokens
  nextId := cursor.nextId
  faults := cursor.faults

/-- There is an end, and no place has ever been behind the first one. -/
structure Inside (cursor : Cursor) : Prop where
  ended : firstEnd cursor.tokens < cursor.tokens.length
  before : cursor.current ≤ firstEnd cursor.tokens
  trail : ∀ place ∈ cursor.trail, place ≤ firstEnd cursor.tokens

/-- What is true of a cursor with a token to be read. -/
structure At (cursor : Cursor) (token : Token) : Prop where
  found : cursor.tokens[cursor.current]? = some token
  other : token.kind ≠ .eof
  rest : cursor.progress.rest = token :: cursor.next.progress.rest
  inside : cursor.next.Inside

structure AtEnd (cursor : Cursor) (last : Token) : Prop where
  found : cursor.tokens[cursor.current]? = some last
  kind : last.kind = .eof
  rest : cursor.progress.rest = []
  line : cursor.progress.endLine = last.line
  previous : ∃ token, cursor.tokens[cursor.current - 1]? = some token

variable {cursor : Cursor} {token last : Token}

theorem length_rest (inside : cursor.Inside) :
    cursor.progress.rest.length = firstEnd cursor.tokens - cursor.current := by
  have := inside.ended
  simp only [progress, List.length_drop, List.length_take]
  omega

theorem Inside.cases (inside : cursor.Inside) :
    (∃ last, cursor.AtEnd last) ∨ ∃ token, cursor.At token := by
  have ended := inside.ended
  rcases inside.before.lt_or_eq with before | last
  · right
    have found : cursor.tokens[cursor.current]? = some cursor.tokens[cursor.current] :=
      List.getElem?_eq_getElem _
    refine ⟨_, found, kind_before before found, ?_, ended, before, ?_⟩
    · have short : cursor.current < (cursor.tokens.take (firstEnd cursor.tokens)).length := by
        rw [List.length_take]
        omega
      rw [progress, List.drop_eq_getElem_cons short, List.getElem_take]
      rfl
    · intro place member
      rcases List.mem_cons.mp member with rfl | earlier
      · exact before
      · exact inside.trail place earlier
  · left
    obtain ⟨token, found, kind, line⟩ := getElem?_firstEnd ended
    refine ⟨token, last ▸ found, kind, ?_, line, _, List.getElem?_eq_getElem (by omega)⟩
    apply List.eq_nil_of_length_eq_zero
    rw [length_rest inside]
    omega

/-! ### Steps -/

theorem tokenAt_ok {place : Nat} (found : cursor.tokens[place]? = some token) :
    tokenAt place cursor = some (.ok (.ok token, cursor)) := by
  simp only [tokenAt, found]

theorem peek_ok (found : cursor.tokens[cursor.current]? = some token) :
    peek cursor = some (.ok (.ok token, cursor)) := tokenAt_ok found

theorem previous_ok (found : cursor.tokens[cursor.current - 1]? = some token) :
    previous cursor = some (.ok (.ok token, cursor)) := tokenAt_ok found

theorem isAtEnd_ok (found : cursor.tokens[cursor.current]? = some token) :
    isAtEnd cursor = some (.ok (.ok (token.kind = .eof : Bool), cursor)) :=
  Reader.bind_ok (peek_ok found)

theorem AtEnd.isAtEnd (ends : cursor.AtEnd last) :
    isAtEnd cursor = some (.ok (.ok true, cursor)) := by
  rw [isAtEnd_ok ends.found, decide_eq_true ends.kind]

theorem At.isAtEnd (here : cursor.At token) : isAtEnd cursor = some (.ok (.ok false, cursor)) := by
  rw [isAtEnd_ok here.found, decide_eq_false here.other]

theorem AtEnd.advance (ends : cursor.AtEnd last) :
    ∃ token, advance cursor = some (.ok (.ok token, cursor)) := by
  obtain ⟨token, found⟩ := ends.previous
  exact ⟨token, (Reader.bind_ok ends.isAtEnd).trans (previous_ok found)⟩

theorem At.advance (here : cursor.At token) :
    advance cursor = some (.ok (.ok token, cursor.next)) :=
  (Reader.bind_ok here.isAtEnd).trans (previous_ok here.found)

theorem AtEnd.check (ends : cursor.AtEnd last) (kind : Kind) :
    check kind cursor = some (.ok (.ok false, cursor)) := Reader.bind_ok ends.isAtEnd

theorem At.check (here : cursor.At token) (kind : Kind) :
    check kind cursor = some (.ok (.ok (token.kind = kind : Bool), cursor)) :=
  (Reader.bind_ok here.isAtEnd).trans (Reader.bind_ok (peek_ok here.found))

theorem AtEnd.checkAny (ends : cursor.AtEnd last) (kinds : List Kind) :
    checkAny kinds cursor = some (.ok (.ok false, cursor)) := by
  induction kinds with
  | nil => rfl
  | cons kind kinds ih => exact (Reader.bind_ok (ends.check kind)).trans ih

theorem At.checkAny (here : cursor.At token) (kinds : List Kind) :
    checkAny kinds cursor = some (.ok (.ok (token.kind ∈ kinds : Bool), cursor)) := by
  induction kinds with
  | nil => rfl
  | cons kind kinds ih =>
    refine (Reader.bind_ok (here.check kind)).trans ?_
    by_cases same : token.kind = kind
    · simp only [same, decide_true, if_true, List.mem_cons, true_or]
      rfl
    · simpa [same] using ih

theorem AtEnd.acceptAny? (ends : cursor.AtEnd last) (kinds : List Kind) :
    acceptAny? kinds cursor = some (.ok (.ok none, cursor)) := Reader.bind_ok (ends.checkAny kinds)

theorem At.acceptAny? (here : cursor.At token) (kinds : List Kind) :
    acceptAny? kinds cursor = if token.kind ∈ kinds then some (.ok (.ok (some token), cursor.next))
      else some (.ok (.ok none, cursor)) := by
  refine (Reader.bind_ok (here.checkAny kinds)).trans ?_
  by_cases member : token.kind ∈ kinds
  · simp only [member, decide_true, if_true]
    exact Reader.bind_ok here.advance
  · simp only [member, decide_false, if_false]
    rfl

theorem AtEnd.accepted (ends : cursor.AtEnd last) (kinds : List Kind) :
    Parser.acceptAny? kinds cursor.progress = (.ok none, cursor.progress) := by
  simp only [Parser.acceptAny?, ends.rest]

theorem At.accepted (here : cursor.At token) (kinds : List Kind) :
    Parser.acceptAny? kinds cursor.progress =
      if token.kind ∈ kinds then (.ok (some token), cursor.next.progress)
      else (.ok none, cursor.progress) := by
  simp only [Parser.acceptAny?, here.rest]
  rfl

theorem faultHere_ok (inside : cursor.Inside) (complaint : ParseComplaint) :
    faultHere complaint cursor =
      some (.ok (.ok (Parser.faultAt cursor.progress complaint), cursor)) := by
  obtain ⟨last, ends⟩ | ⟨token, here⟩ := inside.cases
  · refine (Reader.bind_ok (peek_ok ends.found)).trans ?_
    rw [if_pos ends.kind]
    simp only [Parser.faultAt, ends.rest, ends.line]
    rfl
  · refine (Reader.bind_ok (peek_ok here.found)).trans ?_
    rw [if_neg here.other]
    simp only [Parser.faultAt, here.rest]
    rfl

theorem At.acceptAny?_bind {β : Type} (here : cursor.At token) (kinds : List Kind)
    (next : Option Token → Reader β) : (Cursor.acceptAny? kinds >>= next) cursor =
      if token.kind ∈ kinds then next (some token) cursor.next else next none cursor := by
  have ran := here.acceptAny? kinds
  split <;> rename_i member
  · rw [if_pos member] at ran
    exact Reader.bind_ok ran
  · rw [if_neg member] at ran
    exact Reader.bind_ok ran

theorem At.accept_bind {β : Type} (here : cursor.At token) (kind : Kind) (next : Bool → Reader β) :
    (accept kind >>= next) cursor =
      if token.kind = kind then next true cursor.next else next false cursor := by
  rw [accept, bind_map_left, here.acceptAny?_bind]
  simp only [List.mem_singleton]
  rfl

theorem AtEnd.acceptAny?_bind {β : Type} (ends : cursor.AtEnd last) (kinds : List Kind)
    (next : Option Token → Reader β) :
    (Cursor.acceptAny? kinds >>= next) cursor = next none cursor :=
  Reader.bind_ok (ends.acceptAny? kinds)

theorem AtEnd.accept_bind {β : Type} (ends : cursor.AtEnd last) (kind : Kind)
    (next : Bool → Reader β) : (accept kind >>= next) cursor = next false cursor := by
  rw [accept, bind_map_left, ends.acceptAny?_bind]
  rfl

theorem giveUp_ok {α : Type} (inside : cursor.Inside) (complaint : ParseComplaint) :
    (giveUp complaint : Reader α) cursor =
      some (.ok (.error (Parser.faultAt cursor.progress complaint), cursor)) :=
  Reader.bind_ok (faultHere_ok inside complaint)

/-- What a token starts that is no operator's. -/
def primaryOf? (token : Token) : Option (Nat → Reader Expr) :=
  match token.kind with
  | .keyword .super => some fun _ => superExpr token
  | .keyword .this => some fun _ => Expr.this <$> reference token
  | .identifier => some fun _ => Expr.variable <$> reference token
  | .symbol .leftParen => some fun fuel => groupingExpr (expression fuel)
  | kind => (Parser.literal? kind).map fun literal _ => return .literal literal

end Cursor
end Lox.Tree
