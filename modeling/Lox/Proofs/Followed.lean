import Lox.Proofs.Boundaries
import Lox.Proofs.Cursors

/-! The parser with an index does what the parser on lists does. That one has bounds, and no bound
is ever met, so the other one comes to an end wherever it starts in front of an end. -/

namespace Lox.Tree

namespace Cursor

variable {cursor : Cursor} {token last : Token}

/-! ### Rules that do what rules on lists do -/

/-- How one cursor comes after another. -/
structure Leads (before after : Cursor) : Prop where
  tokens : after.tokens = before.tokens
  inside : after.Inside
  further : before.current ≤ after.current

namespace Leads

variable {first second third : Cursor}

theorem refl (inside : cursor.Inside) : cursor.Leads cursor := ⟨rfl, inside, le_rfl⟩

/-- Numbers and faults have no place. -/
theorem noted (inside : cursor.Inside) (nextId : Nat) (faults : List Fault) :
    cursor.Leads { cursor with nextId, faults } :=
  ⟨rfl, ⟨inside.ended, inside.before, inside.trail⟩, le_rfl⟩

theorem trans (before : first.Leads second) (after : second.Leads third) : first.Leads third :=
  ⟨after.tokens.trans before.tokens, after.inside, before.further.trans after.further⟩

end Leads

theorem At.leads (here : cursor.At token) : cursor.Leads cursor.next :=
  ⟨rfl, here.inside, Nat.le_succ _⟩

theorem At.length (here : cursor.At token) :
    cursor.progress.rest.length = cursor.next.progress.rest.length + 1 := by
  rw [here.rest, List.length_cons]

end Cursor

/-- From this cursor the first rule comes to an end, and does what the second one does. If they give
something they have read `least` tokens or more, or all there were. -/
def Cursor.Agrees {α : Type} (before : Cursor) (least : Nat) (rule : Nat → Reader α)
    (parser : Parser α) : Prop :=
  ∃ after, Reader.Ends rule before (parser before.progress).1 after ∧
    (parser before.progress).2 = after.progress ∧ before.Leads after ∧
    ∀ value, (parser before.progress).1 = .ok value →
      after.progress.rest.length ≤ before.progress.rest.length - least

/-- What comes first only looks. -/
theorem Cursor.Agrees.look {α β : Type} {before : Cursor} {least : Nat} {rule : Reader α}
    {next : α → Nat → Reader β} {parser : Parser β} {value : α}
    (agrees : before.Agrees least (next value) parser)
    (ran : rule before = some (.ok (.ok value, before))) :
    before.Agrees least (fun fuel => rule >>= fun value => next value fuel) parser := by
  obtain ⟨after, ends, same⟩ := agrees
  exact ⟨after, (Reader.Ends.now ran).bind_ok ends, same⟩

/-- Two rules that agree wherever there are at most `size` tokens left. -/
def Follows {α : Type} (size least : Nat) (rule : Nat → Reader α) (parser : Parser α) : Prop :=
  ∀ before : Cursor, before.Inside → before.progress.rest.length ≤ size →
    before.Agrees least rule parser

namespace Follows

open Cursor

variable {α β : Type} {size least more : Nat} {kinds : List Kind} {kind : Kind}
  {rule : Nat → Reader α} {parser : Parser α} {next : α → Nat → Reader β} {next' : α → Parser β}

theorem fewer {smaller less : Nat} (follows : Follows size least rule parser)
    (below : smaller ≤ size) (fewer : less ≤ least) : Follows smaller less rule parser := by
  intro before inside few
  obtain ⟨after, ran, same, leads, read⟩ := follows before inside (few.trans below)
  exact ⟨after, ran, same, leads, fun value given => (read value given).trans (by omega)⟩

/-- Rules that do the same are followed the same. -/
theorem same {other : Parser α} {less : Nat} (follows : Follows size least rule parser)
    (same : Parser.SameUpTo size less parser other) : Follows size least rule other := by
  intro before inside few
  unfold Agrees
  rw [← (same before.progress few).1]
  exact follows before inside few

/-- A turn takes one unit of fuel. -/
theorem fueled (none : rule 0 = exhausted)
    (follows : Follows size least (fun fuel => rule (fuel + 1)) parser) :
    Follows size least rule parser := by
  intro before inside few
  obtain ⟨after, ends, same⟩ := follows before inside few
  exact ⟨after, ends.fueled none, same⟩

theorem pure (value : α) : Follows size 0 (fun _ => Pure.pure value) (Pure.pure value) :=
  fun before inside _ => ⟨before, .now rfl, rfl, .refl inside, fun _ _ => le_rfl⟩

theorem giveUp (complaint : ParseComplaint) :
    Follows size least (fun _ => (Cursor.giveUp complaint : Reader α)) (Parser.giveUp complaint) :=
  fun before inside _ =>
    ⟨before, .now (giveUp_ok inside complaint), rfl, .refl inside, nofun⟩

theorem bind (earlier : Follows size least rule parser)
    (later : ∀ value, Follows (size - least) more (next value) (next' value)) :
    Follows size (least + more) (fun fuel => rule fuel >>= fun value => next value fuel)
      (parser >>= next') := by
  intro before inside few
  obtain ⟨middle, ran, same, leads, read⟩ := earlier before inside few
  unfold Agrees
  rw [Parser.bind_apply]
  rcases given : parser before.progress with ⟨fault | value, rest⟩ <;> rw [given] at ran same read
  · exact ⟨middle, ran.bind_fault, same, leads, nofun⟩
  · obtain rfl : rest = middle.progress := same
    have left : middle.progress.rest.length ≤ before.progress.rest.length - least := read value rfl
    obtain ⟨after, ran', same', leads', read'⟩ :=
      later value middle leads.inside (left.trans (Nat.sub_le_sub_right few _))
    refine ⟨after, ran.bind_ok ran', same', leads.trans leads', fun other given => ?_⟩
    have := read' other given
    omega

theorem before (earlier : Follows size least rule parser)
    (later : ∀ value, Follows size 0 (next value) (next' value)) :
    Follows size least (fun fuel => rule fuel >>= fun value => next value fuel)
      (parser >>= next') :=
  earlier.bind fun value => (later value).fewer (Nat.sub_le _ _) le_rfl

theorem after (earlier : Follows size least rule parser)
    (later : ∀ value, Follows size more (next value) (next' value)) :
    Follows size more (fun fuel => rule fuel >>= fun value => next value fuel)
      (parser >>= next') :=
  (earlier.bind fun value => (later value).fewer (Nat.sub_le _ _) le_rfl).fewer le_rfl
    (Nat.le_add_left _ _)

theorem map (follows : Follows size least rule parser) (f : α → β) :
    Follows size least (fun fuel => f <$> rule fuel) (f <$> parser) := by
  have mapped := follows.before fun value => .pure (f value)
  simp only [bind_pure_comp] at mapped
  exact mapped

theorem ite {yes no : Nat → Reader α} {yes' no' : Parser α} (taken : Follows size least yes yes')
    (left : Follows size least no no') (which : Bool) :
    Follows size least (fun fuel => if which = true then yes fuel else no fuel)
      (if which = true then yes' else no') := by
  cases which with
  | true => exact taken
  | false => exact left

/-- Two ways to go on, of which one is taken after a token. -/
theorem choose {next : Option Token → Nat → Reader β} {next' : Option Token → Parser β}
    (found : ∀ token, ∀ smaller < size, Follows smaller (least - 1) (next (some token))
      (next' (some token)))
    (none : Follows size least (next none) (next' none)) :
    Follows size least (fun fuel => Cursor.acceptAny? kinds >>= fun found => next found fuel)
      (Parser.acceptAny? kinds >>= next') := by
  intro before inside few
  obtain ⟨last, ends⟩ | ⟨token, here⟩ := inside.cases
  · refine .look ?_ (ends.acceptAny? kinds)
    unfold Agrees
    rw [Parser.bind_apply, ends.accepted]
    exact none before inside few
  · have ran := here.acceptAny? kinds
    have length := here.length
    have accepted := here.accepted kinds
    by_cases member : token.kind ∈ kinds
    · rw [if_pos member] at ran accepted
      obtain ⟨after, ran', same, leads, read⟩ :=
        found token before.next.progress.rest.length (by omega) before.next here.inside le_rfl
      unfold Agrees
      rw [Parser.bind_apply, accepted]
      refine ⟨after, (Reader.Ends.now ran).bind_ok ran', same, here.leads.trans leads,
        fun value given => ?_⟩
      have := read value given
      omega
    · rw [if_neg member] at ran accepted
      refine .look ?_ ran
      unfold Agrees
      rw [Parser.bind_apply, accepted]
      exact none before inside few

/-- With no token left a loop stops, whatever its bound. -/
theorem ended {next : Option Token → Nat → Reader β} {stopped : Parser β}
    (stops : Follows 0 least (next none) stopped) :
    Follows 0 least (fun fuel => Cursor.acceptAny? kinds >>= fun found => next found fuel)
      stopped := by
  intro before inside few
  obtain ⟨last, ends⟩ | ⟨token, here⟩ := inside.cases
  · exact (stops before inside few).look (ends.acceptAny? kinds)
  · have := here.length
    omega

theorem accept_bind (next : Bool → Reader β) :
    (Cursor.accept kind >>= next) = Cursor.acceptAny? [kind] >>= fun found => next found.isSome :=
  bind_map_left ..

theorem choice {yes no : Nat → Reader β} {yes' no' : Parser β}
    (taken : ∀ smaller < size, Follows smaller (least - 1) yes yes')
    (left : Follows size least no no') :
    Follows size least
      (fun fuel => Cursor.accept kind >>= fun seen => if seen = true then yes fuel else no fuel)
      (Parser.accept kind >>= fun seen => if seen = true then yes' else no') := by
  simp only [accept_bind, Parser.accept_bind]
  exact choose (fun _ => taken) left

/-- What may be left out, with what comes after it either way. -/
theorem option {next : Option α → Nat → Reader β} {next' : Option α → Parser β}
    (reads : ∀ smaller < size, Follows smaller least rule parser)
    (after : ∀ found, Follows size 0 (next found) (next' found)) :
    Follows size 0
      (fun fuel => Cursor.accept kind >>= fun seen =>
        if seen = true then some <$> rule fuel >>= fun found => next found fuel
        else Pure.pure none >>= fun found => next found fuel)
      (Parser.accept kind >>= fun seen =>
        if seen = true then some <$> parser >>= next' else Pure.pure none >>= next') :=
  choice (fun smaller few => ((reads smaller few).map some).after fun found =>
    (after found).fewer few.le le_rfl) (after none)

/-- Rules that only look. -/
theorem still {rule : Reader α} (stays : ∀ before : Cursor, before.Inside →
    rule before = some (.ok ((parser before.progress).1, before)) ∧
      (parser before.progress).2 = before.progress) : Follows size 0 (fun _ => rule) parser :=
  fun before inside _ => ⟨before, .now (stays before inside).1, (stays before inside).2,
    .refl inside, fun _ _ => le_rfl⟩

theorem isAtEnd : Follows size 0 (fun _ => Cursor.isAtEnd) Parser.atEnd := by
  refine still fun before inside => ?_
  obtain ⟨last, ends⟩ | ⟨token, here⟩ := inside.cases
  · rw [ends.isAtEnd, Parser.atEnd, ends.rest]
    exact ⟨rfl, rfl⟩
  · rw [here.isAtEnd, Parser.atEnd, here.rest]
    exact ⟨rfl, rfl⟩

theorem check (kind : Kind) : Follows size 0 (fun _ => Cursor.check kind) (Parser.sees kind) := by
  refine still fun before inside => ?_
  obtain ⟨last, ends⟩ | ⟨token, here⟩ := inside.cases
  · rw [ends.check, Parser.sees, ends.rest]
    exact ⟨rfl, rfl⟩
  · rw [here.check, Parser.sees, here.rest]
    exact ⟨rfl, rfl⟩

theorem consume_eq (kind : Kind) (complaint : ParseComplaint) :
    Cursor.consume kind complaint = Cursor.acceptAny? [kind] >>= fun
      | some token => Pure.pure token
      | none => Cursor.giveUp complaint := by
  unfold Cursor.consume Cursor.acceptAny? Cursor.checkAny
  rw [bind_assoc, bind_assoc]
  congr 1
  funext seen
  cases seen <;> simp [checkAny]

theorem expect (symbol : Symbol) (place : String) :
    Follows size 1 (fun _ => Cursor.expect symbol place) (Parser.expect symbol place) := by
  rw [Cursor.expect, consume_eq]
  exact .choose (fun token smaller few => .pure token) (.giveUp _)

theorem expectName (phrase : String) :
    Follows size 1 (fun _ => Cursor.expectName phrase) (Parser.expectName phrase) := by
  rw [Cursor.expectName, consume_eq]
  exact .choose (fun token smaller few => .pure token) (.giveUp _)

theorem reference (name : Token) :
    Follows size 0 (fun _ => Cursor.reference name) (Parser.reference name) :=
  fun before inside _ => ⟨{ before with nextId := before.nextId + 1 }, .now rfl, rfl,
    .noted inside _ _, fun _ _ => le_rfl⟩

theorem record (fault : Fault) :
    Follows size 0 (fun _ => Cursor.record fault) (Parser.record fault) :=
  fun before inside _ => ⟨{ before with faults := before.faults ++ [fault] }, .now rfl, rfl,
    .noted inside _ _, fun _ _ => le_rfl⟩

theorem checkLimit (items : String) (count : Nat) :
    Follows size 0 (fun _ => Cursor.checkLimit items count) (Parser.checkLimit items count) := by
  intro before inside few
  unfold Cursor.checkLimit Parser.checkLimit
  split
  · exact (record _ before inside few).look (faultHere_ok inside _)
  · exact pure () before inside few

/-! ### Lists and operators -/

section Expressions

variable {bound : Nat} {whole operand' : Parser Expr}

theorem separated (items : String) {loop : Nat → Nat → Reader (List α)}
    (stops : ∀ count, loop 0 count = exhausted)
    (unfolds : ∀ fuel count, loop (fuel + 1) count = do
      Cursor.checkLimit items count
      let first ← rule fuel
      if ← Cursor.accept (.symbol .comma) then return first :: (← loop fuel (count + 1))
      else return [first]) {size bound : Nat} (count : Nat) (inner : Follows size 1 rule parser)
    (few : size ≤ bound) :
    Follows size 0 (fun fuel => loop fuel count)
      (Parser.separated items parser bound count) := by
  induction bound generalizing size count with
  | zero =>
    obtain rfl := Nat.le_zero.mp few
    refine .fueled (stops count) ?_
    simp only [unfolds, accept_bind]
    exact (checkLimit items count).after fun _ => inner.after fun first => .ended (.pure [first])
  | succ bound ih =>
    refine .fueled (stops count) ?_
    simp only [unfolds]
    exact (checkLimit items count).after fun _ => inner.after fun first =>
      .choice (fun smaller fewer => (ih (count + 1) (inner.fewer fewer.le le_rfl) (by omega)).before
        fun _ => .pure _) (.pure [first])

theorem chain (tier : Tier) {size bound : Nat} (left : Expr)
    (inner : ∀ smaller < size, Follows smaller 1 (Cursor.operand · tier) operand')
    (few : size ≤ bound) : Follows size 0 (Cursor.chain · tier left)
      (Parser.chain tier.operators tier.build operand' bound left) := by
  induction bound generalizing size left with
  | zero =>
    obtain rfl := Nat.le_zero.mp few
    refine .fueled rfl ?_
    simp only [Cursor.chain]
    exact .ended (.pure left)
  | succ bound ih =>
    refine .fueled rfl ?_
    simp only [Cursor.chain]
    exact .choose (fun operator smaller fewer => (inner smaller fewer).after fun right =>
      ih _ (fun least below => inner least (below.trans fewer)) (by omega)) (.pure left)

theorem chained (tier : Tier) (inner : Follows size 1 (Cursor.operand · tier) operand')
    (few : size ≤ bound) : Follows size 1 (Cursor.chained · tier)
      (Parser.leftAssoc bound tier.operators tier.build operand') := by
  refine .fueled rfl ?_
  simp only [Cursor.chained]
  exact inner.before fun left =>
    chain tier left (fun smaller below => inner.fewer below.le le_rfl) few

theorem superExpr (keyword : Token) :
    Follows size 0 (fun _ => Cursor.superExpr keyword) (Parser.superExpr keyword) :=
  (expect _ _).after fun _ => (expectName _).after fun _ => (reference keyword).before
    fun _ => .pure _

theorem groupingExpr {rule : Nat → Reader Expr} (inner : Follows size 1 rule whole) :
    Follows size 0 (fun fuel => Cursor.groupingExpr (rule fuel)) (Parser.groupingExpr whole) :=
  inner.after fun _ => (expect _ _).after fun _ => .pure _

theorem assignTo (target : Expr) (equals : Token) (value : Expr) :
    Follows size 0 (fun _ => Cursor.assignTo target equals value)
      (Parser.assignTo target equals value) := by
  cases target
  case «variable» use => exact (reference _).before fun _ => .pure _
  case get object name => exact .pure _
  all_goals exact (record _).before fun _ => .pure _

theorem listedArguments (inner : Follows size 1 Cursor.expression whole) (few : size ≤ bound) :
    Follows size 0 Cursor.listedArguments (Parser.listed bound "arguments" whole) := by
  refine .fueled rfl ?_
  simp only [Cursor.listedArguments]
  exact (check _).before fun none => .ite (.pure [])
    (separated "arguments" (fun _ => rfl) (fun _ _ => rfl) 0 inner few) none

theorem postfixes (expr : Expr)
    (inner : ∀ smaller < size, Follows smaller 1 Cursor.expression whole) (few : size ≤ bound) :
    Follows size 0 (Cursor.postfixes · expr) (Parser.postfixes whole bound expr) := by
  induction bound generalizing size expr with
  | zero =>
    obtain rfl := Nat.le_zero.mp few
    refine .fueled rfl ?_
    simp only [Cursor.postfixes, accept_bind]
    exact .ended (.ended (.pure expr))
  | succ bound ih =>
    have further (expr : Expr) (smaller : Nat) (fewer : smaller < size) :
        Follows smaller 0 (Cursor.postfixes · expr) (Parser.postfixes whole bound expr) :=
      ih expr (fun least below => inner least (below.trans fewer)) (by omega)
    refine .fueled rfl ?_
    simp only [Cursor.postfixes]
    exact .choice (fun smaller fewer => (listedArguments (inner smaller fewer) (by omega)).after
        fun _ => (expect _ _).after fun _ => further _ smaller fewer)
      (.choice (fun smaller fewer => (expectName _).after fun _ => further _ smaller fewer)
        (.pure expr))

/-- The kinds are tried one after the other, and what a token starts is read after it. -/
theorem primary_at {before : Cursor} {token : Token} (here : before.At token) (fuel : Nat) :
    Cursor.primary (fuel + 1) before = match Cursor.primaryOf? token with
      | some rule => rule fuel before.next
      | none => (Cursor.giveUp (.missingPhrase "expression") : Reader Expr) before := by
  have peeked (next : Token → Reader Expr) : (Cursor.peek >>= next) before = next token before :=
    Reader.bind_ok (peek_ok here.found)
  have advanced (expr : Expr) : ((fun _ => expr) <$> Cursor.advance) before =
      (Pure.pure expr : Reader Expr) before.next := by
    rw [← bind_pure_comp]
    exact Reader.bind_ok here.advance
  have other := here.other
  rw [Cursor.primary, Cursor.primaryOf?]
  simp only [here.accept_bind]
  cases kind : token.kind with
  | eof => exact absurd kind other
  | symbol s =>
    cases s <;> simp [here.accept_bind, here.acceptAny?_bind, peeked, kind,
      Parser.literal?]
  | keyword k =>
    cases k <;> simp [here.accept_bind, here.acceptAny?_bind, peeked, kind,
      Parser.literal?]
  | number value => simp [here.accept_bind, peeked, advanced, kind, Parser.literal?]
  | string text => simp [here.accept_bind, peeked, advanced, kind, Parser.literal?]
  | identifier => simp [here.accept_bind, here.acceptAny?_bind, peeked, kind]

theorem primary_progress (whole : Parser Expr) {before : Cursor} {token : Token}
    (here : before.At token) :
    Parser.primary whole before.progress = match Parser.primaryOf? whole token with
      | some rule => rule before.next.progress
      | none => Parser.giveUp (.missingPhrase "expression") before.progress := by
  simp only [Parser.primary, Parser.bind_apply, Parser.peek?, here.rest, List.head?_cons,
    Option.bind_some]
  cases Parser.primaryOf? whole token with
  | none => rfl
  | some rule =>
    simp only [Parser.bind_apply, Parser.skip, here.rest]
    rfl

theorem primaryOf (inner : Follows size 1 Cursor.expression whole) (token : Token) :
    Option.Rel (Follows size 0) (Cursor.primaryOf? token) (Parser.primaryOf? whole token) := by
  unfold Cursor.primaryOf? Parser.primaryOf?
  cases token.kind with
  | identifier => exact .some ((reference _).map _)
  | number _ | string _ => exact .some (.pure _)
  | eof => exact .none
  | symbol symbol =>
    cases symbol
    case leftParen => exact .some (groupingExpr inner)
    all_goals exact .none
  | keyword keyword =>
    cases keyword
    case super => exact .some (superExpr _)
    case this => exact .some ((reference _).map _)
    case false | true | nil => exact .some (.pure _)
    all_goals exact .none

theorem primary (inner : ∀ smaller < size, Follows smaller 1 Cursor.expression whole) :
    Follows size 1 Cursor.primary (Parser.primary whole) := by
  refine .fueled rfl fun before inside few => ?_
  obtain ⟨last, ends⟩ | ⟨token, here⟩ := inside.cases
  · have peeked (next : Token → Reader Expr) : (Cursor.peek >>= next) before = next last before :=
      Reader.bind_ok (peek_ok ends.found)
    have nothing : Parser.primary whole before.progress =
        Parser.giveUp (.missingPhrase "expression") before.progress := by
      simp only [Parser.primary, Parser.bind_apply, Parser.peek?, ends.rest, List.head?_nil,
        Option.bind_none]
    have stops (fuel : Nat) : Cursor.primary (fuel + 1) before =
        (Cursor.giveUp (.missingPhrase "expression") : Reader Expr) before := by
      rw [Cursor.primary]
      simp [ends.accept_bind, ends.acceptAny?_bind, peeked, ends.kind]
    obtain ⟨after, gave, same⟩ := giveUp (.missingPhrase "expression") before inside few
    unfold Agrees
    rw [nothing]
    exact ⟨after, gave.of_eq stops, same⟩
  · have length := here.length
    have starts := primaryOf (inner before.next.progress.rest.length (by omega)) token
    have ran := primary_at here
    have parsed := primary_progress whole here
    generalize Cursor.primaryOf? token = rule, Parser.primaryOf? whole token = parser
      at starts ran parsed
    unfold Agrees
    rw [parsed]
    cases starts with
    | none =>
      obtain ⟨after, gave, same⟩ := giveUp (.missingPhrase "expression") before inside few
      exact ⟨after, gave.of_eq ran, same⟩
    | some follows =>
      obtain ⟨after, ran', same, leads, read⟩ := follows before.next here.inside le_rfl
      refine ⟨after, ran'.of_eq ran, same, here.leads.trans leads, fun value given => ?_⟩
      have := read value given
      omega

/-- The signs in front of an operand one at a time. -/
theorem unary_succ (signs : Nat) : (do
      let operators ← Parser.signs (signs + 1)
      return operators.foldr Expr.unary (← Parser.call bound whole) : Parser Expr) =
    Parser.acceptAny? [.symbol .bang, .symbol .minus] >>= fun
      | some operator => (do
          let operators ← Parser.signs signs
          return operators.foldr Expr.unary (← Parser.call bound whole)) >>= fun operand =>
            Pure.pure (.unary operator operand)
      | none => Parser.call bound whole := by
  funext before
  simp only [Parser.signs, Parser.bind_apply]
  rcases Parser.acceptAny? [.symbol .bang, .symbol .minus] before with ⟨fault | _ | operator, after⟩
  · rfl
  · simp only [Parser.pure_apply]
    rcases Parser.call bound whole after with ⟨_ | _, _⟩ <;> rfl
  · simp only [Parser.bind_apply]
    rcases Parser.signs signs after with ⟨_ | operators, middle⟩
    · rfl
    · simp only [Parser.pure_apply]
      rcases Parser.call bound whole middle with ⟨_ | _, _⟩ <;> rfl

theorem unary (inner : ∀ smaller < size, Follows smaller 1 Cursor.expression whole)
    (few : size ≤ bound) : Follows size 1 Cursor.unary (Parser.unary bound whole) := by
  have call {size : Nat} (inner : ∀ smaller < size, Follows smaller 1 Cursor.expression whole)
      (few : size ≤ bound) :
      Follows size 1 (fun fuel => Cursor.primary fuel >>= fun expr => Cursor.postfixes fuel expr)
        (Parser.call bound whole) :=
    (primary inner).before fun expr => postfixes expr inner few
  suffices follows : ∀ signs size, (∀ smaller < size, Follows smaller 1 Cursor.expression whole) →
      size ≤ bound → size ≤ signs → Follows size 1 Cursor.unary (do
        let operators ← Parser.signs signs
        return operators.foldr Expr.unary (← Parser.call bound whole)) from
    follows bound size inner few few
  -- The one rule has the signs as a loop, the other one as a recursion, so the loop is unrolled.
  intro signs
  induction signs with
  | zero =>
    intro size inner few none
    obtain rfl := Nat.le_zero.mp none
    have unsigned : (do
        let operators ← Parser.signs 0
        return operators.foldr Expr.unary (← Parser.call bound whole)) =
          Parser.call bound whole := by
      funext before
      simp only [Parser.signs, Parser.bind_apply, Parser.pure_apply]
      rcases Parser.call bound whole before with ⟨_ | _, _⟩ <;> rfl
    rw [unsigned]
    refine .fueled rfl ?_
    simp only [Cursor.unary]
    exact .ended (call inner few)
  | succ signs ih =>
    intro size inner few enough
    rw [unary_succ]
    refine .fueled rfl ?_
    simp only [Cursor.unary]
    refine .choose (fun operator smaller fewer => ?_) (call inner few)
    have operand := ih smaller (fun least below => inner least (below.trans fewer)) (by omega)
      (by omega)
    exact (operand.map _).fewer le_rfl (Nat.zero_le _)

theorem disjunction (inner : ∀ smaller < size, Follows smaller 1 Cursor.expression whole)
    (few : size ≤ bound) :
    Follows size 1 (Cursor.chained · .disjunction) (Parser.disjunction bound whole) := by
  have unary : Follows size 1 (operand · .factor) (Parser.unary bound whole) :=
    .fueled rfl (unary inner few)
  have factor : Follows size 1 (operand · .term) (Parser.factor bound whole) :=
    .fueled rfl (chained .factor unary few)
  have term : Follows size 1 (operand · .comparison) (Parser.term bound whole) :=
    .fueled rfl (chained .term factor few)
  have comparison : Follows size 1 (operand · .equality) (Parser.comparison bound whole) :=
    .fueled rfl (chained .comparison term few)
  have equality : Follows size 1 (operand · .conjunction) (Parser.equality bound whole) :=
    .fueled rfl (chained .equality comparison few)
  have conjunction : Follows size 1 (operand · .disjunction) (Parser.conjunction bound whole) :=
    .fueled rfl (chained .conjunction equality few)
  exact chained .disjunction conjunction few

theorem expression {size : Nat} (bound : Nat) (few : size ≤ bound) :
    Follows size 1 Cursor.expression (Parser.expression bound) := by
  induction size using Nat.strongRecOn generalizing bound with
  | ind size ih =>
    have inner (smaller : Nat) (fewer : smaller < size) :
        Follows smaller 1 Cursor.expression (Parser.expression bound) :=
      ih smaller fewer bound (by omega)
    suffices follows : Follows size 1 Cursor.expression (Parser.expression (bound + 1)) from
      follows.same (Parser.expression_same bound few)
    refine .fueled rfl ?_
    simp only [Cursor.expression]
    exact (disjunction inner (few.trans (Nat.le_succ _))).before fun target =>
      .choose (fun equals smaller fewer => (inner smaller fewer).after fun value =>
        assignTo target equals value) (.pure target)

end Expressions

end Follows

/-! ### Statements -/

/-- What the rules of statements are made of, with a bound that is never met. -/
structure Parser.Rules.Followed (size : Nat) (rules : Parser.Rules) : Prop where
  enough : size ≤ rules.bound
  expression : Follows size 1 Cursor.expression rules.expression
  statement : Follows size 1 Cursor.statement rules.statement
  declaration : Follows size 1 Cursor.declaration rules.declaration

theorem Parser.Rules.Followed.fewer {size smaller : Nat} {rules : Parser.Rules}
    (followed : rules.Followed size) (below : smaller ≤ size) : rules.Followed smaller where
  enough := below.trans followed.enough
  expression := followed.expression.fewer below le_rfl
  statement := followed.statement.fewer below le_rfl
  declaration := followed.declaration.fewer below le_rfl

namespace Follows

open Cursor

variable {α β : Type} {size least bound : Nat} {kind : Kind} {rules : Parser.Rules}

theorem listedParams (few : size ≤ bound) : Follows size 0 (Cursor.listedParams ·)
    (Parser.listed bound "parameters" (Parser.expectName "parameter name")) :=
  (check _).before fun none => .ite (.pure [])
    (separated "parameters" (fun _ => rfl) (fun _ _ => rfl) 0 (expectName _) few) none

/-- Both tests come before each turn of a loop, in whichever order. -/
theorem turn {yes no : Nat → Reader β} {yes' no' : Parser β} (stops : Follows size least yes yes')
    (goes : Follows size least no no') :
    Follows size least
      (fun fuel => Cursor.check kind >>= fun closed => if closed = true then yes fuel else
        Cursor.isAtEnd >>= fun ended => if ended = true then yes fuel else no fuel)
      (Parser.atEnd >>= fun ended => if ended = true then yes' else
        Parser.sees kind >>= fun closed => if closed = true then yes' else no') := by
  intro before inside few
  obtain ⟨last, ends⟩ | ⟨token, here⟩ := inside.cases
  · have ended : Parser.atEnd before.progress = (.ok true, before.progress) := by
      rw [Parser.atEnd, ends.rest]
      rfl
    refine .look (.look ?_ ends.isAtEnd) (ends.check kind)
    unfold Agrees
    rw [Parser.bind_apply, ended]
    exact stops before inside few
  · have going : Parser.atEnd before.progress = (.ok false, before.progress) := by
      rw [Parser.atEnd, here.rest]
      rfl
    have sees : Parser.sees kind before.progress =
        (.ok (token.kind = kind : Bool), before.progress) := by
      rw [Parser.sees, here.rest]
    refine .look ?_ (here.check kind)
    unfold Agrees
    rw [Parser.bind_apply, going]
    simp only [Bool.false_eq_true, if_false]
    rw [Parser.bind_apply, sees]
    by_cases closed : token.kind = kind
    · simp only [closed, decide_true, if_true]
      exact stops before inside few
    · simp only [closed, decide_false, Bool.false_eq_true, if_false]
      exact (goes before inside few).look here.isAtEnd

/-- With no token left neither test lets a loop go on. -/
theorem turned {yes no : Nat → Reader β} {stopped : Parser β}
    (stops : Follows 0 least yes stopped) :
    Follows 0 least
      (fun fuel => Cursor.check kind >>= fun closed => if closed = true then yes fuel else
        Cursor.isAtEnd >>= fun ended => if ended = true then yes fuel else no fuel) stopped := by
  intro before inside none
  obtain ⟨last, ends⟩ | ⟨token, here⟩ := inside.cases
  · exact .look (.look (stops before inside none) ends.isAtEnd) (ends.check _)
  · have := here.length
    omega

theorem declarations {declaration : Parser (Option Stmt)}
    (inner : Follows size 1 Cursor.declaration declaration) (few : size ≤ bound) :
    Follows size 0 Cursor.declarations
      (Parser.declarations declaration (Parser.sees (.symbol .rightBrace)) bound) := by
  induction bound generalizing size with
  | zero =>
    obtain rfl := Nat.le_zero.mp few
    refine .fueled rfl ?_
    simp only [Cursor.declarations]
    exact turned (.pure [])
  | succ bound ih =>
    have later := ih (inner.fewer (Nat.sub_le size 1) le_rfl) (by omega)
    refine .fueled rfl ?_
    simp only [Cursor.declarations]
    exact turn (.pure []) ((inner.bind fun _ => later.before fun _ => .pure _).fewer le_rfl
      (Nat.zero_le _))

theorem block (followed : rules.Followed size) :
    Follows size 0 Cursor.block (Parser.block rules) := by
  refine .fueled rfl ?_
  simp only [Cursor.block]
  exact (declarations followed.declaration followed.enough).before fun _ =>
    (expect _ _).after fun _ => .pure _

theorem function (followed : rules.Followed size) (role : String) :
    Follows size 1 (Cursor.function · role) (Parser.function rules role) := by
  refine .fueled rfl ?_
  simp only [Cursor.function]
  exact (expectName _).before fun _ => (expect _ _).after fun _ =>
    (listedParams followed.enough).before fun _ => (expect _ _).after fun _ =>
    (expect _ _).after fun _ => (block followed).before fun _ => .pure _

theorem methods (followed : rules.Followed size) (few : size ≤ bound) :
    Follows size 0 Cursor.methods (Parser.methods rules bound) := by
  induction bound generalizing size with
  | zero =>
    obtain rfl := Nat.le_zero.mp few
    refine .fueled rfl ?_
    simp only [Cursor.methods]
    exact turned (.pure [])
  | succ bound ih =>
    have later := ih (followed.fewer (Nat.sub_le size 1)) (by omega)
    refine .fueled rfl ?_
    simp only [Cursor.methods]
    exact turn (.pure []) (((function followed "method").bind fun _ => later.before fun _ =>
      .pure _).fewer le_rfl (Nat.zero_le _))

theorem classDeclaration (followed : rules.Followed size) :
    Follows size 0 Cursor.classDeclaration (Parser.classDeclaration rules) := by
  have inherits : Follows size 0 (fun _ => Cursor.superclass) Parser.superclass :=
    .choice (fun _ _ => (expectName _).after fun name => (reference name).before fun _ => .pure _)
      (.pure none)
  refine .fueled rfl ?_
  simp only [Cursor.classDeclaration]
  exact (expectName _).after fun _ => inherits.before fun _ => (expect _ _).after fun _ =>
    (methods followed followed.enough).before fun _ => (expect _ _).after fun _ => .pure _

theorem varDeclaration (followed : rules.Followed size) :
    Follows size 0 Cursor.varDeclaration (Parser.varDeclaration rules) :=
  (expectName _).after fun _ => .option
    (fun _ below => followed.expression.fewer below.le le_rfl) fun _ =>
    (expect _ _).after fun _ => .pure _

theorem expressionStatement (inner : Follows size 1 Cursor.expression rules.expression) :
    Follows size 1 Cursor.expressionStatement (Parser.expressionStatement rules) :=
  inner.before fun _ => (expect _ _).after fun _ => .pure _

theorem printStatement (followed : rules.Followed size) :
    Follows size 0 Cursor.printStatement (Parser.printStatement rules) :=
  followed.expression.after fun _ => (expect _ _).after fun _ => .pure _

theorem optionalUnless (followed : rules.Followed size) (closing : Symbol) :
    Follows size 0 (Cursor.optionalUnless · closing) (Parser.optionalUnless rules closing) :=
  (check _).before fun none => .ite (.pure _)
    ((followed.expression.map some).fewer le_rfl (Nat.zero_le _)) none

theorem returnStatement (followed : rules.Followed size) (keyword : Token) :
    Follows size 0 (Cursor.returnStatement · keyword) (Parser.returnStatement rules keyword) :=
  (optionalUnless followed _).before fun _ => (expect _ _).after fun _ => .pure _

theorem ifStatement (followed : rules.Followed size) :
    Follows size 0 Cursor.ifStatement (Parser.ifStatement rules) := by
  refine .fueled rfl ?_
  simp only [Cursor.ifStatement]
  exact (expect _ _).after fun _ => followed.expression.after fun _ => (expect _ _).after fun _ =>
    followed.statement.after fun _ => .option
      (fun _ below => followed.statement.fewer below.le le_rfl) fun _ => .pure _

theorem whileStatement (followed : rules.Followed size) :
    Follows size 0 Cursor.whileStatement (Parser.whileStatement rules) := by
  refine .fueled rfl ?_
  simp only [Cursor.whileStatement]
  exact (expect _ _).after fun _ => followed.expression.after fun _ => (expect _ _).after fun _ =>
    followed.statement.after fun _ => .pure _

theorem forInitializer (followed : rules.Followed size) :
    Follows size 0 Cursor.forInitializer (Parser.forInitializer rules) :=
  .choice (fun _ _ => .pure _) (.choice
    (fun _ below => (varDeclaration (followed.fewer below.le)).map some)
    (((expressionStatement followed.expression).map some).fewer le_rfl (Nat.zero_le _)))

theorem forStatement (followed : rules.Followed size) :
    Follows size 0 Cursor.forStatement (Parser.forStatement rules) := by
  refine .fueled rfl ?_
  simp only [Cursor.forStatement]
  exact (expect _ _).after fun _ => (forInitializer followed).before fun _ =>
    (optionalUnless followed _).before fun _ => (expect _ _).after fun _ =>
    (optionalUnless followed _).before fun _ => (expect _ _).after fun _ =>
    followed.statement.after fun _ => .pure _

section Rules

variable (below : ∀ smaller < size, rules.Followed smaller)
  (inner : Follows size 1 Cursor.expression rules.expression)
include below inner

theorem anyStatement : Follows size 1 Cursor.statement (Parser.anyStatement rules) := by
  refine .fueled rfl ?_
  simp only [Cursor.statement]
  exact .choice (fun _ few => forStatement (below _ few)) <|
    .choice (fun _ few => ifStatement (below _ few)) <|
    .choice (fun _ few => whileStatement (below _ few)) <|
    .choose (fun keyword _ few => returnStatement (below _ few) keyword) <|
    .choice (fun _ few => (block (below _ few)).before fun _ => .pure _) <|
    .choice (fun _ few => printStatement (below _ few)) <| expressionStatement inner

theorem anyDeclaration : Follows size 1 Cursor.anyDeclaration (Parser.anyDeclaration rules) := by
  refine .fueled rfl ?_
  simp only [Cursor.anyDeclaration]
  exact .choice (fun _ few => classDeclaration (below _ few)) <|
    .choice (fun _ few => ((function (below _ few) "function").before fun _ => .pure _).fewer
      le_rfl (Nat.zero_le _)) <|
    .choice (fun _ few => varDeclaration (below _ few)) <| anyStatement below inner

end Rules

/-! ### Recovery -/

theorem skipOn_ok {cursor : Cursor} {previous : Token} (inside : cursor.Inside)
    (found : cursor.tokens[cursor.current - 1]? = some previous) :
    ∃ after, Reader.Ends skipOn cursor (.ok ()) after ∧ cursor.Leads after ∧
      after.progress =
        { cursor.progress with rest := Parser.resync previous cursor.progress.rest } := by
  -- Every turn that goes on has moved past a token, so the loop is over when none are left.
  induction left : cursor.progress.rest.length generalizing cursor previous with
  | zero =>
    obtain ⟨last, ends⟩ | ⟨token, here⟩ := inside.cases
    · have looks (fuel : Nat) : skipOn (fuel + 1) cursor = (Pure.pure () : Reader Unit) cursor := by
        rw [skipOn, Reader.bind_ok ends.isAtEnd, if_pos rfl]
      refine ⟨cursor, .fueled rfl (.of_eq (.now rfl) looks), .refl inside, ?_⟩
      rw [ends.rest, Parser.resync, ← ends.rest]
    · rw [here.length] at left
      cases left
  | succ size ih =>
    obtain ⟨last, ends⟩ | ⟨token, here⟩ := inside.cases
    · rw [ends.rest] at left
      cases left
    · have whole : { cursor.progress with rest := token :: cursor.next.progress.rest } =
          cursor.progress := by
        rw [← here.rest]
      have looks (fuel : Nat) : skipOn (fuel + 1) cursor =
          (if previous.kind = .symbol .semicolon then Pure.pure ()
            else if token.kind ∈ Parser.openers then Pure.pure ()
            else advance >>= fun _ => skipOn fuel : Reader Unit) cursor := by
        rw [skipOn, Reader.bind_ok here.isAtEnd, if_neg Bool.false_ne_true,
          Reader.bind_ok (previous_ok found)]
        split
        · rfl
        · rw [Reader.bind_ok (peek_ok here.found)]
      by_cases separated : previous.kind = .symbol .semicolon
      · simp only [separated, if_true] at looks
        refine ⟨cursor, .fueled rfl (.of_eq (.now rfl) looks), .refl inside, ?_⟩
        rw [here.rest, Parser.resync, if_pos separated, whole]
      · by_cases opens : token.kind ∈ Parser.openers
        · simp only [separated, opens, if_true, if_false] at looks
          refine ⟨cursor, .fueled rfl (.of_eq (.now rfl) looks), .refl inside, ?_⟩
          rw [here.rest, Parser.resync, if_neg separated, if_pos opens, whole]
        · simp only [separated, opens, if_false] at looks
          rw [here.length] at left
          obtain ⟨after, ran, leads, same⟩ := ih here.inside here.found (Nat.succ.inj left)
          refine ⟨after, .fueled rfl (.of_eq ((Reader.Ends.now here.advance).bind_ok ran) looks),
            here.leads.trans leads, ?_⟩
          rw [same, here.rest, Parser.resync, if_neg separated, if_neg opens]
          rfl

theorem recovered_ok {cursor : Cursor} (inside : cursor.Inside) (fault : Fault) :
    ∃ after, Reader.Ends (recovered · fault) cursor (.ok none) after ∧ cursor.Leads after ∧
      after.progress = Parser.recover fault cursor.progress := by
  have noted := Leads.noted inside cursor.nextId (cursor.faults ++ [fault])
  have recorded : Reader.Ends (fun _ => Cursor.record fault) cursor (.ok ())
      { cursor with faults := cursor.faults ++ [fault] } := .now rfl
  have rest : cursor.progress.rest =
    ({ cursor with faults := cursor.faults ++ [fault] } : Cursor).progress.rest := rfl
  obtain ⟨last, ends⟩ | ⟨token, here⟩ := noted.inside.cases
  · obtain ⟨previous, found⟩ := ends.previous
    obtain ⟨_, advanced⟩ := ends.advance
    obtain ⟨after, ran, leads, same⟩ := skipOn_ok noted.inside found
    refine ⟨after, ?_, noted.trans leads, ?_⟩
    · exact recorded.bind_ok (((Reader.Ends.now advanced).bind_ok ran).bind_ok (.now rfl))
    · rw [same, Parser.recover, rest, ends.rest]
      rfl
  · obtain ⟨after, ran, leads, same⟩ := skipOn_ok here.inside here.found
    refine ⟨after, ?_, noted.trans (here.leads.trans leads), ?_⟩
    · exact recorded.bind_ok (((Reader.Ends.now here.advance).bind_ok ran).bind_ok (.now rfl))
    · rw [same, Parser.recover, rest, here.rest]
      rfl

theorem declaration_ok {before after : Cursor} {stmt : Stmt}
    (ran : Reader.Ends Cursor.anyDeclaration before (.ok stmt) after) :
    Reader.Ends Cursor.declaration before (.ok (some stmt)) after := by
  have given : Reader.Ends (fun fuel => some <$> Cursor.anyDeclaration fuel) before
      (.ok (some stmt)) after := by
    simp only [← bind_pure_comp]
    exact ran.bind_ok (.now rfl)
  exact .fueled rfl given.catch_ok

theorem declaration_fault {before middle after : Cursor} {fault : Fault}
    {outcome : Except Fault (Option Stmt)}
    (ran : Reader.Ends Cursor.anyDeclaration before (.error fault) middle)
    (recovers : Reader.Ends (recovered · fault) middle outcome after) :
    Reader.Ends Cursor.declaration before outcome after := by
  have gave : Reader.Ends (fun fuel => some <$> Cursor.anyDeclaration fuel) before
      (.error fault) middle := by
    simp only [← bind_pure_comp]
    exact ran.bind_fault
  exact .fueled rfl (gave.catch_fault recovers)

/-- Read or not, a declaration leaves fewer tokens. -/
theorem recovering {parser : Parser Stmt} {other : Parser (Option Stmt)}
    (follows : Follows size 1 Cursor.anyDeclaration parser)
    (same : Parser.SameUpTo size 1 (Parser.recovering parser) other) :
    Follows size 1 Cursor.declaration other := by
  suffices follows : Follows size 1 Cursor.declaration (Parser.recovering parser) from
    follows.same same
  intro before inside few
  obtain ⟨middle, ran, rest, leads, -⟩ := follows before inside few
  obtain ⟨-, -, fewer⟩ := same before.progress few
  unfold Agrees
  rcases parsed : parser before.progress with ⟨fault | stmt, progress⟩ <;>
    rw [parsed] at ran rest <;> obtain rfl : progress = middle.progress := rest
  · have given : Parser.recovering parser before.progress =
        (.ok none, Parser.recover fault middle.progress) := by rw [Parser.recovering, parsed]
    obtain ⟨after, recovers, further, same⟩ := recovered_ok leads.inside fault
    rw [given, ← same] at fewer ⊢
    exact ⟨after, declaration_fault ran recovers, rfl, leads.trans further,
      fun value _ => fewer none rfl⟩
  · have given : Parser.recovering parser before.progress = (.ok (some stmt), middle.progress) := by
      rw [Parser.recovering, parsed]
    rw [given] at fewer ⊢
    exact ⟨middle, declaration_ok ran, rfl, leads, fun value _ => fewer (some stmt) rfl⟩

theorem statement_declaration {size : Nat} (bound : Nat) (few : size ≤ bound) :
    Follows size 1 Cursor.statement (Parser.statement bound) ∧
      Follows size 1 Cursor.declaration (Parser.declaration bound) := by
  -- On how many tokens are left: a statement or declaration inside of another one comes after a
  -- token at least. The bound goes down by one each time, which `fewer` makes good.
  induction size using Nat.strongRecOn generalizing bound with
  | ind size ih =>
    have inner := expression (bound + 1) (few.trans (Nat.le_succ _))
    have below (smaller : Nat) (fewer : smaller < size) :
        (Parser.rulesAt bound).Followed smaller := by
      obtain ⟨statement, declaration⟩ := ih smaller fewer bound (by omega)
      refine ⟨?_, inner.fewer fewer.le le_rfl, statement, declaration⟩
      exact (fewer.le.trans few).trans (Nat.le_succ bound)
    obtain ⟨statement, declaration⟩ := Parser.statement_declaration_same bound few
    exact ⟨(anyStatement below inner).same statement,
      recovering (anyDeclaration below inner) declaration⟩

/-! ### Programs -/

theorem program {declaration : Parser (Option Stmt)}
    (inner : Follows size 1 Cursor.declaration declaration) (few : size ≤ bound) :
    Follows size 0 Cursor.program
      (Parser.declarations declaration (Pure.pure false) bound) := by
  induction bound generalizing size with
  | zero =>
    refine .fueled rfl fun before inside none => ?_
    simp only [Cursor.program]
    obtain ⟨last, ends⟩ | ⟨token, here⟩ := inside.cases
    · exact (Follows.pure [] before inside none).look ends.isAtEnd
    · have := here.length
      omega
  | succ bound ih =>
    have later := ih (inner.fewer (Nat.sub_le size 1) le_rfl) (by omega)
    refine .fueled rfl ?_
    simp only [Cursor.program]
    exact isAtEnd.before fun ended => .ite (.pure []) ((inner.bind fun _ => later.before fun _ =>
      .pure _).fewer le_rfl (Nat.zero_le _)) ended

end Follows

end Lox.Tree
