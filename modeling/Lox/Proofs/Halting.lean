import Lox.Proofs.Followed

/-! Parsing comes to an end on every list of tokens, never looks behind the first end, and gives
what the tokens up to there give. -/

namespace Lox.Tree

open Cursor

variable {tokens : List Token}

/-- The tokens up to the first end, and the end itself. -/
def upToEnd (tokens : List Token) : List Token := tokens.take (firstEnd tokens + 1)

/-! ### Starts -/

/-- What is added is an end, and only where none stands last. -/
theorem stored_eq (tokens : List Token) :
    stored tokens = tokens ∧ (∃ last ∈ tokens, last.kind = .eof) ∨
      stored tokens = tokens ++ [.eof ((tokens.getLast?.map Token.line).getD 1)] := by
  unfold stored
  cases given : tokens.getLast? with
  | none =>
    rw [List.getLast?_eq_none_iff.mp given]
    exact .inr rfl
  | some last =>
    dsimp only
    split
    · rename_i ended
      exact .inl ⟨rfl, last, List.mem_of_getLast? given, ended⟩
    · exact .inr rfl

theorem firstEnd_lt (tokens : List Token) : firstEnd (stored tokens) < (stored tokens).length := by
  apply List.findIdx_lt_length_of_exists
  obtain ⟨same, last, member, ended⟩ | same := stored_eq tokens <;> rw [same]
  · exact ⟨last, member, by simpa using ended⟩
  · exact ⟨_, List.mem_append_right _ (List.mem_singleton_self _), rfl⟩

theorem takeWhile_firstEnd (tokens : List Token) :
    tokens.takeWhile (·.kind ≠ .eof) = tokens.take (firstEnd tokens) := by
  rw [List.takeWhile_eq_take_findIdx_not]
  simp [firstEnd]

theorem takeWhile_stored (tokens : List Token) :
    (stored tokens).takeWhile (·.kind ≠ .eof) = tokens.takeWhile (·.kind ≠ .eof) := by
  obtain ⟨same, -⟩ | same := stored_eq tokens <;> rw [same]
  generalize (tokens.getLast?.map Token.line).getD 1 = line at same ⊢
  clear same
  induction tokens with
  | nil => rfl
  | cons token tokens ih =>
    rw [List.cons_append, List.takeWhile_cons, List.takeWhile_cons, ih]

theorem lastLine_stored (tokens : List Token) : lastLine (stored tokens) = lastLine tokens := by
  obtain ⟨same, -⟩ | same := stored_eq tokens <;> rw [same]
  unfold lastLine
  rw [List.find?_append]
  cases tokens.find? (·.kind = .eof) <;> rfl

theorem start_inside (tokens : List Token) (firstId : Nat) : (start tokens firstId).Inside where
  ended := firstEnd_lt tokens
  before := Nat.zero_le _
  trail place member := by
    rw [List.mem_singleton.mp member]
    exact Nat.zero_le _

theorem start_progress (tokens : List Token) (firstId : Nat) :
    (start tokens firstId).progress = Progress.start tokens firstId := by
  simp only [progress, start, ← takeWhile_firstEnd, takeWhile_stored, List.drop_zero,
    lastLine_stored, Progress.start]

/-! ### The parse -/

/-- A declaration comes to an end, and further on if there is a token to be read. -/
theorem declaration_ends {before : Cursor} (inside : before.Inside) :
    ∃ found after, Reader.Ends Cursor.declaration before (.ok found) after ∧
      before.Leads after ∧
      (before.current < firstEnd before.tokens → before.current < after.current) := by
  have follows := (Follows.statement_declaration before.progress.rest.length le_rfl).2
  obtain ⟨after, ran, -, leads, fewer⟩ := follows before inside le_rfl
  obtain ⟨found, given⟩ : ∃ found,
      (Parser.declaration before.progress.rest.length before.progress).1 = .ok found := by
    have always (rule : Parser Stmt) (progress : Progress) :
        ∃ found, (Parser.recovering rule progress).1 = .ok found := by
      unfold Parser.recovering
      rcases rule progress with ⟨fault | stmt, _⟩
      · exact ⟨none, rfl⟩
      · exact ⟨some stmt, rfl⟩
    cases before.progress.rest.length <;> exact always _ _
  have fewer := fewer found given
  rw [given] at ran
  refine ⟨found, after, ran, leads, fun going => ?_⟩
  rw [length_rest inside, length_rest leads.inside, leads.tokens] at fewer
  omega

/-- A program is read up to the end. -/
theorem program_ends {before : Cursor} (inside : before.Inside) :
    ∃ found after, Reader.Ends Cursor.program before (.ok found) after ∧ before.Leads after ∧
      after.current = firstEnd before.tokens := by
  -- On how far the first end is: each declaration comes nearer to it, recovered from or not.
  induction left : firstEnd before.tokens - before.current using Nat.strongRecOn
    generalizing before with
  | ind left ih =>
    obtain ⟨last, ends⟩ | ⟨token, here⟩ := inside.cases
    · have none := length_rest inside
      rw [ends.rest] at none
      have stops (fuel : Nat) : Cursor.program (fuel + 1) before =
          (pure [] : Reader (List Stmt)) before := by
        rw [Cursor.program, Reader.bind_ok ends.isAtEnd, if_pos rfl]
      refine ⟨[], before, .fueled rfl (.of_eq (.now rfl) stops), .refl inside, ?_⟩
      exact inside.before.antisymm (Nat.le_of_sub_eq_zero none.symm)
    · have going : before.current < firstEnd before.tokens := here.inside.before
      obtain ⟨first, middle, ran, leads, further⟩ := declaration_ends inside
      have further := further going
      obtain ⟨others, after, ran', leads', last⟩ :=
        ih (firstEnd middle.tokens - middle.current) (by rw [leads.tokens]; omega) leads.inside rfl
      have goes (fuel : Nat) : Cursor.program (fuel + 1) before = (do
          let first ← Cursor.declaration fuel
          return first.toList ++ (← Cursor.program fuel) : Reader (List Stmt)) before := by
        rw [Cursor.program, Reader.bind_ok here.isAtEnd, if_neg Bool.false_ne_true]
      refine ⟨first.toList ++ others, after, .fueled rfl (.of_eq ?_ goes), leads.trans leads', ?_⟩
      · exact ran.bind_ok (ran'.bind_ok (.now rfl))
      · rw [last, leads.tokens]

theorem parse_of_program {before after : Cursor} {found : List Stmt}
    (ran : Reader.Ends Cursor.program before (.ok found) after) :
    Reader.Ends Cursor.parse before
      (.ok (if after.faults.isEmpty then .ok found else .error after.faults)) after := by
  have here : Reader.Ends (fun _ => (get : Reader Cursor)) after (.ok after) after := .now rfl
  refine ran.bind_ok (here.bind_ok (.now ?_))
  cases after.faults.isEmpty <;> rfl

theorem parse_follows (tokens : List Token) (firstId : Nat) :
    ∃ result after, Reader.Ends Cursor.parse (start tokens firstId) (.ok result) after ∧
      parse tokens firstId = ⟨result, after.nextId⟩ ∧ (start tokens firstId).Leads after ∧
      after.current = firstEnd (stored tokens) := by
  have inside := start_inside tokens firstId
  obtain ⟨program, after, ran, leads, last⟩ := program_ends inside
  have follows := Follows.program
    (Follows.statement_declaration (start tokens firstId).progress.rest.length le_rfl).2 le_rfl
  obtain ⟨after', ran', same, -, -⟩ := follows _ inside le_rfl
  obtain ⟨given, rfl⟩ := ran.unique ran'
  have parsed : Parser.program (Progress.start tokens firstId).rest.length
      (Progress.start tokens firstId) = (.ok program, after.progress) := by
    rw [← start_progress]
    exact Prod.ext given.symm same
  have ends := parse_of_program ran
  cases faults : after.faults with
  | nil =>
    rw [faults] at ends
    refine ⟨.ok program, after, ends, ?_, leads, last⟩
    · have none : after.progress.faults = [] := faults
      simp only [parse, parsed, none]
      rfl
  | cons fault others =>
    rw [faults] at ends
    refine ⟨.error (fault :: others), after, ends, ?_, leads, last⟩
    · have some : after.progress.faults = fault :: others := faults
      simp only [parse, parsed, some]
      rfl

theorem firstEnd_upToEnd (tokens : List Token) : firstEnd (upToEnd tokens) = firstEnd tokens := by
  rw [upToEnd, firstEnd, List.findIdx_take]
  exact Nat.min_eq_right (Nat.le_succ _)

theorem lastLine_upToEnd (ended : firstEnd tokens < tokens.length) :
    lastLine (upToEnd tokens) = lastLine tokens := by
  have ended' : firstEnd (upToEnd tokens) < (upToEnd tokens).length := by
    rw [firstEnd_upToEnd, upToEnd, List.length_take]
    omega
  obtain ⟨last, found, -, line⟩ := getElem?_firstEnd ended
  obtain ⟨last', found', -, line'⟩ := getElem?_firstEnd ended'
  rw [firstEnd_upToEnd, upToEnd, List.getElem?_take_of_lt (Nat.lt_succ_self _), found] at found'
  rw [line, line', Option.some.inj found']

theorem takeWhile_upToEnd (tokens : List Token) :
    (upToEnd tokens).takeWhile (·.kind ≠ .eof) = tokens.takeWhile (·.kind ≠ .eof) := by
  rw [takeWhile_firstEnd, takeWhile_firstEnd, firstEnd_upToEnd, upToEnd, List.take_take,
    Nat.min_eq_left (Nat.le_succ _)]

/-- What stands behind the first end is never looked at. -/
theorem start_upToEnd (tokens : List Token) (firstId : Nat) :
    Progress.start tokens firstId = Progress.start (upToEnd (stored tokens)) firstId := by
  unfold Progress.start
  rw [takeWhile_upToEnd, takeWhile_stored, lastLine_upToEnd (firstEnd_lt tokens), lastLine_stored]

/-- The parser with an index comes to an end on every list of tokens, with what the other one gives,
and its places are all in front of the first end or there. Wherever a declaration is to be read and
there is a token, it comes to an end further on. The rest of the tokens makes no difference. -/
theorem parse_ends :
    (∀ tokens firstId, ∃ result after,
      Reader.Ends Cursor.parse (start tokens firstId) (.ok result) after ∧
      parse tokens firstId = ⟨result, after.nextId⟩ ∧
      after.tokens = stored tokens ∧ firstEnd (stored tokens) < (stored tokens).length ∧
      after.current = firstEnd (stored tokens) ∧
      ∀ place ∈ after.trail, place ≤ firstEnd (stored tokens)) ∧
    (∀ before : Cursor, before.Inside → before.current < firstEnd before.tokens →
      ∃ found after, Reader.Ends Cursor.declaration before (.ok found) after ∧
        before.current < after.current ∧ after.tokens = before.tokens ∧ after.Inside) ∧
    ∀ tokens others firstId, upToEnd (stored tokens) = upToEnd (stored others) →
      parse tokens firstId = parse others firstId := by
  refine ⟨fun tokens firstId => ?_, fun before inside going => ?_,
    fun tokens others firstId same => ?_⟩
  · obtain ⟨result, after, ran, same, leads, last⟩ := parse_follows tokens firstId
    have trail := leads.inside.trail
    rw [leads.tokens] at trail
    exact ⟨result, after, ran, same, leads.tokens, firstEnd_lt tokens, last, trail⟩
  · obtain ⟨found, after, ran, leads, further⟩ := declaration_ends inside
    exact ⟨found, after, ran, further going, leads.tokens, leads.inside⟩
  · rw [parse, parse, start_upToEnd tokens, start_upToEnd others, same]

/-- A parenthesis that closes nothing, and an end with more after it. -/
theorem parse_ends_of_paren :
    let tokens : List Token := [⟨.symbol .rightParen, ")", 1⟩, ⟨.symbol .semicolon, ";", 1⟩,
      .eof 1, ⟨.keyword .print, "print", 2⟩]
    (∃ found after, Reader.Ends Cursor.declaration (start tokens 0) (.ok found) after ∧
      0 < after.current ∧ after.current ≤ 2) ∧
    parse tokens 0 = parse (tokens.take 3) 0 := by
  intro tokens
  obtain ⟨-, further, same⟩ := parse_ends
  refine ⟨?_, same _ _ 0 (by decide +kernel)⟩
  obtain ⟨found, after, ran, more, kept, inside⟩ :=
    further (start tokens 0) (start_inside tokens 0) (by decide +kernel)
  refine ⟨found, after, ran, more, inside.before.trans ?_⟩
  rw [kept]
  decide +kernel

end Lox.Tree
