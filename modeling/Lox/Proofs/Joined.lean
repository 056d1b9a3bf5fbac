import Mathlib
import Lox.Proofs.Boundaries
import Lox.Proofs.Lowered
import Lox.Proofs.Separate

/-! Two texts run as one. The second starts on a new line of the whole text, and nothing else tells
that it is not run on its own after the first. -/

namespace Lox

open Tree.Parser Grammar Machine Likeness

namespace Tree

/-! ### One parse of both -/

section Parse

variable {values more : List Stmt} {first middle next : Nat} {ts us : List Token} {final : Token}

/-- Two programs in a row are the statements of one and then those of the other, with numbers that
go on. -/
theorem parse_append {final' : Token} (unended : ∀ token ∈ ts, token.kind ≠ .eof)
    (last : final.kind = .eof) (parsed : parse (ts ++ [final]) first = ⟨.ok values, middle⟩)
    (parsed' : parse (us ++ [final']) middle = ⟨.ok more, next⟩) :
    parse (ts ++ (us ++ [final'])) first = ⟨.ok (values ++ more), next⟩ := by
  obtain ⟨parts, whole, _, read⟩ := readAs_of_parsed (congrArg Parsed.result parsed)
  obtain ⟨others, whole', each, _⟩ := readAs_of_parsed (congrArg Parsed.result parsed')
  rw [start_eq unended last first] at whole
  obtain rfl : ts = parts.flatten := whole
  rw [parsed] at read
  have clear : Clear [.keyword .else] (Progress.start (us ++ [final']) middle).rest := by
    rw [whole', ← List.append_nil others.flatten]
    exact clear_declarations (fun part member => readDeclaration (each part member)) clear_nil
  rw [parse_followed read unended (List.append_ne_nil_of_right_ne_nil _ (List.cons_ne_nil _ _)) clear,
    parsed']
  rfl

end Parse

end Tree

/-! ### Both texts before they are executed -/

namespace Session

open Source

variable {session middle : Session} {p q : String} {distances more : List (Nat × Nat)}
  {between next : Nat} {program program' : List Stmt}

theorem Readies.parse {source : String} (readies : session.Readies source distances next program) :
    Tree.parse (tokens (scan source)) session.nextId = ⟨.ok program, next⟩ := by
  have parsed := readies.parsed
  have nextId := readies.nextId
  unfold Session.parsed at parsed nextId
  rw [← parsed, ← nextId]

/-- What comes through on its own, further down, comes through as the end of a longer text. -/
theorem Readies.joined (readies : session.Readies p distances between program)
    (goes : middle.nextId = between)
    (later : middle.Readies (Source.lowered (1 + newlines p.toList) q) more next program') :
    session.Readies (p ++ "\n" ++ q) (distances ++ more) next (program ++ program') := by
  obtain ⟨before, within, first, both⟩ := scan_joined readies.scanned q
  obtain ⟨before', _, second, _⟩ := scan_joined later.scanned ""
  have one := readies.parse
  have two := later.parse
  rw [first, tokens_concat] at one
  rw [second, tokens_concat, goes] at two
  have all := Tree.parse_append (tokens_within within) rfl one two
  rw [← tokens_concat, ← second, ← tokens_append, ← both] at all
  refine ⟨congrArg Tree.Parsed.result all, congrArg Tree.Parsed.nextId all, ?_, ?_⟩
  · exact Resolution.resolve_append readies.resolved later.resolved
  · have clean := readies.scanned
    have clean' := later.scanned
    unfold lexical at clean clean' ⊢
    rw [first, faults_append] at clean
    rw [both, faults_append, clean', (List.append_eq_nil_iff.mp clean).1]
    rfl

end Session

/-! ### Distances on record -/

namespace Machine

theorem State.record_append (state : State) (table more : List (Nat × Nat)) (id : Nat) :
    (state.record (table ++ more)).distances[id]? =
      ((state.record table).record more).distances[id]? := by
  simp only [State.distances_record, List.reverse_append, List.lookup_append, Option.or_assoc]

end Machine

namespace Session

variable {session middle : Session} {p q whole : String} {distances more : List (Nat × Nat)}
  {between next : Nat} {program program' : List Stmt}

theorem Readies.ends_iff (readies : session.Readies p distances next program) (after : Session) :
    session.Ends p after ↔ ∃ steps ending,
      Machine.run steps (interpreting program (session.machine.record distances)) = some ending ∧
        (session.begun distances next).settle ending = after :=
  exists_congr fun steps => by rw [readies.run, Option.map_eq_some_iff]

/-- Where a text ends that raises nothing. -/
theorem Readies.ended (readies : session.Readies p distances between program)
    (ends : session.Ends p middle) (quiet : middle.report.faults = session.report.faults) :
    middle.nextId = between ∧ middle.report = session.report ∧ ∃ steps signal,
      Machine.run steps (interpreting program (session.machine.record distances)) =
        some (signal, middle.machine) ∧ ∀ fault, signal ≠ .failed fault := by
  obtain ⟨steps, ⟨signal, final⟩, ran, rfl⟩ := (readies.ends_iff middle).mp ends
  obtain ⟨machine, nextId⟩ := (session.begun distances between).settle_same (signal, final)
  rw [settle_report, Report.addAll_faults] at quiet
  have quiet : signal.faults = [] := List.append_right_eq_self.mp quiet
  refine ⟨nextId, ?_, steps, signal, ran.trans ?_, fun fault failed => ?_⟩
  · rw [settle_report, quiet]
    rfl
  · rw [machine]
  · rw [failed] at quiet
    cases quiet

/-- Nothing is changed, under the distances of one machine. -/
def unchanged (state : State) : Likeness := same fun id => state.distances[id]?

/-- The first text is executed as the whole is, up to where it ends. -/
theorem begins_alike (reached : Reachable Discreet (.idle session))
    (both : session.Readies whole (distances ++ more) next (program ++ program'))
    (later : ∀ entry ∈ more, between ≤ entry.1) :
    (unchanged (session.machine.record (distances ++ more))).LikeConfig
      (unmarked session.machine.store) between program'
      (interpreting program (session.machine.record distances))
      (interpreting (program ++ program') (session.machine.record (distances ++ more))) := by
  have rests := reached.honest.fits
  have itself : (unchanged (session.machine.record (distances ++ more))).LikeState
      (unmarked session.machine.store) session.nextId session.machine session.machine :=
    .refl (fun _ _ => rfl) rests.sound rests.rooted reached.discreet
      fun id below => (both.prepared.extends.distance id below).symm
  have kept : ∀ id < between, (session.machine.record distances).distances[id]? =
      (session.machine.record (distances ++ more)).distances[id]? := by
    intro id below
    rw [State.record_append, State.distances_record _ more, lookup_reverse_none, Option.none_or]
    intro entry member same
    have above := later entry member
    omega
  have state := itself.record fun id below => ⟨kept id below, rfl⟩
  exact state.interpreting rests.atGlobals (itself_like (fun _ => rfl) program)

theorem settle_unfailed {signal : Signal} (unfailed : ∀ fault, signal ≠ .failed fault)
    (session : Session) (state : State) :
    session.settle (signal, state) = session.settle (.done .nil, state) := by
  cases signal with
  | failed fault => exact absurd rfl (unfailed fault)
  | done _ | returned _ => rfl

/-- The whole text ends as the second one does from where the first one ended. -/
theorem Readies.goes_on {L : Likeness} {flags : List Bool} {records : Resolution.Records}
    {config : Config} (both : session.Readies whole distances next program)
    (fits : config.Fits records)
    (alike : L.LikeConfig flags records.next program' config
      (interpreting program (session.machine.record distances)))
    {steps : Nat} {signal : Signal} {final : State}
    (ran : Machine.run steps config = some (signal, final))
    (unfailed : ∀ fault, signal ≠ .failed fault) :
    ∃ taken flags, L.LikeState flags records.next final
        (Machine.advance taken (interpreting program (session.machine.record distances))).state ∧
      ∀ after, session.Ends whole after ↔ ∃ steps ending, Machine.run steps (interpreting program'
        (Machine.advance taken (interpreting program (session.machine.record distances))).state) =
          some ending ∧ (session.begun distances next).settle ending = after := by
  cases program' with
  | nil =>
    -- There is nothing to go on with: the whole text has ended too.
    obtain ⟨more, other, state, fine, stopped⟩ := alike.stops fits ran unfailed
    refine ⟨steps, _, state, fun after => (both.ends_iff after).trans ⟨?_, ?_⟩⟩
    · rintro ⟨others, ending, stopped', rfl⟩
      refine ⟨1, _, rfl, ?_⟩
      rw [run_unique stopped' stopped, settle_unfailed fine]
    · rintro ⟨others, ending, stopped', rfl⟩
      have at_once : Machine.run 1 (interpreting []
          (Machine.advance steps (interpreting program
            (session.machine.record distances))).state) = some (.done .nil, _) := rfl
      refine ⟨steps, _, stopped, ?_⟩
      rw [settle_unfailed fine, run_unique stopped' at_once]
  | cons s rest =>
    obtain ⟨taken, more, state, goes⟩ := alike.goes_on fits (List.cons_ne_nil _ _) ran unfailed
    refine ⟨taken, _, state, fun after => (both.ends_iff after).trans ⟨?_, ?_⟩⟩
    · rintro ⟨steps, ending, stopped, same⟩
      have still := run_more stopped taken
      rw [Nat.add_comm, goes] at still
      exact ⟨steps, ending, still, same⟩
    · rintro ⟨steps, ending, stopped, same⟩
      exact ⟨taken + steps, ending, (goes steps).trans stopped, same⟩

theorem Ends.reached {hosts : HostFunction → Prop} {after : Session} (ends : session.Ends p after)
    (reached : Reachable hosts (.idle session)) : Reachable hosts (.idle after) := by
  obtain ⟨_, ran⟩ := ends
  exact reached.later (later_of_run ran)

/-- The second text on its own ends as the whole does. -/
theorem Readies.ends_joined (reached : Reachable Discreet (.idle session))
    (readies : session.Readies p distances between program) (ends : session.Ends p middle)
    (quiet : middle.report.faults = session.report.faults)
    (later : middle.Readies q more next program')
    (both : session.Readies whole (distances ++ more) next (program ++ program')) :
    EndAlike (fun after joined => Matches after joined ∧
      Reports Eq middle.report session.report after.report joined.report) middle session q whole := by
  obtain ⟨nextId, _, steps, signal, ran, unfailed⟩ := readies.ended ends quiet
  have reached' := ends.reached reached
  have above : ∀ entry ∈ more, between ≤ entry.1 :=
    fun entry member => nextId ▸ (later.prepared.within entry member).1
  have fits := readies.fits reached.honest.fits
  obtain ⟨taken, flags, state, whole⟩ :=
    both.goes_on fits (begins_alike reached both above) ran unfailed
  have known (id : Nat) (_ : id < next) : (middle.machine.record more).distances[id]? =
      (session.machine.record (distances ++ more)).distances[id]? := by
    have last : middle.machine = _ := run_state ran
    rw [State.record_append, State.distances_record, State.distances_record _ more, last,
      distances_advance]
    rfl
  have kept := distances_advance taken
    (interpreting (program ++ program') (session.machine.record (distances ++ more)))
  generalize (Machine.advance taken _).state = left at state whole kept
  have state : (unchanged (session.machine.record (distances ++ more))).LikeState flags next
      (middle.machine.record more) left := state.record fun id below =>
        ⟨known id below, by rw [kept]; rfl⟩
  have alike := state.interpret (later.rests reached'.honest.fits).atGlobals
    (itself_like (fun _ => rfl) program')
  refine .of_steps (fun after => (whole after).trans
    (exists_congr fun _ => Option.map_eq_some_iff.symm)) fun steps => ?_
  rw [later.run]
  have both := alike.run (later.fits reached'.honest.fits) steps
  generalize Machine.run steps (interpreting program' (middle.machine.record more)) = ending,
    Machine.run steps (interpreting program' left) = ending' at both ⊢
  cases both with
  | none => exact .none
  | some alike =>
    obtain ⟨_, ends⟩ := alike
    exact .some (settle_alike (fun _ => rfl) ends rfl)

/-! ### Both texts -/

/-- What the second text adds to one report, the whole adds to the other. A fault on a line of the second
text stands so many lines further down in the whole, and one on a line of any other text does not. -/
inductive Shares (middle : Session) (q : String) (count : Nat) (before after joined : Report) : Prop
  | nothing : after = middle.report → joined = before → Shares middle q count before after joined
  | follows (fault : RuntimeFault) : middle.Follows q fault →
      after = middle.report.addAll [.runtime fault] →
      joined = before.addAll [.runtime (fault.onLine (fault.line + count))] →
      Shares middle q count before after joined
  | stays (fault : RuntimeFault) : middle.Stays q fault →
      after = middle.report.addAll [.runtime fault] → joined = before.addAll [.runtime fault] →
      Shares middle q count before after joined

theorem shares_of_lowered {after after' : Session} {count : Nat} {before joined : Report}
    (accepted : Accepted q) (reached : Reachable Discreet (.idle middle))
    (ends : middle.Ends q after) (ends' : middle.Ends (Source.lowered count q) after')
    (same : Reports Eq middle.report before after'.report joined) :
    Shares middle q count before after.report joined := by
  have moved := ((lowered_alike accepted reached count).related after after' ends ends').2
  cases moved with
  | quiet none none' =>
    cases same with
    | quiet _ none'' => exact .nothing none none''
    | fault fault _ _ raised _ => exact absurd (raised.symm.trans none') (addAll_ne _ _)
  | fault fault place _ raised raised' =>
    cases same with
    | quiet none _ => exact absurd (raised'.symm.trans none) (addAll_ne _ _)
    | fault other line kept raised'' joined =>
      cases addAll_runtime (raised'.symm.trans raised'')
      rw [← kept, RuntimeFault.onLine_self] at joined
      rcases follows_or_stays accepted reached ends raised with follows | stays
      · obtain ⟨further, ends'', given⟩ := follows count
        cases ends''.unique ends'
        rw [addAll_runtime (raised'.symm.trans given)] at joined
        exact .follows fault follows raised joined
      · obtain ⟨further, ends'', given⟩ := stays count
        cases ends''.unique ends'
        rw [addAll_runtime (raised'.symm.trans given)] at joined
        exact .stays fault stays raised joined

/-- Running two texts one after the other, or both as one text. -/
structure Composed (session middle : Session) (p q : String) (count : Nat) : Prop where
  tokens : Source.tokens (Source.scan (p ++ "\n" ++ q)) =
    (Source.tokens (Source.scan p)).dropLast ++ (Source.tokens (Source.scan q)).map (Token.lower count)
  programs : ∃ distances more next program second second',
    session.Readies p distances middle.nextId program ∧ middle.Readies q more next second ∧
      session.Readies (p ++ "\n" ++ q) (distances ++ more) next (program ++ second') ∧
        ∀ table, (unswapped (Below count) (below_refl count) id table).LikeStmts [false] second second'
  ends : EndAlike (fun after joined => Matches after joined ∧
    Shares middle q count session.report after.report joined.report) middle session q (p ++ "\n" ++ q)

/-- Two texts that are accepted on their own, the first of which raises nothing, print the same, leave
the same globals and number their references alike, whether or not they are run as one. Only the
lines of the second text are others, each by the number of lines before it. -/
theorem joined_alike (reached : Reachable Discreet (.idle session)) (accepted : Accepted p)
    (accepted' : Accepted q) (ends : session.Ends p middle)
    (quiet : middle.report.faults = session.report.faults) :
    Composed session middle p q (1 + Source.newlines p.toList) := by
  obtain ⟨distances, between, program, readies⟩ := accepted.readies session
  obtain ⟨more, next, second, readies'⟩ := accepted'.readies middle
  obtain ⟨second', lowered, programs⟩ := readies'.lowered (1 + Source.newlines p.toList)
  have nextId := (readies.ended ends quiet).1
  have both := readies.joined nextId lowered
  have reached' := ends.reached reached
  have joined := readies.ends_joined reached ends quiet lowered both
  have moved := lowered_alike accepted' reached' (1 + Source.newlines p.toList)
  refine ⟨?_, ⟨distances, more, next, program, second, second', nextId ▸ readies, readies', both,
    programs⟩, moved.both.trans joined.both, fun after after'' one two => ?_⟩
  · obtain ⟨before, _, first, whole⟩ := Source.scan_joined readies.scanned q
    rw [whole, first, Source.scan_lowered, Source.tokens_append, Source.tokens_concat,
      Source.tokens_lower, List.dropLast_concat]
  · obtain ⟨after', between⟩ := moved.both.mp ⟨after, one⟩
    obtain ⟨state, _⟩ := moved.related after after' one between
    obtain ⟨state', report⟩ := joined.related after' after'' between two
    exact ⟨state.trans state', shares_of_lowered accepted' reached' one between report⟩

/-- A fault in the second text is on the second line of the whole. -/
theorem joined_alike_of_fault : ∃ session middle joined : Session,
    Composed session middle "var a;" "-nil;" 1 ∧ session.Ends ("var a;" ++ "\n" ++ "-nil;") joined ∧
      joined.report.faults = [.runtime (.typeMismatch .number 2)] := by
  let first := Session.start (fun _ => 0) false
  have accepted : Accepted "var a;" := ⟨by cbv, [.var ⟨.identifier, "a", 1⟩ none], [], by cbv, rfl⟩
  have accepted' : Accepted "-nil;" :=
    ⟨by cbv, [.expression (.unary ⟨.symbol .minus, "-", 1⟩ (.literal .nil))], [], by cbv, rfl⟩
  have quiet : (first.run 3 "var a;").map (·.report.faults) = some [] := by cbv
  have faulty : (first.run 8 ("var a;" ++ "\n" ++ "-nil;")).map (·.report.faults) =
      some [.runtime (.typeMismatch .number 2)] := by cbv
  obtain ⟨middle, ran, quiet⟩ := Option.map_eq_some_iff.mp quiet
  obtain ⟨joined, ran', faulty⟩ := Option.map_eq_some_iff.mp faulty
  have reached : Reachable Discreet (.idle first) := ⟨_, _, .refl _⟩
  exact ⟨first, middle, joined, joined_alike reached accepted accepted' ⟨3, ran⟩ quiet, ⟨8, ran'⟩, faulty⟩

end Session
end Lox
