import Mathlib
import Lox.Proofs.Refused
import Lox.Proofs.Scanned

/-! A text that stands further down runs as it did. Only the line of a runtime fault can tell: it
goes along with the text, or else it is a line of an earlier text and stays. -/

namespace Lox

open Machine Likeness

/-- The same fault on another line. -/
def RuntimeFault.onLine (line : Nat) : RuntimeFault → RuntimeFault
  | undefinedVariable name _ => .undefinedVariable name line
  | undefinedProperty name _ => .undefinedProperty name line
  | notCallable _ => .notCallable line
  | arityMismatch expected got _ => .arityMismatch expected got line
  | typeMismatch rule _ => .typeMismatch rule line
  | notAnInstance use _ => .notAnInstance use line
  | invalidSuperclass _ => .invalidSuperclass line
  | native name text _ => .native name text line

namespace RuntimeFault

variable {fault : RuntimeFault} {line other : Nat}

@[simp] theorem line_onLine : (fault.onLine line).line = line := by cases fault <;> rfl

theorem onLine_self : fault.onLine fault.line = fault := by cases fault <;> rfl

end RuntimeFault

theorem Likeness.LikeFault.onLine {L : Likeness} (unswapped : L.Unswapped)
    {fault twin : RuntimeFault} (alike : L.LikeFault fault twin) :
    L.line fault.line twin.line ∧ twin = fault.onLine twin.line := by
  cases alike with
  | undefinedVariable mark name line =>
    refine ⟨line, ?_⟩
    have kept : L.named mark name = name := by
      cases mark with
      | false => rfl
      | true => exact unswapped name
    rw [kept]
    rfl
  | _ => exact ⟨‹_›, rfl⟩

/-- A text with nothing to complain of before it is executed, on its own. -/
structure Accepted (source : String) : Prop where
  scanned : Session.lexical source = []
  resolved : ∃ program distances,
    (Tree.parse (Source.tokens (Source.scan source)) 0).result = .ok program ∧
      Resolution.resolve program = .ok distances

namespace Session

variable {session after : Session} {source : String}

/-- Running the text comes to an end, in another session. -/
def Ends (session : Session) (source : String) (after : Session) : Prop :=
  ∃ steps, session.run steps source = some after

theorem Ends.unique {other : Session} (ends : session.Ends source after)
    (ends' : session.Ends source other) : after = other := by
  obtain ⟨steps, ran⟩ := ends
  obtain ⟨steps', ran'⟩ := ends'
  unfold run at ran ran'
  rcases prepared : session.prepare source with ⟨middle, _ | program⟩ <;> rw [prepared] at ran ran'
  · exact (Option.some.inj ran).symm.trans (Option.some.inj ran')
  · obtain ⟨ending, stopped, rfl⟩ := Option.map_eq_some_iff.mp ran
    obtain ⟨ending', stopped', rfl⟩ := Option.map_eq_some_iff.mp ran'
    rw [run_unique stopped stopped']

/-- One run ends if the other does, and their ends are related. -/
structure EndAlike (related : Session → Session → Prop) (session twin : Session)
    (source source' : String) : Prop where
  both : (∃ after, session.Ends source after) ↔ ∃ after', twin.Ends source' after'
  related : ∀ after after', session.Ends source after → twin.Ends source' after' →
    related after after'

theorem EndAlike.of_steps {related : Session → Session → Prop} {twin : Session} {source' : String}
    {ran : Nat → Option Session} (whole : ∀ after, twin.Ends source' after ↔ ∃ steps, ran steps = some after)
    (both : ∀ steps, Option.Rel related (session.run steps source) (ran steps)) :
    EndAlike related session twin source source' := by
  have forth {after : Session} (ends : session.Ends source after) :
      ∃ after', twin.Ends source' after' ∧ related after after' := by
    obtain ⟨steps, stopped⟩ := ends
    have same := both steps
    rw [stopped] at same
    rcases stopped' : ran steps with _ | after' <;> rw [stopped'] at same
    · cases same
    · cases same with
      | some given => exact ⟨after', (whole after').mpr ⟨steps, stopped'⟩, given⟩
  refine ⟨⟨fun ⟨_, ends⟩ => ?_, fun ⟨after', ends'⟩ => ?_⟩, fun after after' ends ends' => ?_⟩
  · obtain ⟨after', ends', _⟩ := forth ends
    exact ⟨after', ends'⟩
  · obtain ⟨steps, stopped'⟩ := (whole after').mp ends'
    have same := both steps
    rw [stopped'] at same
    rcases stopped : session.run steps source with _ | after <;> rw [stopped] at same
    · cases same
    · exact ⟨after, steps, stopped⟩
  · obtain ⟨other, ends'', given⟩ := forth ends
    rwa [ends'.unique ends'']

/-- The text comes through the phases before its execution. -/
structure Readies (session : Session) (source : String) (distances : List (Nat × Nat)) (next : Nat)
    (program : List Stmt) : Prop where
  parsed : (session.parsed source).result = .ok program
  nextId : (session.parsed source).nextId = next
  resolved : Resolution.resolve program = .ok distances
  scanned : lexical source = []

/-- The session in which what the text says is executed. -/
def begun (session : Session) (distances : List (Nat × Nat)) (next : Nat) : Session :=
  ⟨session.machine.record distances, session.report, next⟩

variable {distances : List (Nat × Nat)} {next : Nat} {program : List Stmt}

theorem Readies.prepare (readies : session.Readies source distances next program) :
    session.prepare source = (session.begun distances next, some program) := by
  rw [prepare_resolved readies.parsed readies.resolved, readies.scanned, readies.nextId]
  rfl

theorem Readies.prepared (readies : session.Readies source distances next program) :
    session.Prepared (session.begun distances next) source distances (some program) := by
  obtain ⟨table, prepared⟩ := prepared_of_prepare readies.prepare
  have same := (prepared.accepted program rfl).2
  rw [readies.resolved] at same
  cases same
  exact prepared

theorem Readies.rests (readies : session.Readies source distances next program)
    (rests : session.machine.Rests session.nextId) : (session.machine.record distances).Rests next :=
  readies.prepared.rests rests

theorem Readies.fits (readies : session.Readies source distances next program)
    (rests : session.machine.Rests session.nextId) :
    (interpreting program (session.machine.record distances)).Fits
      ⟨fun id => (session.machine.record distances).distances[id]?, next⟩ :=
  (readies.rests rests).interpreting (readies.prepared.resolved rests.unused)

theorem Readies.run (readies : session.Readies source distances next program) (steps : Nat) :
    session.run steps source =
      (Machine.run steps (interpreting program (session.machine.record distances))).map
        (session.begun distances next).settle := by
  unfold Session.run
  rw [readies.prepare]
  rfl

end Session

/-- A text is accepted in any session if it is on its own. -/
theorem Accepted.readies {source : String} (accepted : Accepted source) (session : Session) :
    ∃ distances next program, session.Readies source distances next program := by
  obtain ⟨program, distances, parsed, resolved⟩ := accepted.resolved
  let L := unswapped Eq Eq.refl (· + session.nextId) fun _ => none
  have tokens : List.Forall₂ L.Same (Source.tokens (Source.scan source))
      (Source.tokens (Source.scan source)) := List.forall₂_same.mpr fun token _ => .refl token
  have steady : ∀ id, 0 ≤ id → L.number (id + 1) = L.number id + 1 :=
    fun id _ => Nat.add_right_comm ..
  have number : L.number 0 = session.nextId := Nat.zero_add _
  have alike := (Tree.parse_like tokens steady).1
  rw [parsed, number] at alike
  cases given : (session.parsed source).result with
  | error faults =>
    have given : (Tree.parse (Source.tokens (Source.scan source)) session.nextId).result = _ := given
    rw [given] at alike
    cases alike
  | ok program' =>
    have same : (Tree.parse (Source.tokens (Source.scan source)) session.nextId).result = _ := given
    rw [same] at alike
    cases alike with
    | ok like =>
      rcases resolve_retraced (fun _ => rfl) (like [] fun _ => List.not_mem_nil.elim) with
        ⟨_, _, resolved'⟩ | ⟨_, _, broken, _⟩
      · exact ⟨_, _, _, given, rfl, resolved', accepted.scanned⟩
      · rw [resolved] at broken
        cases broken

namespace Session

/-- What can be told of the state in which a text ends. -/
structure Matches (after twin : Session) : Prop where
  output : twin.machine.output = after.machine.output
  names : twin.globalNames = after.globalNames
  displays : ∀ name, (twin.global? name).map Value.text = (after.global? name).map Value.text
  nextId : twin.nextId = after.nextId

theorem Matches.trans {first second third : Session} (one : Matches first second)
    (two : Matches second third) : Matches first third :=
  ⟨two.output.trans one.output, two.names.trans one.names,
    fun name => (two.displays name).trans (one.displays name), two.nextId.trans one.nextId⟩

theorem Matches.of_like {L : Likeness} {flags : List Bool} {next : Nat} {after twin : Session}
    (alike : L.LikeState flags next after.machine twin.machine) (nextId : twin.nextId = after.nextId) :
    Matches after twin :=
  ⟨alike.output, LikeState.names alike, LikeState.displays alike, nextId⟩

/-- Nothing is added to either report, or the same fault on lines that correspond. -/
inductive Reports (line : Nat → Nat → Prop) (before before' after after' : Report) : Prop
  | quiet : after = before → after' = before' → Reports line before before' after after'
  | fault (fault : RuntimeFault) (place : Nat) : line fault.line place →
      after = before.addAll [.runtime fault] → after' = before'.addAll [.runtime (fault.onLine place)] →
      Reports line before before' after after'

theorem reports_of_like {L : Likeness} (unswapped : L.Unswapped) {flags : List Bool}
    {signal twin : Signal} (alike : L.LikeSignal flags signal twin) (before before' : Report) :
    Reports L.line before before' (before.addAll signal.faults) (before'.addAll twin.faults) := by
  cases alike with
  | done _ | returned _ => exact .quiet rfl rfl
  | failed fault =>
    obtain ⟨line, same⟩ := fault.onLine unswapped
    refine .fault _ _ line rfl ?_
    rw [← same]
    rfl

/-- Two sessions take over from executions that ended alike. -/
theorem settle_alike {L : Likeness} (unswapped : L.Unswapped) {flags : List Bool} {next : Nat}
    {ending ending' : Signal × State} (alike : L.LikeEnding flags next ending ending')
    {session twin : Session} (nextId : twin.nextId = session.nextId) :
    Matches (session.settle ending) (twin.settle ending') ∧
      Reports L.line session.report twin.report (session.settle ending).report
        (twin.settle ending').report := by
  obtain ⟨signal, state⟩ := alike
  obtain ⟨machine, kept⟩ := session.settle_same ending
  obtain ⟨machine', kept'⟩ := twin.settle_same ending'
  rw [← machine, ← machine'] at state
  refine ⟨.of_like state (by rw [kept, kept', nextId]), ?_⟩
  rw [settle_report, settle_report]
  exact reports_of_like unswapped signal _ _

/-! ### Texts with tokens on other lines -/

section Moved

variable {line : Nat → Nat → Prop} {line_refl : ∀ place, line place place}
  {session : Session} {source twin : String} {distances : List (Nat × Nat)} {next : Nat} {program : List Stmt}

theorem Readies.moved (readies : session.Readies source distances next program)
    (tokens : ∀ table, List.Forall₂ (unswapped line line_refl id table).Same
      (Source.tokens (Source.scan source)) (Source.tokens (Source.scan twin)))
    (clean : lexical twin = []) :
    ∃ program', session.Readies twin distances next program' ∧
      ∀ table, (unswapped line line_refl id table).LikeStmts [false] program program' := by
  have alike (table : Nat → Option Nat) :
      Tree.ResultLike (unswapped line line_refl id table) (session.parsed source).result
          (session.parsed twin).result ∧
        (session.parsed twin).nextId = (session.parsed source).nextId :=
    Tree.parse_like (tokens table) fun _ _ => rfl
  simp only [readies.parsed, readies.nextId] at alike
  cases parsed : (session.parsed twin).result with
  | error faults =>
    have failed := (alike fun _ => none).1
    rw [parsed] at failed
    cases failed
  | ok program' =>
    have programs (table : Nat → Option Nat) :
        Unmarked (unswapped line line_refl id table).LikeStmts program program' := by
      have given := (alike table).1
      rw [parsed] at given
      cases given with
      | ok given => exact given
    refine ⟨program', ⟨parsed, (alike fun _ => none).2, ?_, clean⟩,
      fun table => programs table [false] (plain_replicate 1)⟩
    have walked := resolve_retraced (L := unswapped line line_refl id fun _ => none) (fun _ => rfl)
      (programs _ [] fun _ => List.not_mem_nil.elim)
    rcases walked with ⟨table, found, found'⟩ | ⟨_, _, broken, _⟩
    · rw [readies.resolved] at found
      cases found
      have kept : distances.map (Prod.map id id) = distances := by simp
      exact found'.trans (congrArg Except.ok kept)
    · rw [readies.resolved] at broken
      cases broken

/-- The run of one is the run of the other, but for the line of a fault. -/
theorem Readies.run_moved (readies : session.Readies source distances next program)
    {program' : List Stmt} (readies' : session.Readies twin distances next program')
    (programs : ∀ table, (unswapped line line_refl id table).LikeStmts [false] program program')
    (reached : Reachable Discreet (.idle session)) (steps : Nat) :
    Option.Rel (fun after after' => Matches after after' ∧
        Reports line session.report session.report after.report after'.report)
      (session.run steps source) (session.run steps twin) := by
  have rests := readies.rests reached.honest.fits
  let L := unswapped line line_refl id fun id => (session.machine.record distances).distances[id]?
  have state : L.LikeState (unmarked session.machine.store) next (session.machine.record distances)
      (session.machine.record distances) :=
    .refl (fun _ _ => rfl) rests.sound rests.rooted reached.discreet fun _ _ => rfl
  have both := (state.interpret rests.atGlobals (programs _)).run (readies.fits reached.honest.fits) steps
  rw [readies.run, readies'.run]
  generalize Machine.run steps (interpreting program _) = ending,
    Machine.run steps (interpreting program' _) = ending' at both ⊢
  cases both with
  | none => exact .none
  | some alike =>
    obtain ⟨more, ends⟩ := alike
    exact .some (settle_alike (fun _ => rfl) ends rfl)

end Moved

/-! ### Texts further down -/

open Source

/-- Lines that stay or move down. -/
def Below (count line place : Nat) : Prop := place = line ∨ place = line + count

theorem below_refl (count line : Nat) : Below count line line := .inl rfl

theorem tokens_below (first count : Nat) (source : String) (table : Nat → Option Nat) :
    List.Forall₂ (unswapped (Below count) (below_refl count) id table).Same
      (tokens (scan (lowered first source))) (tokens (scan (lowered (first + count) source))) := by
  rw [scan_lowered_add, tokens_lower, List.forall₂_map_right_iff, List.forall₂_same]
  exact fun token _ => ⟨rfl, rfl, .inr rfl⟩

variable {session after : Session} {source : String}

theorem lexical_lowered (count : Nat) (clean : lexical source = []) :
    lexical (lowered count source) = [] := by
  unfold lexical
  rw [scan_lowered]
  exact faults_lower count clean

theorem Readies.lowered {distances : List (Nat × Nat)} {next : Nat} {program : List Stmt}
    (readies : session.Readies source distances next program) (count : Nat) :
    ∃ program', session.Readies (lowered count source) distances next program' ∧
      ∀ table, (unswapped (Below count) (below_refl count) id table).LikeStmts [false]
        program program' := by
  have tokens := tokens_below 0 count source
  rw [lowered_zero, Nat.zero_add] at tokens
  exact readies.moved tokens (lexical_lowered count readies.scanned)

theorem run_lowered (accepted : Accepted source) (reached : Reachable Discreet (.idle session))
    (first count steps : Nat) :
    Option.Rel (fun after after' => Matches after after' ∧
        Reports (Below count) session.report session.report after.report after'.report)
      (session.run steps (lowered first source)) (session.run steps (lowered (first + count) source)) := by
  obtain ⟨distances, next, program, readies⟩ := accepted.readies session
  obtain ⟨program, readies, _⟩ := readies.lowered first
  obtain ⟨program', readies', programs⟩ := readies.moved (tokens_below first count source)
    (lexical_lowered _ accepted.scanned)
  exact readies.run_moved readies' programs reached steps

/-- The fault stands on a line of the text: it moves along when the text stands further down. -/
def Follows (session : Session) (source : String) (fault : RuntimeFault) : Prop :=
  ∀ count, ∃ after, session.Ends (lowered count source) after ∧
    after.report = session.report.addAll [.runtime (fault.onLine (fault.line + count))]

/-- The fault stands on a line of some other text: it is the same wherever the text stands. -/
def Stays (session : Session) (source : String) (fault : RuntimeFault) : Prop :=
  ∀ count, ∃ after, session.Ends (lowered count source) after ∧
    after.report = session.report.addAll [.runtime fault]

theorem addAll_runtime {report : Report} {fault other : RuntimeFault}
    (same : report.addAll [.runtime fault] = report.addAll [.runtime other]) : fault = other := by
  have faults := congrArg Report.faults same
  rw [Report.addAll_faults, Report.addAll_faults] at faults
  cases List.append_cancel_left faults
  rfl

theorem addAll_ne (report : Report) (fault : Fault) : report.addAll [fault] ≠ report := by
  intro same
  have faults := congrArg (List.length ∘ Report.faults) same
  simp [Report.addAll_faults] at faults

/-- Where the fault stands when the text is further down. -/
theorem fault_lowered (accepted : Accepted source) (reached : Reachable Discreet (.idle session))
    {first steps : Nat} (ran : session.run steps (lowered first source) = some after)
    {fault : RuntimeFault} (raised : after.report = session.report.addAll [.runtime fault])
    (count : Nat) :
    ∃ after' place, session.run steps (lowered (first + count) source) = some after' ∧
      after'.report = session.report.addAll [.runtime (fault.onLine place)] ∧
        Below count fault.line place := by
  have both := run_lowered accepted reached first count steps
  rw [ran] at both
  rcases ran' : session.run steps (lowered (first + count) source) with _ | after' <;>
    rw [ran'] at both <;> cases both
  rename_i same
  cases same.2 with
  | quiet none _ => exact absurd (raised.symm.trans none) (addAll_ne _ _)
  | fault other place line given given' =>
    cases addAll_runtime (raised.symm.trans given)
    exact ⟨after', place, rfl, given', line⟩

/-- One line further down tells how the fault moves. Any further line is seen from there and from
the text itself, and only one way of moving fits both. -/
theorem follows_or_stays (accepted : Accepted source) (reached : Reachable Discreet (.idle session))
    (ends : session.Ends source after) {fault : RuntimeFault}
    (raised : after.report = session.report.addAll [.runtime fault]) :
    session.Follows source fault ∨ session.Stays source fault := by
  obtain ⟨steps, ran⟩ := ends
  rw [← lowered_zero source] at ran
  obtain ⟨next, place, ran', raised', line⟩ := fault_lowered accepted reached ran raised 1
  have further (count : Nat) : ∃ after' line, session.run steps (lowered (count + 1) source) =
      some after' ∧ after'.report = session.report.addAll [.runtime (fault.onLine line)] ∧
        Below (count + 1) fault.line line ∧ Below count place line := by
    obtain ⟨after', line, ends, given, moved⟩ :=
      fault_lowered accepted reached ran raised (count + 1)
    obtain ⟨other, line', ends', given', moved'⟩ :=
      fault_lowered accepted reached ran' raised' count
    rw [Nat.zero_add] at ends
    rw [Nat.zero_add, Nat.add_comm, ends] at ends'
    cases ends'
    have same := congrArg RuntimeFault.line (addAll_runtime (given.symm.trans given'))
    simp only [RuntimeFault.line_onLine] at same moved'
    exact ⟨after', line, ends, given, moved, same ▸ moved'⟩
  rcases line with stays | goes
  · refine .inr fun count => ?_
    cases count with
    | zero => exact ⟨after, ⟨steps, ran⟩, raised⟩
    | succ count =>
      obtain ⟨after', line, ends, given, moved, moved'⟩ := further count
      have same : line = fault.line := by
        unfold Below at moved moved'
        omega
      rw [same, RuntimeFault.onLine_self] at given
      exact ⟨after', ⟨steps, ends⟩, given⟩
  · refine .inl fun count => ?_
    cases count with
    | zero =>
      refine ⟨after, ⟨steps, ran⟩, ?_⟩
      rw [Nat.add_zero, RuntimeFault.onLine_self]
      exact raised
    | succ count =>
      obtain ⟨after', line, ends, given, moved, moved'⟩ := further count
      have same : line = fault.line + (count + 1) := by
        unfold Below at moved moved'
        omega
      rw [same] at given
      exact ⟨after', ⟨steps, ends⟩, given⟩

/-- A text ends wherever it stands if it ends at all, and but for the line of a fault it ends
alike. -/
theorem lowered_alike (accepted : Accepted source) (reached : Reachable Discreet (.idle session))
    (count : Nat) :
    EndAlike (fun after after' => Matches after after' ∧
      Reports (Below count) session.report session.report after.report after'.report)
      session session source (lowered count source) := by
  have both := run_lowered accepted reached 0 count
  rw [lowered_zero, Nat.zero_add] at both
  exact .of_steps (fun _ => Iff.rfl) both

end Session

end Lox
