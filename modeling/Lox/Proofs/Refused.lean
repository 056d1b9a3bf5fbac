import Mathlib
import Lox.Proofs.Accounts
import Lox.Proofs.Parallel
import Lox.Proofs.Retraced

/-! A text that is refused leaves nothing behind that a later text could tell. The references of later
texts have other numbers, and that is all. -/

namespace Lox

open Machine Resolution

namespace Likeness

variable {k d : Nat} {table : Nat → Option Nat}

/-- References from some number on are numbered further on, and nothing else is changed. -/
def shift (k d : Nat) (table : Nat → Option Nat) : Likeness :=
  unswapped Eq Eq.refl (fun id => if id < k then id else id + d) table

theorem shift_below {id : Nat} (below : id < k) : (shift k d table).number id = id := if_pos below

theorem shift_above {id : Nat} (above : k ≤ id) : (shift k d table).number id = id + d :=
  if_neg (Nat.not_lt.mpr above)

theorem shift_steady {id : Nat} (above : k ≤ id) :
    (shift k d table).number (id + 1) = (shift k d table).number id + 1 := by
  rw [shift_above above, shift_above (Nat.le_succ_of_le above), Nat.add_right_comm]

theorem shift_injective : Function.Injective (shift k d table).number := by
  intro first second same
  simp only [shift, unswapped] at same
  split at same <;> split at same <;> omega

theorem shift_unswapped : (shift k d table).Unswapped := fun _ => rfl

theorem shift_same (tokens : List Token) : List.Forall₂ (shift k d table).Same tokens tokens :=
  List.forall₂_same.mpr fun token _ => .refl token

theorem LikeFault.eq {L : Likeness} (unswapped : L.Unswapped) (still : ∀ a b, L.line a b → a = b)
    {fault twin : RuntimeFault} (alike : L.LikeFault fault twin) : twin = fault := by
  cases alike with
  | undefinedVariable mark name same =>
    have kept : L.named mark name = name := by
      cases mark with
      | false => rfl
      | true => exact unswapped name
    rw [kept, still _ _ same]
  | _ => rename_i same; rw [still _ _ same]

end Likeness

open Likeness

/-! ### Sessions that differ in their numbers -/

theorem lookup_renumbered {number : Nat → Nat} (injective : Function.Injective number)
    (entries : List (Nat × Nat)) (use : Nat) :
    (entries.map (Prod.map number id)).reverse.lookup (number use) =
      entries.reverse.lookup use := by
  rw [← List.map_reverse]
  induction entries.reverse with
  | nil => rfl
  | cons entry rest ih =>
    obtain ⟨key, distance⟩ := entry
    rw [List.map_cons, List.lookup_cons, Prod.map_apply, List.lookup_cons, ih]
    by_cases same : use = key
    · rw [same, beq_self_eq_true, beq_self_eq_true]
      rfl
    · rw [beq_false_of_ne same, beq_false_of_ne fun equal => same (injective equal)]

/-- The second of two machines has its later references numbered further on. -/
structure Machine.State.Shifted (k d next : Nat) (first second : State) : Prop where
  above : k ≤ next
  alike : ∀ table, (∀ id < next, first.distances[id]? = table id) →
    ∃ flags, (shift k d table).LikeState flags next first second

namespace Machine.State.Shifted

variable {k d next : Nat} {first second : State}

/-- More distances are recorded, on both sides the same. -/
theorem record (shifted : Shifted k d next first second)
    (unused : ∀ id, next ≤ id → first.distances[id]? = none)
    (unused' : ∀ id, next + d ≤ id → second.distances[id]? = none) {later : Nat}
    (up : next ≤ later) {entries : List (Nat × Nat)} (within : ∀ entry ∈ entries, next ≤ entry.1) :
    Shifted k d later (first.record entries)
      (second.record (entries.map (Prod.map (shift k d fun _ => none).number id))) := by
  refine ⟨Nat.le_trans shifted.above up, ?_⟩
  intro table agrees
  have fresh : ∀ id < next, entries.reverse.lookup id = none := by
    intro id below
    refine lookup_reverse_none fun entry member same => ?_
    have above := within entry member
    omega
  obtain ⟨flags, alike⟩ := shifted.alike table fun id below => by
    rw [← agrees id (Nat.lt_of_lt_of_le below up), State.distances_record, fresh id below,
      Option.none_or]
  refine ⟨flags, alike.record fun id below => ⟨agrees id below, ?_⟩⟩
  have given := agrees id below
  rw [State.distances_record] at given
  change (second.record _).distances[(shift k d fun _ => none).number id]? = table id
  rw [State.distances_record, lookup_renumbered shift_injective]
  by_cases old : id < next
  · rw [fresh id old, Option.none_or]
    exact (alike.table id old).2
  · have new := Nat.not_lt.mp old
    rw [unused id new] at given
    have beyond : next + d ≤ (shift k d fun _ => none).number id := by
      rw [shift_above (Nat.le_trans shifted.above new)]
      omega
    rw [unused' _ beyond]
    exact given

end Machine.State.Shifted

namespace Session

/-- The second of two sessions has its later references numbered further on. -/
structure Shifted (k d : Nat) (session twin : Session) : Prop where
  nextId : twin.nextId = session.nextId + d
  machine : State.Shifted k d session.nextId session.machine twin.machine

/-- Both sessions add the same faults to what they had. -/
def AddSame (session twin after after' : Session) : Prop :=
  ∃ faults, after.report = session.report.addAll faults ∧ after'.report = twin.report.addAll faults

/-- A text comes through the phases before its execution in the same way. -/
structure PreparedSame (k d : Nat) (session twin : Session)
    (first second : Session × Option (List Stmt)) : Prop where
  adds : AddSame session twin first.1 second.1
  shifted : Shifted k d first.1 second.1
  programs : Option.Rel (fun program program' =>
    ∀ table, (shift k d table).LikeStmts [false] program program') first.2 second.2

variable {k d : Nat} {session twin : Session}

theorem moved_eq {faults faults' : List Fault} (moved : List.Forall₂ (Fault.Moved Eq) faults faults') :
    faults' = faults := by
  induction moved with
  | nil => rfl
  | cons here _ ih => rw [here.eq, ih]

/-- The same text is read alike, under other numbers. -/
theorem Shifted.parsed (shifted : session.Shifted k d twin) (source : String) :
    (∀ table, Tree.ResultLike (shift k d table) (session.parsed source).result
      (twin.parsed source).result) ∧
      (twin.parsed source).nextId = (session.parsed source).nextId + d := by
  obtain ⟨nextId, machine⟩ := shifted
  have number (table : Nat → Option Nat) : (shift k d table).number session.nextId = twin.nextId :=
    (shift_above machine.above).trans nextId.symm
  have steady (table : Nat → Option Nat) : ∀ id, session.nextId ≤ id →
      (shift k d table).number (id + 1) = (shift k d table).number id + 1 :=
    fun _ above => shift_steady (Nat.le_trans machine.above above)
  have read (table : Nat → Option Nat) := Tree.parse_like
    (shift_same (Source.tokens (Source.scan source))) (steady table)
  simp only [number] at read
  have up := Tree.parse_nextId (Source.tokens (Source.scan source)) session.nextId
  refine ⟨fun table => (read table).1, (read fun _ => none).2.trans ?_⟩
  exact shift_above (Nat.le_trans machine.above up)

theorem Shifted.prepare (shifted : session.Shifted k d twin)
    (unused : ∀ id, session.nextId ≤ id → session.machine.distances[id]? = none)
    (unused' : ∀ id, twin.nextId ≤ id → twin.machine.distances[id]? = none) (source : String) :
    PreparedSame k d session twin (session.prepare source) (twin.prepare source) := by
  obtain ⟨alike, nextId⟩ := shifted.parsed source
  have up := Tree.parse_nextId (Source.tokens (Source.scan source)) session.nextId
  have recorded {entries : List (Nat × Nat)} (within : ∀ entry ∈ entries, session.nextId ≤ entry.1) :=
    shifted.machine.record unused (shifted.nextId ▸ unused') up within
  have kept : State.Shifted k d (session.parsed source).nextId (session.machine.record [])
      (twin.machine.record []) := recorded fun _ => List.not_mem_nil.elim
  simp only [State.record_nil] at kept
  cases read : (session.parsed source).result with
  | error faults =>
    have failed := alike fun _ => none
    rw [read] at failed
    cases read' : (twin.parsed source).result with
    | ok _ => rw [read'] at failed; cases failed
    | error faults' =>
      rw [read'] at failed
      cases failed with
      | error faulty =>
        cases moved_eq faulty
        rw [prepare_unparsed read, prepare_unparsed read']
        exact ⟨⟨_, rfl, rfl⟩, ⟨nextId, kept⟩, .none⟩
  | ok program =>
    cases read' : (twin.parsed source).result with
    | error _ =>
      have failed := alike fun _ => none
      rw [read, read'] at failed
      cases failed
    | ok program' =>
      have programs (table : Nat → Option Nat) :
          Unmarked (shift k d table).LikeStmts program program' := by
        have given := alike table
        rw [read, read'] at given
        cases given with
        | ok given => exact given
      have unswapped : (shift k d fun _ => none).Unswapped := fun _ => rfl
      rcases resolve_retraced unswapped (programs _ [] fun _ => List.not_mem_nil.elim) with
        ⟨entries, resolved, resolved'⟩ | ⟨faults, faults', broken, broken', moved⟩
      · rw [prepare_resolved read resolved, prepare_resolved read' resolved']
        have genuine := Source.tokens_genuine source
        have within := resolve_within (Tree.parse_read genuine read).2 resolved
        refine ⟨⟨_, rfl, rfl⟩, ⟨nextId, recorded fun entry member => (within entry member).1⟩, ?_⟩
        dsimp only
        split
        · exact .some fun table => programs table [false] (plain_replicate 1)
        · exact .none
      · have same : faults' = faults := by
          clear broken broken'
          induction moved with
          | nil => rfl
          | cons here _ ih => rw [here.eq, ih]
        cases same
        rw [prepare_unresolved read broken, prepare_unresolved read' broken']
        exact ⟨⟨_, rfl, rfl⟩, ⟨nextId, kept⟩, .none⟩

/-- What can be told of one more text from outside: what it prints, what it adds to the faults, and
the globals it leaves. -/
structure Shows (session twin after after' : Session) : Prop where
  output : after'.machine.output = after.machine.output
  added : ∃ faults, after.report.faults = session.report.faults ++ faults ∧
    after'.report.faults = twin.report.faults ++ faults
  names : after'.globalNames = after.globalNames
  displays : ∀ name, (after'.global? name).map Value.text = (after.global? name).map Value.text

/-- Any number of later texts show the same in both sessions, or take too long in both. -/
def Indistinct : List String → Session → Session → Prop
  | [], _, _ => True
  | source :: later, session, twin => ∀ steps, Option.Rel
      (fun after after' => Shows session twin after after' ∧ Indistinct later after after')
      (session.run steps source) (twin.run steps source)

theorem AddSame.shows {session twin after after' : Session} (adds : AddSame session twin after after') :
    ∃ faults, after.report.faults = session.report.faults ++ faults ∧
      after'.report.faults = twin.report.faults ++ faults := by
  obtain ⟨faults, here, there⟩ := adds
  refine ⟨faults, ?_, ?_⟩
  · rw [here, Report.addAll_faults]
  · rw [there, Report.addAll_faults]

theorem AddSame.trans {session twin middle middle' after after' : Session}
    (first : AddSame session twin middle middle') (second : AddSame middle middle' after after') :
    AddSame session twin after after' := by
  obtain ⟨faults, here, there⟩ := first
  obtain ⟨more, here', there'⟩ := second
  refine ⟨faults ++ more, ?_, ?_⟩
  · rw [here', here, Report.addAll_append]
  · rw [there', there, Report.addAll_append]

theorem get?_globals (store : Store) (name : String) :
    store.get? globals name = store.lookup? globals.scope name := by
  unfold Store.get? Store.slot? Store.binds
  simp only [globals, Environment.scopes, List.find?_cons, List.find?_nil]
  cases found : store.lookup? 0 name <;> simp [found]

theorem LikeState.names {L : Likeness} {flags : List Bool} {next : Nat} {first second : State}
    (alike : L.LikeState flags next first second) :
    second.store.names globals = first.store.names globals := by
  obtain ⟨bindings, twin, here, there, like⟩ := alike.store.inside alike.rooted
  have names : twin.names = bindings.names := like.names.trans (List.map_id _)
  have scope : globals.scope = 0 := rfl
  unfold Store.names
  rw [scope, here, there]
  exact names

theorem LikeState.displays {L : Likeness} {flags : List Bool} {next : Nat} {first second : State}
    (alike : L.LikeState flags next first second) (name : String) :
    (second.store.get? globals name).map Value.text =
      (first.store.get? globals name).map Value.text := by
  have found := alike.store.lookup? alike.rooted name
  rw [get?_globals, get?_globals]
  change (second.store.lookup? 0 (L.named false name)).map _ = _
  have scope : globals.scope = 0 := rfl
  rw [scope]
  generalize first.store.lookup? 0 name = value, second.store.lookup? 0 _ = twin at found ⊢
  cases found with
  | none => rfl
  | some like => exact congrArg some (LikeValue.text like)

theorem Shifted.shows {after after' : Session} (shifted : after.Shifted k d after')
    (adds : AddSame session twin after after') : Shows session twin after after' := by
  obtain ⟨flags, alike⟩ := shifted.machine.alike _ fun _ _ => rfl
  exact ⟨alike.output, adds.shows, LikeState.names alike, LikeState.displays alike⟩

theorem signal_faults {table : Nat → Option Nat} {flags : List Bool} {signal other : Signal}
    (alike : (shift k d table).LikeSignal flags signal other) : other.faults = signal.faults := by
  cases alike with
  | done _ | returned _ => rfl
  | failed fault =>
    rw [fault.eq shift_unswapped fun _ _ same => same]

/-- Executions of programs that are alike end alike, and the session goes on from there. -/
theorem Shifted.execute (shifted : session.Shifted k d twin) {program program' : List Stmt}
    (rests : session.machine.Rests session.nextId)
    (resolved : stmtsResolved ⟨fun id => session.machine.distances[id]?, session.nextId⟩ [] program)
    (programs : ∀ table, (shift k d table).LikeStmts [false] program program') (steps : Nat) :
    Option.Rel (fun after after' => AddSame session twin after after' ∧ Shifted k d after after')
      ((Machine.run steps (interpreting program session.machine)).map session.settle)
      ((Machine.run steps (interpreting program' twin.machine)).map twin.settle) := by
  have fits := rests.interpreting resolved
  have ends (table : Nat → Option Nat)
      (agrees : ∀ id < session.nextId, session.machine.distances[id]? = table id) :
      ∃ flags, Option.Rel (fun ending other => ∃ more,
          (shift k d table).LikeEnding (flags ++ more) session.nextId ending other)
        (Machine.run steps (interpreting program session.machine))
        (Machine.run steps (interpreting program' twin.machine)) := by
    obtain ⟨flags, alike⟩ := shifted.machine.alike table agrees
    exact ⟨flags, (alike.interpret rests.atGlobals (programs table)).run fits steps⟩
  obtain ⟨flags, both⟩ := ends _ fun _ _ => rfl
  generalize Machine.run steps (interpreting program session.machine) = result,
    Machine.run steps (interpreting program' twin.machine) = result' at both ends ⊢
  cases both with
  | none => exact .none
  | @some ending ending' alike =>
    obtain ⟨more, signal, state⟩ := alike
    have settled := session.settle_same ending
    have settled' := twin.settle_same ending'
    refine .some ⟨⟨ending.1.faults, session.settle_report ending, ?_⟩, ?_, ?_⟩
    · rw [twin.settle_report ending', signal_faults signal]
    · rw [settled.2, settled'.2, shifted.nextId]
    · rw [settled.1, settled.2, settled'.1]
      refine ⟨shifted.machine.above, fun table agrees => ?_⟩
      obtain ⟨flags', both'⟩ := ends table fun id below =>
        (state.table id below).1.symm.trans (agrees id below)
      cases both' with
      | some alike' =>
        obtain ⟨more', ending⟩ := alike'
        exact ⟨_, ending.state⟩

theorem Shifted.run (shifted : session.Shifted k d twin)
    (rests : session.machine.Rests session.nextId) (rests' : twin.machine.Rests twin.nextId)
    (source : String) (steps : Nat) :
    Option.Rel (fun after after' => AddSame session twin after after' ∧ Shifted k d after after')
      (session.run steps source) (twin.run steps source) := by
  have same := shifted.prepare rests.unused rests'.unused source
  unfold Session.run
  rcases ready : session.prepare source with ⟨middle, program⟩
  rcases ready' : twin.prepare source with ⟨middle', program'⟩
  obtain ⟨table, prepared⟩ := prepared_of_prepare ready
  rw [ready, ready'] at same
  obtain ⟨adds, shifted, programs⟩ := same
  dsimp only at adds shifted programs ⊢
  cases programs with
  | none => exact .some ⟨adds, shifted⟩
  | some programs =>
    have later := shifted.execute (prepared.rests rests) (prepared.resolved rests.unused) programs steps
    exact rel_imp later fun _ _ both => ⟨adds.trans both.1, both.2⟩

theorem Shifted.indistinct (later : List String) {session twin : Session}
    (shifted : session.Shifted k d twin) (reached : Reachable Honest (.idle session))
    (reached' : Reachable Honest (.idle twin)) : Indistinct later session twin := by
  induction later generalizing session twin with
  | nil => trivial
  | cons source later ih =>
    intro steps
    have both := shifted.run reached.fits reached'.fits source steps
    cases ran : session.run steps source <;> cases ran' : twin.run steps source <;>
      rw [ran, ran'] at both <;> cases both
    · exact .none
    · rename_i after after' same
      refine .some ⟨same.2.shows same.1, ih same.2 ?_ ?_⟩
      · exact reached.later (later_of_run ran)
      · exact reached'.later (later_of_run ran')

/-- Before and after a text that is refused. -/
theorem Prepared.shifted {session after : Session} {source : String} {entries : List (Nat × Nat)}
    (reached : Reachable Discreet (.idle session))
    (prepared : session.Prepared after source entries none) :
    Shifted session.nextId (after.nextId - session.nextId) session after := by
  have rests := reached.honest.fits
  have numbers := prepared.numbers
  refine ⟨by omega, Nat.le_refl _, fun table agrees => ⟨unmarked session.machine.store, ?_⟩⟩
  have itself : (shift session.nextId (after.nextId - session.nextId) table).LikeState
      (unmarked session.machine.store) session.nextId session.machine session.machine :=
    .refl (fun _ below => shift_below below) rests.sound rests.rooted reached.discreet agrees
  have agree : ∀ id < session.nextId, session.machine.distances[id]? = table id ∧
      after.machine.distances[(shift session.nextId (after.nextId - session.nextId) table).number id]? =
        table id := by
    intro id below
    rw [shift_below below]
    exact ⟨agrees id below, (prepared.extends.distance id below).trans (agrees id below)⟩
  have extended := itself.record agree
  rw [prepared.machine] at extended ⊢
  exact extended

/-- A text that is refused prints nothing and changes nothing but the distances on record and the
number of the next reference, and no later text can tell. -/
theorem refused_indistinct {session rejected : Session} {source : String} {steps : Nat}
    {faults : List Fault} (reached : Reachable Discreet (.idle session))
    (ran : session.run steps source = some rejected)
    (added : rejected.report.faults = session.report.faults ++ faults)
    (refused : ∃ fault ∈ faults, fault.isStatic) :
    (∃ distances, rejected.machine = { session.machine with distances }) ∧
      ∀ later, Indistinct later session rejected := by
  obtain ⟨others, adds, report⟩ := adds_of_run ran
  rw [report, Report.addAll_faults] at added
  cases List.append_cancel_left added
  have nothing := (session.gated_prepare source).nothing (adds.refused refused)
  rcases ready : session.prepare source with ⟨after, program⟩
  rw [ready] at nothing
  cases nothing
  obtain ⟨entries, prepared⟩ := prepared_of_prepare ready
  have same : after = rejected := by
    unfold Session.run at ran
    rw [ready] at ran
    exact Option.some.inj ran
  subst same
  refine ⟨⟨_, prepared.machine⟩, fun later => ?_⟩
  exact (prepared.shifted reached).indistinct later reached.honest
    (reached.honest.later (later_of_run ran))

theorem refused_indistinct_at_start : ∃ session rejected, session.nextId < rejected.nextId ∧
    ∀ later, Indistinct later session rejected := by
  let first := Session.start (fun _ => 0) false
  let complaint := Fault.parse 1 (some ")") (.missing .semicolon "after expression")
  have failed : (first.parsed "a)").result = .error [complaint] := by cbv
  have numbered : (first.parsed "a)").nextId = 1 := by cbv
  have ran : first.run 0 "a)" = some ⟨first.machine,
      first.report.addAll (lexical "a)" ++ [complaint]), (first.parsed "a)").nextId⟩ := by
    unfold Session.run
    rw [prepare_unparsed failed]
  have reached : Reachable Discreet (.idle first) := ⟨_, _, .refl _⟩
  have static : ∃ fault ∈ lexical "a)" ++ [complaint], fault.isStatic :=
    ⟨complaint, List.mem_append_right _ List.mem_cons_self, rfl⟩
  have later := (refused_indistinct reached ran (Report.addAll_faults _ _) static).2
  refine ⟨first, _, ?_, later⟩
  rw [numbered]
  exact Nat.zero_lt_one

end Session
end Lox
