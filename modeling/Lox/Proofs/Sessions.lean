import Lox.Proofs.Moments
import Lox.Proofs.Preservation
import Lox.Proofs.Writes

/-! Every program a session executes was resolved by the distances it has on record, and no later
text changes what is on record for it. -/

namespace Lox

open Machine Resolution

/-! ### Recording distances -/

theorem lookup_reverse (table : List (Nat × Nat)) (id : Nat) :
    table.findSomeRev? (fun entry => if entry.1 == id then some entry.2 else none) =
      table.reverse.lookup id := by
  rw [List.findSomeRev?_eq_findSome?_reverse]
  generalize table.reverse = entries
  induction entries with
  | nil => rfl
  | cons entry rest ih =>
    obtain ⟨key, distance⟩ := entry
    by_cases same : id = key
    · simp [same]
    · rw [List.lookup_cons, beq_false_of_ne same, List.findSome?_cons,
        beq_false_of_ne (Ne.symm same)]
      exact ih

theorem Machine.State.distances_record (state : State) (table : List (Nat × Nat)) (id : Nat) :
    (state.record table).distances[id]? = (table.reverse.lookup id).or state.distances[id]? := by
  rw [← lookup_reverse]
  exact Std.HashMap.getElem?_insertMany_list

theorem lookup_reverse_none {table : List (Nat × Nat)} {id : Nat}
    (absent : ∀ entry ∈ table, entry.1 ≠ id) : table.reverse.lookup id = none := by
  rw [List.lookup_eq_none_iff]
  intro entry member
  exact bne_iff_ne.mpr (Ne.symm (absent entry (List.mem_reverse.mp member)))

/-! ### Preparing a text -/

/-- What preparing a text does to a session, whether or not there is something to execute. -/
structure Session.Prepared (session after : Session) (source : String) (table : List (Nat × Nat))
    (program : Option (List Stmt)) : Prop where
  machine : after.machine = session.machine.record table
  numbers : session.nextId ≤ after.nextId
  within : ∀ entry ∈ table, session.nextId ≤ entry.1 ∧ entry.1 < after.nextId
  accepted : ∀ body, program = some body →
    stmtsRead Token.Genuine session.nextId after.nextId body ∧ Resolution.resolve body = .ok table

theorem Machine.State.record_nil (state : State) : state.record [] = state := by
  simp [State.record]

theorem Session.prepared_of_prepare {session after : Session} {source : String}
    {program : Option (List Stmt)} (prepared : session.prepare source = (after, program)) :
    ∃ table, session.Prepared after source table program := by
  have genuine := Source.tokens_genuine source
  unfold Session.prepare at prepared
  dsimp only at prepared
  have numbers := Tree.parse_nextId (Source.tokens (Source.scan source)) session.nextId
  cases parsed : (Tree.parse (Source.tokens (Source.scan source)) session.nextId).result with
  | error faults =>
    rw [parsed] at prepared
    cases prepared
    exact ⟨[], (State.record_nil _).symm, numbers, by simp, by simp⟩
  | ok body =>
    rw [parsed] at prepared
    obtain ⟨up, read⟩ := Tree.parse_read genuine parsed
    simp only [Session.resolve] at prepared
    cases resolved : Resolution.resolve body with
    | error faults =>
      rw [resolved] at prepared
      cases prepared
      exact ⟨[], (State.record_nil _).symm, numbers, by simp, by simp⟩
    | ok table =>
      rw [resolved] at prepared
      cases prepared
      refine ⟨table, rfl, numbers, resolve_within read resolved, ?_⟩
      intro other chosen
      split at chosen
      · cases chosen
        exact ⟨read, resolved⟩
      · cases chosen

theorem prepare_machine {session after : Session} {source : String}
    {program : Option (List Stmt)} (prepared : session.prepare source = (after, program)) :
    ∃ table, after.machine = session.machine.record table := by
  obtain ⟨table, prepared⟩ := Session.prepared_of_prepare prepared
  exact ⟨table, prepared.machine⟩

theorem Session.prepare_accepted {session : Session} {source : String} {program : List Stmt}
    {table : List (Nat × Nat)} (accepted : (session.prepare source).2 = some program)
    (resolved : Resolution.resolve program = .ok table) :
    ∃ running, session.prepare source = (running, some program) ∧
      running.machine = session.machine.record table := by
  rcases prepared : session.prepare source with ⟨running, body⟩
  rw [prepared] at accepted
  obtain rfl : body = _ := accepted
  obtain ⟨recorded, known⟩ := Session.prepared_of_prepare prepared
  cases resolved.symm.trans (known.accepted program rfl).2
  exact ⟨running, rfl, known.machine⟩

/-- The first text that is executed in a session has just its own distances on record. -/
theorem Session.prepare_first {session : Session} {source : String} {program : List Stmt}
    {table : List (Nat × Nat)} (fresh : ∀ id : Nat, session.machine.distances[id]? = none)
    (accepted : (session.prepare source).2 = some program)
    (resolved : Resolution.resolve program = .ok table) :
    ∃ running, session.prepare source = (running, some program) ∧
      running.machine = { session.machine with distances := running.machine.distances } ∧
      ∀ id : Nat, running.machine.distances[id]? = table.reverse.lookup id := by
  obtain ⟨running, prepared, machine⟩ := Session.prepare_accepted accepted resolved
  refine ⟨running, prepared, ?_, fun id => ?_⟩
  · rw [machine]
    rfl
  · rw [machine, State.distances_record, fresh id, Option.or_none]

/-! ### Idle and busy sessions -/

/-- A machine on which a text may be executed next, whose references are numbered from `next` on. -/
structure Machine.State.Rests (next : Nat) (state : State) : Prop where
  sound : state.Sound ⟨fun id => state.distances[id]?, next⟩
  atGlobals : state.current = globals
  rooted : 0 < state.store.scopes.size
  unused : ∀ id, next ≤ id → state.distances[id]? = none

def Moment.Fits : Moment → Prop
  | .idle session => State.Rests session.nextId session.machine
  | .busy session config =>
    ∃ records : Records, records.next = session.nextId ∧ config.Fits records ∧
      ∀ id, records.next ≤ id → records.distance? id = none

theorem honest_clock : Honest fun now _ => .ok (.number now) := by
  intro function method now arguments value _ given
  cases given
  trivial

theorem Machine.State.Rests.defineNative {state : State} {next : Nat} (rests : state.Rests next)
    (name : String) (arity : Nat) (act : HostFunction) :
    (state.defineNative name arity act).Rests next := by
  obtain ⟨sound, atGlobals, rooted, unused⟩ := rests
  let native : Value := .native ⟨state.hosts.size, name, arity⟩
  have kept := state.store.keeps_write globals.scope name native
  have holds : native.Fits ⟨fun id => state.distances[id]?, next⟩
      (state.store.write globals.scope name native) := trivial
  exact ⟨⟨sound.recorded, (sound.kept kept).write holds globals.scope name⟩, atGlobals,
    Nat.lt_of_lt_of_le rooted kept.size, unused⟩

theorem Moment.fits_start (clock : Nat → Float) (broken : Bool) :
    (Moment.idle (.start clock broken)).Fits := by
  have bare : (State.bare clock broken).Rests 0 := by
    refine ⟨⟨fun _ => rfl, ?_⟩, rfl, Nat.zero_lt_one, ?_⟩
    · refine ⟨?_, fun _ _ _ => nofun⟩
      intro address name value found
      cases address with
      | zero => cases found
      | succ address => cases found
    · intro id _
      exact Std.HashMap.getElem?_empty
  exact bare.defineNative "clock" 0 _

/-- The distances of one moment, with the number of the next reference. -/
def Moment.records (moment : Moment) : Records :=
  ⟨fun id => moment.machine.distances[id]?, moment.session.nextId⟩

/-- Nothing changes what is on record for the references of earlier texts. -/
theorem Session.Prepared.extends {session after : Session} {source : String}
    {table : List (Nat × Nat)} {program : Option (List Stmt)}
    (prepared : session.Prepared after source table program) :
    (Moment.idle session).records.Extends (Moment.idle after).records := by
  refine ⟨prepared.numbers, ?_⟩
  intro id below
  simp only [Moment.records, Moment.machine, prepared.machine]
  rw [State.distances_record, lookup_reverse_none, Option.none_or]
  intro entry member same
  have above := (prepared.within entry member).1
  rw [same] at above
  exact absurd below (Nat.not_lt.mpr above)

/-- Numbers that are not given yet are not on record. -/
theorem Session.Prepared.unused {session after : Session} {source : String}
    {table : List (Nat × Nat)} {program : Option (List Stmt)}
    (prepared : session.Prepared after source table program)
    (unused : ∀ id, session.nextId ≤ id → session.machine.distances[id]? = none) :
    ∀ id, after.nextId ≤ id → after.machine.distances[id]? = none := by
  intro id above
  rw [prepared.machine, State.distances_record, unused id (Nat.le_trans prepared.numbers above),
    lookup_reverse_none, Option.none_or]
  intro entry member same
  have below := (prepared.within entry member).2
  rw [same] at below
  exact absurd below (Nat.not_lt.mpr above)

theorem Session.Prepared.rests {session after : Session} {source : String}
    {table : List (Nat × Nat)} {program : Option (List Stmt)}
    (prepared : session.Prepared after source table program)
    (rests : session.machine.Rests session.nextId) : after.machine.Rests after.nextId := by
  have grown := prepared.extends
  have unused := prepared.unused rests.unused
  simp only [Moment.records, Moment.machine, Moment.session] at grown
  obtain ⟨sound, atGlobals, rooted, _⟩ := rests
  rw [prepared.machine] at grown unused ⊢
  refine ⟨⟨fun _ => rfl, ?_⟩, atGlobals, rooted, unused⟩
  exact sound.holds.imp (fun _ fits => fits.later grown) (fun _ fits => fits.later grown)

theorem Session.Prepared.resolved {session after : Session} {source : String}
    {table : List (Nat × Nat)} {program : List Stmt}
    (prepared : session.Prepared after source table (some program))
    (unused : ∀ id, session.nextId ≤ id → session.machine.distances[id]? = none) :
    stmtsResolved ⟨fun id => after.machine.distances[id]?, after.nextId⟩ [] program := by
  obtain ⟨read, accepted⟩ := prepared.accepted program rfl
  refine resolve_resolved (fun _ genuine => genuine) read accepted (Nat.le_refl _) ?_
  intro id above
  dsimp only
  rw [prepared.machine, State.distances_record, unused id above, Option.or_none]

theorem Machine.State.Rests.interpreting {state : State} {next : Nat} (rests : state.Rests next)
    {program : List Stmt}
    (resolved : stmtsResolved ⟨fun id => state.distances[id]?, next⟩ [] program) :
    (interpreting program state).Fits ⟨fun id => state.distances[id]?, next⟩ := by
  obtain ⟨sound, atGlobals, rooted, _⟩ := rests
  have describes : Describes state.store state.current [] := by
    rw [atGlobals]
    exact ⟨.globals rooted, fun _ => nofun⟩
  exact ⟨sound, trivial, [], describes, atGlobals, rfl, rooted, resolved, rfl⟩

/-- Where an execution ends, the next text can be executed. -/
theorem Machine.Config.Fits.rests {records : Records} {config : Config} {ending : Signal × State}
    (fits : config.Fits records) (ended : config.finished? = some ending)
    (unused : ∀ id, records.next ≤ id → records.distance? id = none) :
    ending.2.Rests records.next := by
  obtain ⟨control, stack, state⟩ := config
  obtain ⟨sound, fits⟩ := fits
  cases control with
  | eval _ | exec _ => cases ended
  | signal signal =>
    cases stack with
    | cons _ _ => cases ended
    | nil =>
      cases ended
      have waits : ∃ scopes, StackFits records state.store state.current scopes [] := by
        cases signal with
        | done _ =>
          obtain ⟨_, scopes, _, waits⟩ := fits
          exact ⟨scopes, waits⟩
        | returned _ => exact fits.2
        | failed _ => exact fits
      obtain ⟨scopes, atGlobals, _, rooted⟩ := waits
      have same : records = ⟨fun id => state.distances[id]?, records.next⟩ := by
        simp only [sound.recorded]
      refine ⟨same ▸ sound, atGlobals, rooted, ?_⟩
      intro id above
      rw [sound.recorded]
      exact unused id above

variable {hosts : HostFunction → Prop} {first last : Moment}

theorem Session.settle_same (session : Session) (ending : Signal × State) :
    (session.settle ending).machine = ending.2 ∧
      (session.settle ending).nextId = session.nextId := by
  unfold Session.settle
  cases ending.1 <;> exact ⟨rfl, rfl⟩

theorem Machine.Config.state_finished? {config : Config} {ending : Signal × State}
    (ended : config.finished? = some ending) : ending.2 = config.state := by
  rw [eq_of_finished ended]

theorem Next.fits (move : Next hosts first last) (fits : first.Fits)
    (answers : ∀ session config records, first = .busy session config →
      records.next = session.nextId → config.Fits records →
        ∀ value, config.Answers value → value.Fits records config.state.store) : last.Fits := by
  cases move with
  | @native session name arity act _ => exact State.Rests.defineNative fits name arity act
  | @refuse session after source refused =>
    obtain ⟨table, prepared⟩ := Session.prepared_of_prepare refused
    exact prepared.rests fits
  | @begin session after source program accepted =>
    obtain ⟨table, prepared⟩ := Session.prepared_of_prepare accepted
    have rests := prepared.rests fits
    exact ⟨_, rfl, rests.interpreting (prepared.resolved fits.unused), rests.unused⟩
  | @step session config going =>
    obtain ⟨records, next, fits, unused⟩ := fits
    exact ⟨records, next, fits.step (answers session config records rfl next fits), unused⟩
  | @settle session config ending ended =>
    obtain ⟨records, next, config, unused⟩ := fits
    have rests := config.rests ended unused
    obtain ⟨machine, numbers⟩ := session.settle_same ending
    rw [next] at rests
    simp only [Moment.Fits, machine, numbers]
    exact rests

/-- A step records nothing. -/
theorem Moment.records_step (session : Session) (config : Config) :
    (Moment.busy session (step config)).records = (Moment.busy session config).records := by
  simp only [Moment.records, Moment.machine, distances_step]
  rfl

theorem Next.extends (move : Next hosts first last) : first.records.Extends last.records := by
  cases move with
  | native => exact .refl _
  | refuse refused =>
    obtain ⟨table, prepared⟩ := Session.prepared_of_prepare refused
    exact prepared.extends
  | begin accepted =>
    obtain ⟨table, prepared⟩ := Session.prepared_of_prepare accepted
    exact prepared.extends
  | step going =>
    rw [Moment.records_step]
    exact .refl _
  | @settle session config ending ended =>
    have same := session.settle_same ending
    simp only [Moment.records, Moment.machine, Moment.session, same, Config.state_finished? ended]
    exact .refl _

theorem Later.extends (later : Later hosts first last) : first.records.Extends last.records := by
  induction later with
  | refl => exact .refl _
  | next _ move ih => exact ih.trans move.extends

/-- Numbers that no reference has yet are not on record. -/
def Moment.Unused (moment : Moment) : Prop :=
  ∀ id, moment.records.next ≤ id → moment.records.distance? id = none

theorem Next.unused (move : Next hosts first last) (unused : first.Unused) : last.Unused := by
  cases move with
  | native _ => exact unused
  | refuse refused =>
    obtain ⟨table, prepared⟩ := Session.prepared_of_prepare refused
    exact prepared.unused unused
  | begin accepted =>
    obtain ⟨table, prepared⟩ := Session.prepared_of_prepare accepted
    exact prepared.unused unused
  | step going =>
    rw [Moment.Unused, Moment.records_step]
    exact unused
  | @settle session config ending ended =>
    have same := session.settle_same ending
    simp only [Moment.Unused, Moment.records, Moment.machine, Moment.session, same,
      Config.state_finished? ended]
    exact unused

theorem Next.keeps (move : Next hosts first last) :
    first.machine.store.Keeps last.machine.store := by
  cases move with
  | native _ => exact Store.keeps_write _ _ _ _
  | refuse prepared | begin prepared =>
    obtain ⟨table, same⟩ := prepare_machine prepared
    exact .of_eq (congrArg State.store same).symm
  | @step session config going => exact keeps_step config
  | @settle session config ending ended =>
    obtain ⟨signal, after⟩ := ending
    obtain rfl := eq_of_finished ended
    cases signal <;> exact .refl _

theorem Later.keeps (later : Later hosts first last) :
    first.machine.store.Keeps last.machine.store := by
  induction later with
  | refl => exact .refl _
  | next _ move ih => exact ih.trans move.keeps

/-! ### Natives of one kind -/

theorem Next.natives (move : Next hosts first last)
    (before : ∀ act ∈ first.machine.hosts, hosts act) : ∀ act ∈ last.machine.hosts, hosts act := by
  cases move with
  | @native session name arity act kind =>
    intro other member
    rcases Array.mem_push.mp member with member | same
    · exact before other member
    · exact same ▸ kind
  | refuse prepared | begin prepared =>
    obtain ⟨table, same⟩ := prepare_machine prepared
    have hosts := congrArg State.hosts same
    exact fun act member => before act (hosts ▸ member)
  | @step session config going => exact fun act member => before act (hosts_step config ▸ member)
  | @settle session config ending ended =>
    have same := (session.settle_same ending).1.trans (Config.state_finished? ended)
    simp only [Moment.machine, same]
    exact before

theorem Moment.honest_start (clock : Nat → Float) (broken : Bool) :
    ∀ act ∈ (Moment.idle (.start clock broken)).machine.hosts, Honest act := by
  intro act member
  have same : act = fun now _ => .ok (.number now) := by
    simpa [Moment.machine, Session.start, State.start, State.defineNative, State.bare] using member
  exact same ▸ honest_clock

theorem Reachable.natives {moment : Moment} (reached : Reachable Honest moment) :
    ∀ act ∈ moment.machine.hosts, Honest act := by
  obtain ⟨clock, broken, path⟩ := reached
  induction path with
  | refl => exact Moment.honest_start clock broken
  | next _ move ih => exact move.natives ih

theorem Reachable.fits {moment : Moment} (reached : Reachable Honest moment) : moment.Fits := by
  obtain ⟨clock, broken, path⟩ := reached
  induction path with
  | refl => exact Moment.fits_start clock broken
  | next earlier move ih =>
    have honest := Reachable.natives ⟨clock, broken, earlier⟩
    refine move.fits ih ?_
    rintro session config records rfl _ fits value answers
    exact answers.holds honest fits.holds

end Lox
