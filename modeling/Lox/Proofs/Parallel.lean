import Lox.Proofs.Lockstep

/-! Whole runs of programs that are alike. If one ends so does the other, after the same number of
steps; and if the second has statements left, it goes on with them from where the first ends. -/

namespace Lox
namespace Likeness

open Machine Resolution

variable {L : Likeness} {flags marks : List Bool} {next : Nat} {tail : List Stmt}
  {records : Records} {config twin : Config}

/-! ### Runs that end together -/

variable (L flags next) in
structure LikeEnding (ending twin : Signal × State) : Prop where
  signal : L.LikeSignal flags ending.1 twin.1
  state : L.LikeState flags next ending.2 twin.2

theorem LikeConfig.finished? (alike : L.LikeConfig flags next tail config twin) :
    Option.Rel (L.LikeEnding flags next) config.finished? twin.finished? := by
  obtain ⟨state, marks, marked, control, waits⟩ := alike
  obtain ⟨_, _, first⟩ := config
  obtain ⟨_, _, second⟩ := twin
  cases control with
  | eval _ => exact .none
  | exec _ => exact .none
  | signal signal =>
    cases waits with
    | nil _ => exact .some ⟨signal, state⟩
    | frame _ _ | restore _ _ | activation _ _ _ _ | program _ => exact .none

theorem LikeConfig.going (alike : L.LikeConfig flags next tail config twin) :
    config.finished? = none ↔ twin.finished? = none := by
  have same := alike.finished?
  generalize config.finished? = ending, twin.finished? = other at same ⊢
  cases same <;> simp

theorem LikeConfig.honest (alike : L.LikeConfig flags next tail config twin) :
    ∀ act ∈ config.state.hosts, Honest act :=
  fun act member => (alike.state.discreet act member).honest

theorem LikeConfig.advance (alike : L.LikeConfig flags records.next [] config twin)
    (fits : config.Fits records) (steps : Nat) :
    L.Matched flags records.next [] (advance steps config) (advance steps twin) := by
  induction steps generalizing flags config twin with
  | zero => exact alike.matched
  | succ steps ih =>
    have going := alike.going
    unfold Machine.advance
    cases ended : config.finished? with
    | some ending =>
      cases ended' : twin.finished? with
      | some ending' => exact alike.matched
      | none => simp [going.mpr ended'] at ended
    | none =>
      rw [going.mp ended]
      obtain ⟨more, stepped⟩ := alike.step fits (.inl rfl)
      obtain ⟨further, later⟩ := ih stepped (fits.step_honest alike.honest)
      exact ⟨more ++ further, by rwa [← List.append_assoc]⟩

/-- Programs that are alike take the same number of steps, and end alike. -/
theorem LikeConfig.run (alike : L.LikeConfig flags records.next [] config twin)
    (fits : config.Fits records) (steps : Nat) :
    Option.Rel (fun ending other => ∃ more, L.LikeEnding (flags ++ more) records.next ending other)
      (Machine.run steps config) (Machine.run steps twin) := by
  obtain ⟨more, later⟩ := alike.advance fits steps
  have ends := later.finished?
  rw [run_eq_advance, run_eq_advance]
  generalize (Machine.advance steps config).finished? = ending,
    (Machine.advance steps twin).finished? = other at ends ⊢
  cases ends with
  | none => exact .none
  | some alike => exact .some ⟨more, alike⟩

/-! ### A second program that goes on -/

/-- The statements of a program come next, after whatever ended well before them. -/
theorem run_program {signal : Signal} (unfailed : ∀ fault, signal ≠ .failed fault)
    (rest : List Stmt) (state : State) (steps : Nat) :
    Machine.run steps ⟨.signal signal, [.program rest], state⟩ =
      Machine.run steps (interpreting rest state) := by
  cases steps with
  | zero => rfl
  | succ steps =>
    cases signal with
    | done _ => rfl
    | returned _ => rfl
    | failed fault => exact absurd rfl (unfailed fault)

theorem LikeConfig.unfinished (alike : L.LikeConfig flags next tail config twin)
    (left : tail ≠ []) : config.finished? = none := by
  obtain ⟨_, _, _, control, waits⟩ := alike
  obtain ⟨_, stack, _⟩ := config
  obtain ⟨_, stack', _⟩ := twin
  cases control with
  | eval _ => rfl
  | exec _ => rfl
  | signal _ =>
    cases waits with
    | nil none => exact absurd none left
    | frame _ _ | restore _ _ | activation _ _ _ _ | program _ => rfl

theorem run_state {ending : Signal × State} {steps : Nat}
    (ran : Machine.run steps config = some ending) : ending.2 = (Machine.advance steps config).state := by
  rw [run_eq_advance] at ran
  exact Config.state_finished? ran

/-- Where a program ends without a fault, so does one that is alike. -/
theorem LikeConfig.stops (alike : L.LikeConfig flags records.next [] config twin)
    (fits : config.Fits records) {steps : Nat} {signal : Signal} {final : State}
    (ends : Machine.run steps config = some (signal, final))
    (unfailed : ∀ fault, signal ≠ .failed fault) :
    ∃ more other, L.LikeState (flags ++ more) records.next final
        (Machine.advance steps twin).state ∧ (∀ fault, other ≠ .failed fault) ∧
      Machine.run steps twin = some (other, (Machine.advance steps twin).state) := by
  have same := alike.run fits steps
  rw [ends] at same
  cases ran : Machine.run steps twin with
  | none => rw [ran] at same; cases same
  | some ending =>
    rw [ran] at same
    cases same with
    | some given =>
      obtain ⟨more, signals, state⟩ := given
      rw [run_state ran] at state
      refine ⟨more, ending.1, state, ?_, ?_⟩
      · intro fault failed
        rw [failed] at signals
        cases signals
        exact unfailed _ rfl
      · rw [← run_state ran]

/-- Where the first program ends without a fault, the second goes on as if its other statements were a
program of their own. -/
theorem LikeConfig.goes_on (alike : L.LikeConfig flags records.next tail config twin)
    (fits : config.Fits records) (left : tail ≠ []) {steps : Nat} {signal : Signal}
    {final : State} (ends : Machine.run steps config = some (signal, final))
    (unfailed : ∀ fault, signal ≠ .failed fault) :
    ∃ taken more, L.LikeState (flags ++ more) records.next final
        (Machine.advance taken twin).state ∧
      ∀ steps, Machine.run (taken + steps) twin =
        Machine.run steps (interpreting tail (Machine.advance taken twin).state) := by
  induction steps generalizing flags config twin with
  | zero =>
    rw [Machine.run, alike.unfinished left] at ends
    cases ends
  | succ steps ih =>
    have running := alike.unfinished left
    rw [run_of_going running] at ends
    by_cases last : Ends config
    · have here : ∀ {value : Signal} {state : State}, (∀ fault, value ≠ .failed fault) →
          config = ⟨.signal value, [.program []], state⟩ →
            Machine.step config = .done .nil [] state →
              ∃ taken more, L.LikeState (flags ++ more) records.next final
                  (Machine.advance taken twin).state ∧
                ∀ steps, Machine.run (taken + steps) twin =
                  Machine.run steps (interpreting tail (Machine.advance taken twin).state) := by
        intro value state fine shape stepped
        rw [stepped] at ends
        have same := run_finished rfl ends
        obtain ⟨state', marks, marked, control, waits⟩ := alike
        subst shape
        cases same
        refine ⟨0, [], by rwa [List.append_nil], ?_⟩
        obtain ⟨_, _, second⟩ := twin
        intro steps
        rw [Nat.zero_add]
        cases control with
        | @signal _ value' alike =>
          cases waits with
          | frame frame _ => cases frame
          | program rest =>
            cases rest
            refine run_program ?_ tail second steps
            intro fault same
            subst same
            cases alike
            exact fine _ rfl
      cases last with
      | done => exact here (fun _ => by simp) rfl rfl
      | returned => exact here (fun _ => by simp) rfl rfl
      | failed =>
        have same := run_finished rfl ends
        cases same
        exact absurd rfl (unfailed _)
    · obtain ⟨more, stepped⟩ := alike.step fits (.inr last)
      obtain ⟨taken, further, state, goes⟩ := ih stepped (fits.step_honest alike.honest) ends
      have going := alike.going.mp running
      refine ⟨taken + 1, more ++ further, ?_, ?_⟩
      · rw [advance_of_going going, ← List.append_assoc]
        exact state
      · intro steps
        rw [Nat.add_right_comm, run_of_going going, advance_of_going going]
        exact goes steps

/-- If the longer of two programs ends, so does the other. -/
theorem LikeConfig.ends (alike : L.LikeConfig flags records.next tail config twin)
    (fits : config.Fits records) {steps : Nat} {ending : Signal × State}
    (ran : Machine.run steps twin = some ending) :
    ∃ steps ending, Machine.run steps config = some ending := by
  induction steps generalizing flags config twin with
  | zero =>
    cases ended : config.finished? with
    | some ending => exact ⟨0, ending, ended⟩
    | none => cases ran.symm.trans (alike.going.mp ended)
  | succ steps ih =>
    cases ended : config.finished? with
    | some ending => exact ⟨0, ending, ended⟩
    | none =>
      by_cases last : Ends config
      · cases last <;> exact ⟨1, _, rfl⟩
      · obtain ⟨more, stepped⟩ := alike.step fits (.inr last)
        rw [run_of_going (alike.going.mp ended)] at ran
        obtain ⟨others, ending, ran⟩ := ih stepped (fits.step_honest alike.honest) ran
        exact ⟨others + 1, ending, (run_of_going ended others).trans ran⟩

/-! ### A state and itself -/

/-- No scope of a state is marked that has run only one program so far. -/
def unmarked (store : Store) : List Bool := List.replicate store.scopes.size false

theorem Models.inside {store : Store} {addresses : List Nat} {scopes : List (Bindings Bool)}
    (models : Models store addresses scopes) : ∀ address ∈ addresses, address < store.scopes.size := by
  induction models with
  | globals positive =>
    intro address member
    rw [List.mem_singleton.mp member]
    exact positive
  | inside _ below _ _ ih =>
    intro address member
    rcases List.mem_cons.mp member with here | outer
    · rw [here]
      exact below
    · exact ih address outer

theorem marked_unmarked {store : Store} {addresses : List Nat}
    (inside : ∀ address ∈ addresses, address < store.scopes.size) :
    Marked (unmarked store) addresses (List.replicate addresses.length false) := by
  unfold Marked unmarked
  rw [List.map_replicate, ← List.map_const', List.map_inj_left]
  intro address member
  exact List.getElem?_replicate_of_lt (inside address member)

theorem plain_replicate (count : Nat) : Plain (List.replicate count false) :=
  fun _ member => List.eq_of_mem_replicate member

theorem itself_like (fixed : ∀ id, L.number id = id) (program : List Stmt) :
    L.LikeStmts [false] program program :=
  have kept : L.Fixes (stmtUses 0 program) := fun use _ => fixed use.id
  .refl (plain_replicate 1) program kept

theorem twins_refl {store : Store} {f : Function} {inner : List Bool} (plain : Plain inner)
    (inside : ∀ address ∈ f.closure.scopes, address < store.scopes.size)
    (fixed : L.Fixes (f.declaration.uses 0)) : L.Twins inner (unmarked store) f f := by
  refine ⟨rfl, rfl, rfl, _, marked_unmarked inside, .refl ?_ _ fixed⟩
  intro mark member
  rcases List.mem_append.mp member with here | there
  · exact plain mark here
  · exact plain_replicate _ mark there

variable (fixed : ∀ id < records.next, L.number id = id)
include fixed

theorem fixes_declaration {f : FunctionDecl} {scopes : List (Bindings Bool)}
    (resolved : f.Resolved records scopes) : L.Fixes (f.uses 0) :=
  fun use member => fixed use.id (FunctionDecl.Resolved.numbered 0 f resolved use member)

theorem LikeValue.refl {store : Store} {value : Value} (fits : value.Fits records store) :
    L.LikeValue (unmarked store) value value := by
  refine fits.like ?_ ?_
  · intro f fits
    obtain ⟨_, models, resolved⟩ := fits
    exact twins_refl (fun _ => nofun) (Models.inside models) (fixes_declaration fixed resolved)
  · intro f fits
    obtain ⟨_, models, resolved⟩ := fits
    exact twins_refl (plain_replicate 1) (Models.inside models) (fixes_declaration fixed resolved)

theorem LikeStore.refl {store : Store}
    (holds : store.Holds (Function.Fits records store) (Function.FitsMethod records store)) :
    L.LikeStore (unmarked store) store store := by
  have like {found : Option Value} (fits : ∀ value, found = some value → value.Fits records store) :
      Option.Rel (L.LikeValue (unmarked store)) found found := by
    cases found with
    | none => exact .none
    | some value => exact .some (LikeValue.refl fixed (fits value rfl))
  refine ⟨by simp [unmarked], rfl, ?_, rfl, ?_⟩
  · intro address mark bindings twin flag here there
    have plain : mark = false := List.eq_of_mem_replicate (List.mem_of_getElem? flag)
    rw [here] at there
    cases there
    subst plain
    refine ⟨(List.map_id _).symm, ?_⟩
    intro name
    refine like fun value found => holds.scopes address name value ?_
    rw [Store.lookup?, here]
    exact found
  · intro identity bindings twin here there
    rw [here] at there
    cases there
    refine ⟨(List.map_id _).symm, ?_⟩
    intro name
    refine like fun value found => ?_
    refine holds.fields ⟨identity, ⟨⟨0, "", .empty⟩, []⟩⟩ name value ?_
    rw [Store.field?, here]
    exact found

theorem LikeState.refl {state : State} (sound : state.Sound records)
    (rooted : 0 < state.store.scopes.size) (discreet : ∀ act ∈ state.hosts, Discreet act)
    (table : ∀ id < records.next, state.distances[id]? = L.table id) :
    L.LikeState (unmarked state.store) records.next state state := by
  refine ⟨.refl fixed sound.holds, rfl, rfl, discreet, rfl, rfl, rfl, rfl,
    List.getElem?_replicate_of_lt rooted, ?_⟩
  intro id below
  rw [fixed id below]
  exact ⟨table id below, table id below⟩

omit fixed

/-- References that were numbered later have distances too, each in its own table. -/
theorem LikeState.record {first second : State} (alike : L.LikeState flags next first second)
    {later : Nat} {distances distances' : Distances}
    (table : ∀ id < later,
      distances[id]? = L.table id ∧ distances'[L.number id]? = L.table id) :
    L.LikeState flags later { first with distances } { second with distances := distances' } :=
  ⟨alike.store, alike.current, alike.hosts, alike.discreet, alike.born, alike.output, alike.clock,
    alike.hostCalls, alike.rooted, table⟩

theorem LikeState.interpreting {first second : State} (alike : L.LikeState flags next first second)
    (atGlobals : first.current = globals) {program program' : List Stmt}
    (programs : L.LikeStmts [false] program program') :
    L.LikeConfig flags next tail (interpreting program first)
      (interpreting (program' ++ tail) second) := by
  refine ⟨alike, [false], ?_, .signal (.done .nil), .program programs⟩
  have marked : Marked flags globals.scopes [false] := by
    unfold Marked
    simp [globals, Environment.scopes, alike.rooted]
  exact atGlobals ▸ marked

theorem LikeState.interpret {first second : State} (alike : L.LikeState flags next first second)
    (atGlobals : first.current = globals) {program program' : List Stmt}
    (programs : L.LikeStmts [false] program program') :
    L.LikeConfig flags next [] (Machine.interpreting program first)
      (Machine.interpreting program' second) :=
  List.append_nil program' ▸ alike.interpreting atGlobals programs

/-! ### Host functions of a session -/

/-- No name is changed. -/
def unswapped (line : Nat → Nat → Prop) (line_refl : ∀ place, line place place)
    (number : Nat → Nat) (table : Nat → Option Nat) : Likeness where
  table := table
  line := line
  number := number
  swap := id
  line_refl := line_refl
  swap_swap _ := rfl
  swap_this := rfl
  swap_super := rfl

/-- Nothing is changed. -/
def same (table : Nat → Option Nat) : Likeness := unswapped Eq Eq.refl id table

end Likeness

open Machine Likeness

/-- The host functions of a session do not look into functions. -/
def Moment.Discreet : Moment → Prop
  | .idle session => ∀ act ∈ session.machine.hosts, Machine.Discreet act
  | .busy session config => ∃ table flags,
    (Likeness.same table).LikeConfig flags session.nextId [] config config

theorem Next.discreet {first last : Moment} (move : Next Machine.Discreet first last)
    (fits : first.Fits) (discreet : first.Discreet) : last.Discreet := by
  cases move with
  | @native session name arity act given =>
    intro other member
    rcases Array.mem_push.mp member with member | same
    · exact discreet other member
    · exact same ▸ given
  | refuse refused =>
    obtain ⟨table, prepared⟩ := Session.prepared_of_prepare refused
    simp only [Moment.Discreet, prepared.machine]
    exact discreet
  | @begin session after source program accepted =>
    obtain ⟨table, prepared⟩ := Session.prepared_of_prepare accepted
    have rests := prepared.rests fits
    have hosts : ∀ act ∈ after.machine.hosts, Machine.Discreet act := by
      rw [prepared.machine]
      exact discreet
    have state : (Likeness.same fun id => after.machine.distances[id]?).LikeState
        (unmarked after.machine.store) after.nextId after.machine after.machine :=
      .refl (fun _ _ => rfl) rests.sound rests.rooted hosts fun _ _ => rfl
    have alike := state.interpret rests.atGlobals (itself_like (fun _ => rfl) program)
    exact ⟨_, _, alike⟩
  | @step session config going =>
    obtain ⟨table, flags, alike⟩ := discreet
    obtain ⟨records, next, config, _⟩ := fits
    rw [← next] at alike
    obtain ⟨more, stepped⟩ := alike.step config (.inl rfl)
    rw [next] at stepped
    exact ⟨table, _, stepped⟩
  | @settle session config ending ended =>
    obtain ⟨table, flags, alike⟩ := discreet
    simp only [Moment.Discreet, (session.settle_same ending).1, Config.state_finished? ended]
    exact alike.state.discreet

theorem Reachable.discreet {moment : Moment} (reached : Reachable Machine.Discreet moment) :
    moment.Discreet := by
  obtain ⟨clock, broken, path⟩ := reached
  induction path with
  | refl =>
    intro act member
    have same : act = fun now _ => .ok (.number now) := by
      simpa [Session.start, State.start, State.defineNative, State.bare] using member
    exact same ▸ discreet_clock
  | next earlier move ih =>
    have before : Reachable Machine.Discreet _ := ⟨clock, broken, earlier⟩
    exact move.discreet before.honest.fits ih

end Lox
