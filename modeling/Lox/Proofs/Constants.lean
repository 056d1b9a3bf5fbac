import Mathlib
import Lox.Proofs.Accounts
import Lox.Proofs.Hosts
import Lox.Proofs.Places

/-! Locals that no assignment refers to. In each environment that is made for their scope they are
bound once, and what they are bound to then is what is read there ever after. -/

namespace Lox

open Machine Resolution

/-- The next step makes an environment for a body: it executes a block, or calls a function. -/
inductive Machine.Config.Opens (config : Config) : Body → Nat → Prop
  | block {statements : List Stmt} : config.control = .exec (.block statements) →
      config.Opens ⟨[], statements⟩ config.state.store.scopes.size
  | call {caller : Environment} {function : Function} {line : Nat} {stack : List Frame} :
      (step config).stack =
        .sequence function.declaration.body :: .activation caller function line :: stack →
      config.state.store.scopes.size ≤ (step config).state.current.scope →
      config.Opens ⟨function.declaration.params, function.declaration.body⟩
        (step config).state.current.scope

/-- A reference is to a certain environment. -/
def Machine.State.RefersTo (state : State) (reference : Reference) (address : Nat) : Prop :=
  ∃ distance found, state.distance? reference = some distance ∧
    state.current.ancestor? distance = some found ∧ found.scope = address

/-- From a stage on, a name in an environment is declared at most once, and it keeps the value it was
bound to. -/
structure Stage.Constant (stage : Stage) (address : Nat) (name : String) : Prop where
  declared : ∀ session config kept, Later .strict stage ⟨.busy session config, kept⟩ →
    config.Declares name → config.state.current.scope = address →
      ¬config.state.store.binds name address
  kept : ∀ first last value, Later .strict stage first → Later .strict first last →
    first.moment.machine.store.lookup? address name = some value →
      last.moment.machine.store.lookup? address name = some value
  read : ∀ first session config kept value reference, Later .strict stage first →
    first.moment.machine.store.lookup? address name = some value →
      Later .strict first ⟨.busy session config, kept⟩ →
        config.control = .eval (.variable reference) → reference.name.lexeme = name →
          config.state.RefersTo reference address →
            step config = .done value config.stack config.state

/-! ### Where environments come from -/

/-- The globals were opened for no body. -/
structure Moment.Placed (ledger : Ledger) (moment : Moment) : Prop where
  rooted : ledger[0]? = some none
  machine : moment.machine.Placed ledger
  config : ∀ session config, moment = .busy session config → config.Placed ledger

variable {ledger : Ledger} {first last : Moment} {session : Session} {config : Config}
  {address : Nat} {name : String} {body : Body}

theorem Moment.Placed.idle (rooted : ledger[0]? = some none)
    (placed : session.machine.Placed ledger) : (Moment.idle session).Placed ledger :=
  ⟨rooted, placed, by simp⟩

theorem Moment.Placed.busy (rooted : ledger[0]? = some none) (placed : config.Placed ledger) :
    (Moment.busy session config).Placed ledger := by
  refine ⟨rooted, placed.located.placed, ?_⟩
  intro other further same
  cases same
  exact placed

theorem Moment.placed_start (clock : Nat → Float) (broken : Bool) :
    (Moment.idle (.start clock broken)).Placed [none] := by
  refine .idle rfl ⟨rfl, ?_, fun _ _ _ => nofun⟩
  intro address name value found
  cases address with
  | zero =>
    have bound : (Bindings.empty.insert "clock" (.native ⟨0, "clock", 0⟩)).find? name =
      some value := found
    rw [Bindings.find?_insert] at bound
    split at bound
    · cases bound
      trivial
    · cases bound
  | succ address => cases found

theorem rooted_append (rooted : ledger[0]? = some none) (more : Ledger) :
    (ledger ++ more)[0]? = some none := by
  have below : 0 < ledger.length := (List.getElem?_eq_some_iff.mp rooted).1
  rw [List.getElem?_append_left below, rooted]

theorem Next.placed {hosts : HostFunction → Prop} (move : Next hosts first last)
    (fits : first.Fits) (placed : first.Placed ledger)
    (answers : ∀ session config, first = .busy session config →
      ∀ value, config.Answers value → value.Placed ledger) :
    ∃ more, last.Placed (ledger ++ more) := by
  obtain ⟨rooted, machine, running⟩ := placed
  have size := machine.size
  cases move with
  | @native session name arity act _ =>
    refine ⟨[], ?_⟩
    rw [List.append_nil]
    refine .idle rooted ⟨?_, ?_⟩
    · exact (Store.size_write _ _ _ _).trans size
    · have native : (Value.native ⟨session.machine.hosts.size, name, arity⟩).Placed ledger :=
        trivial
      exact machine.holds.write native globals.scope name
  | refuse refused =>
    obtain ⟨table, prepared⟩ := Session.prepared_of_prepare refused
    refine ⟨[], ?_⟩
    rw [List.append_nil]
    refine .idle rooted ?_
    rw [prepared.machine]
    exact ⟨size, machine.holds⟩
  | @begin session after source program accepted =>
    obtain ⟨table, prepared⟩ := Session.prepared_of_prepare accepted
    have rests := prepared.rests fits
    refine ⟨[], ?_⟩
    rw [List.append_nil]
    have here : after.machine.current.scopes = [0] := by
      rw [rests.atGlobals]
      rfl
    have inside : ∀ address ∈ after.machine.current.scopes, address < ledger.length := by
      intro address member
      rw [here, List.mem_singleton] at member
      rw [member]
      exact (List.getElem?_eq_some_iff.mp rooted).1
    have uses : Lox.Placed ledger after.machine.current.scopes (stmtUses · program) := by
      refine ⟨inside, ?_⟩
      intro depth address body there entry
      rw [here] at there
      cases depth with
      | zero =>
        cases there
        rw [rooted] at entry
        cases entry
      | succ depth => cases there
    have held : after.machine.Placed ledger := by
      rw [prepared.machine]
      exact ⟨size, machine.holds⟩
    refine .busy rooted ⟨⟨held, inside, uses, trivial, trivial⟩, ?_, trivial⟩
    exact uses.sub fun _ => List.nil_subset _
  | @step session config going =>
    obtain ⟨more, placed, _⟩ := (running session config rfl).step (answers session config rfl)
    exact ⟨more, .busy (rooted_append rooted more) placed⟩
  | @settle session config ending ended =>
    refine ⟨[], ?_⟩
    rw [List.append_nil]
    refine .idle rooted ?_
    rw [(session.settle_same ending).1, Config.state_finished? ended]
    exact machine

/-! ### Hosts -/

theorem Machine.Config.Placed.holds (placed : config.Placed ledger) :
    config.Holds (Function.Placed ledger) (Function.PlacedMethod ledger) :=
  ⟨placed.located.placed.holds, placed.value, placed.located.waits.holds⟩

theorem Machine.Config.Placed.acts {kept more : List Value} {state : State}
    (placed : config.Placed ledger) (held : ∀ value ∈ kept, value.Placed ledger)
    (acts : Acts .strict config kept state more) :
    ∃ extra, Config.Placed (ledger ++ extra) { config with state } ∧
      ∀ value ∈ more, value.Placed (ledger ++ extra) := by
  have offered {value : Value} (offers : config.Offers .strict kept value) : value.Placed ledger :=
    offers _ _ nofun placed.holds held
  obtain ⟨located, uses, value⟩ := placed
  have still {state : State} {more : List Value} (there : Located ledger state config.stack)
      (current : state.current = config.state.current) (held : ∀ value ∈ more, value.Placed ledger) :
      ∃ extra, Config.Placed (ledger ++ extra) { config with state } ∧
        ∀ value ∈ more, value.Placed (ledger ++ extra) :=
    ⟨[], by rw [List.append_nil]; exact ⟨there, current ▸ uses, value⟩, by rwa [List.append_nil]⟩
  cases acts with
  | turns hosts =>
    exact still ⟨⟨located.placed.size, located.placed.holds⟩, located.inside, located.waits⟩ rfl held
  | keeps offers => exact still located rfl (List.forall_mem_cons.mpr ⟨offered offers, held⟩)
  | defines name offers => exact still (located.write (offered offers) _ name) rfl held
  | sets i name offers =>
    exact still (located.withStore rfl (located.placed.holds.setField (offered offers) i name)) rfl
      held
  | makes c => exact still (located.withStore rfl (located.placed.holds.instantiate c)) rfl held
  | binds within found receiver =>
    have method := (offered within).findMethod? found
    obtain ⟨there, function⟩ := located.bindMethod method (offered receiver)
    refine ⟨[none], ⟨there, uses.grow _, ?_⟩, List.forall_mem_cons.mpr ⟨function, ?_⟩⟩
    · exact value.imp (fun _ placed => placed.grow _) (fun _ placed => placed.grow _)
    · exact fun value member => (held value member).grow _
  | rebinds loose => cases loose

structure Stage.Placed (ledger : Ledger) (stage : Stage) : Prop where
  moment : stage.moment.Placed ledger
  kept : ∀ value ∈ stage.kept, value.Placed ledger

theorem Stage.Next.placed {first last : Stage} (move : Next .strict first last)
    (fits : first.Fits) (placed : first.Placed ledger) :
    ∃ more, last.Placed (ledger ++ more) := by
  obtain ⟨moment, held⟩ := placed
  cases move with
  | moves move answered =>
    obtain ⟨more, after⟩ := move.placed fits.moment moment fun session config busy value answers =>
      answered session config busy value answers _ _ nofun (moment.config session config busy).holds
        held
    exact ⟨more, after, fun value member => (held value member).grow more⟩
  | @acts session config kept more state acts =>
    obtain ⟨extra, after, held⟩ := (moment.config session config rfl).acts held acts
    exact ⟨extra, .busy (rooted_append moment.rooted extra) after, held⟩

theorem Stage.Reachable.placed {stage : Stage} (reached : Reachable .strict stage) :
    ∃ ledger, stage.Placed ledger := by
  obtain ⟨clock, broken, path⟩ := reached
  induction path with
  | refl => exact ⟨[none], Moment.placed_start clock broken, List.forall_mem_nil _⟩
  | next earlier move ih =>
    obtain ⟨ledger, placed⟩ := ih
    obtain ⟨more, placed⟩ := move.placed (Reachable.fits ⟨clock, broken, earlier⟩) placed
    exact ⟨_, placed⟩

/-! ### Environments that are made -/

theorem Machine.Config.Opens.going (opens : config.Opens body address) :
    config.finished? = none := by
  obtain ⟨control, stack, state⟩ := config
  cases opens with
  | block control =>
    cases control
    rfl
  | call next fresh =>
    cases control with
    | eval _ | exec _ => rfl
    | signal signal =>
      cases stack with
      | nil => cases next
      | cons frame stack => rfl

/-- No native is called where an environment is made. -/
theorem Machine.Config.Opens.unanswered (opens : config.Opens body address)
    (placed : config.Placed ledger) (value : Value) : ¬config.Answers value := by
  intro answers
  cases opens with
  | block control =>
    obtain ⟨_, _, _, _, gathers, _⟩ := answers
    cases gathers <;> cases control
  | call _ fresh =>
    have below := placed.located.inside _ List.mem_cons_self
    rw [answers.current, placed.located.placed.size] at fresh
    exact absurd below (Nat.not_lt.mpr fresh)

/-- The environment that is made is on record for its body, and binds the parameters. -/
theorem Machine.Config.Opens.recorded (opens : config.Opens body address)
    (placed : config.Placed ledger) :
    ∃ more, (step config).Placed (ledger ++ more) ∧
      (ledger ++ more)[address]? = some (some body.statements) ∧
        ∀ param ∈ body.params, (step config).state.store.binds param.lexeme address := by
  obtain ⟨more, after, opened⟩ :=
    placed.step fun value answers => absurd answers (opens.unanswered placed value)
  have size := placed.located.placed.size
  refine ⟨more, after, ?_⟩
  cases opens with
  | @block statements control =>
    obtain ⟨_, stack, state⟩ := config
    cases control
    have opened := opened (Nat.le_of_eq size.symm)
    exact ⟨opened.body statements _ rfl, by simp⟩
  | call next fresh =>
    have opened := opened (by rwa [← size])
    exact ⟨opened.body _ _ next, opened.parameters _ _ _ _ _ next⟩

/-! ### Declarations -/

/-- A local is declared where it is not bound yet. -/
theorem Machine.Config.Fits.unbound {records : Records} (fits : config.Fits records)
    (declares : config.Declares name) (inside : config.state.current.scope ≠ 0) :
    ¬config.state.store.binds name config.state.current.scope := by
  obtain ⟨control, stack, state⟩ := config
  obtain ⟨_, fits⟩ := fits
  have fresh {scopes : List (Bindings Bool)}
      (describes : Describes state.store state.current scopes)
      (unready : ∀ scope, scopes[0]? = some scope → scope.find? name ≠ some true) :
      ¬state.store.binds name state.current.scope := by
    intro bound
    cases scopes with
    | cons scope outer => exact unready scope rfl (describes.complete scope rfl name bound)
    | nil =>
      have globals : state.current.scopes = [0] := by
        cases shape : state.current.scopes with
        | nil => cases shape
        | cons address outer =>
          have models := describes.models
          rw [shape] at models
          cases models
          rfl
      exact inside (List.cons.inj globals).1
  have undeclared {scopes : List (Bindings Bool)} (undeclared : Undeclared scopes name) :
      ∀ scope, scopes[0]? = some scope → scope.find? name ≠ some true := by
    intro scope first ready
    rw [undeclared scope first] at ready
    cases ready
  cases declares with
  | @initialized value declared stack =>
    obtain ⟨_, scopes, describes, base, _, _, shape, _⟩ := fits
    refine fresh describes ?_
    intro scope first ready
    subst shape
    cases base with
    | nil => cases first
    | cons innermost outer =>
      cases first
      rw [Bindings.find?_insert, if_pos rfl] at ready
      cases ready
  | blank | function | klass =>
    obtain ⟨scopes, _, describes, resolved, _⟩ := fits
    exact fresh describes (undeclared resolved.1)

/-! ### Constants -/

/-- An environment that was made for a body, in which no assignment refers to a name. -/
structure Stage.Unassigned (stage : Stage) (ledger : Ledger) (body : Body) (address : Nat)
    (name : String) : Prop where
  fits : stage.Fits
  placed : stage.Placed ledger
  opened : ledger[address]? = some (some body.statements)
  numbered : ∀ use ∈ stmtUses 0 body.statements, use.id < stage.moment.records.next
  unassigned : ∀ use ∈ stmtUses 0 body.statements, use.writes →
    use.reference.name.lexeme = name → stage.moment.records.distance? use.id ≠ some use.depth

namespace Stage.Unassigned

variable {first last stage : Stage} {kept : List Value}

theorem inside (guarded : stage.Unassigned ledger body address name) : address ≠ 0 := by
  intro same
  have opened := guarded.opened
  rw [same, guarded.placed.moment.rooted] at opened
  cases opened

theorem declares (guarded : Unassigned ⟨.busy session config, kept⟩ ledger body address name)
    (declares : config.Declares name) (here : config.state.current.scope = address) :
    ¬config.state.store.binds name address := by
  obtain ⟨records, _, fits, _⟩ := guarded.fits.moment
  rw [← here]
  exact fits.unbound declares (here ▸ guarded.inside)

/-- An assignment that finds its name in the environment stands in the body, and refers to it. -/
theorem assigns (guarded : Unassigned ⟨.busy session config, kept⟩ ledger body address name)
    {target : Reference} (assigns : config.Assigns target address) :
    target.name.lexeme ≠ name := by
  intro word
  have placed := guarded.placed.moment.config session config rfl
  cases assigns with
  | @found value target stack state scope slot =>
    obtain ⟨uses, _⟩ := placed.located.waits
    unfold State.slot? at slot
    split at slot
    · rename_i distance recorded
      rw [Store.slotAt?_eq] at slot
      obtain ⟨candidate, there, chosen⟩ := Option.bind_eq_some_iff.mp slot
      split at chosen
      · cases chosen
        have member := uses.within distance address body.statements there guarded.opened
          ⟨distance, true, target⟩ (List.mem_singleton.mpr rfl)
        exact guarded.unassigned _ member rfl word recorded
      · cases chosen
    · have member := List.mem_of_find?_eq_some slot
      exact guarded.inside (List.mem_singleton.mp member)

/-- No move of a session and no host writes to the name there. -/
theorem stays (guarded : first.Unassigned ledger body address name) (move : Next .strict first last)
    {value : Value} (bound : first.moment.machine.store.lookup? address name = some value) :
    last.moment.machine.store.lookup? address name = some value := by
  have size := guarded.placed.moment.machine.size
  have below : address < ledger.length := (List.getElem?_eq_some_iff.mp guarded.opened).1
  rw [← size] at below
  cases move with
  | acts acts => exact (acts.besides.locals address below guarded.inside name).trans bound
  | moves move _ =>
    cases move with
    | native _ =>
      exact (Store.lookup?_write _ _ _ _ _ _).trans
        ((if_neg fun global => guarded.inside global.1).trans bound)
    | refuse prepared | begin prepared =>
      obtain ⟨table, same⟩ := prepare_machine prepared
      exact (congrArg (·.store.lookup? address name) same).trans bound
    | @settle session config ending ended =>
      simp only [Moment.machine, (session.settle_same ending).1, Config.state_finished? ended]
      exact bound
    | @step session config going =>
      refine (lookup?_step below ?_ ?_).trans bound
      · intro declared
        obtain ⟨declares, here⟩ := declared
        refine guarded.declares declares here ?_
        rw [Store.binds]
        exact Option.isSome_iff_exists.mpr ⟨value, bound⟩
      · intro target assigns
        exact guarded.assigns assigns

theorem next (guarded : first.Unassigned ledger body address name)
    (move : Next .strict first last) :
    ∃ more, last.Unassigned (ledger ++ more) body address name := by
  have grown := move.extends
  have below : address < ledger.length := (List.getElem?_eq_some_iff.mp guarded.opened).1
  obtain ⟨more, placed⟩ := move.placed guarded.fits guarded.placed
  refine ⟨more, move.fits guarded.fits, placed, ?_, ?_, ?_⟩
  · rw [List.getElem?_append_left below, guarded.opened]
  · intro use member
    exact Nat.lt_of_lt_of_le (guarded.numbered use member) grown.next
  · intro use member writes word
    rw [grown.distance _ (guarded.numbered use member)]
    exact guarded.unassigned use member writes word

theorem later (guarded : first.Unassigned ledger body address name)
    (later : Later .strict first last) :
    (∃ more, last.Unassigned (ledger ++ more) body address name) ∧
      ∀ value, first.moment.machine.store.lookup? address name = some value →
        last.moment.machine.store.lookup? address name = some value := by
  induction later with
  | refl => exact ⟨⟨[], by rwa [List.append_nil]⟩, fun _ bound => bound⟩
  | next earlier move ih =>
    obtain ⟨⟨more, middle⟩, same⟩ := ih
    obtain ⟨further, after⟩ := middle.next move
    exact ⟨⟨more ++ further, by rwa [← List.append_assoc]⟩,
      fun value bound => middle.stays move (same value bound)⟩

theorem constant (guarded : stage.Unassigned ledger body address name) :
    stage.Constant address name where
  declared session config kept later declares here := by
    obtain ⟨⟨more, now⟩, _⟩ := guarded.later later
    exact now.declares declares here
  kept first last value earlier later bound := by
    obtain ⟨⟨more, now⟩, _⟩ := guarded.later earlier
    exact (now.later later).2 value bound
  read first session config kept value reference earlier bound later control word refers := by
    obtain ⟨⟨more, now⟩, _⟩ := guarded.later earlier
    have there := (now.later later).2 value bound
    obtain ⟨distance, found, recorded, ancestor, place⟩ := refers
    have here : config.state.store.lookup? found.scope reference.name.lexeme = some value := by
      rw [place, word]
      exact there
    have read : config.state.lookup? reference = some value := by
      rw [State.lookup?, recorded]
      dsimp only
      rw [Store.getAt?, ancestor]
      exact here
    exact step_variable control read

end Stage.Unassigned

/-- With strict hosts, a local of an accepted text that no assignment of the text refers to is a
constant, in each of its environments, whenever they are made. Parameters are bound from the start,
once each. -/
theorem unassigned_constant (name : String) {session after running : Session} {source : String}
    {program : List Stmt} {kept kept' : List Value}
    (reached : Stage.Reachable .strict ⟨.idle session, kept⟩)
    (accepted : session.prepare source = (after, some program))
    (inside : body ∈ stmtBodies program)
    (unassigned : ∀ use ∈ stmtUses 0 body.statements, use.writes →
      use.reference.name.lexeme = name → after.machine.distance? use.reference ≠ some use.depth)
    (later : Stage.Later .strict ⟨.busy after (interpreting program after.machine), kept⟩
      ⟨.busy running config, kept'⟩)
    (opens : config.Opens body address) :
    Stage.Constant ⟨.busy running (step config), kept'⟩ address name ∧
      (body.params.map Token.lexeme).Nodup ∧
        ∀ param ∈ body.params, (step config).state.store.binds param.lexeme address := by
  have begun : Stage.Reachable .strict ⟨.busy after (interpreting program after.machine), kept⟩ :=
    reached.later (.next (.refl _) (.moves (.begin accepted) (Stage.answered_idle _ _ _)))
  obtain ⟨ledger, placed⟩ := (begun.later later).placed
  have whole := placed.moment.config running config rfl
  have silent : Stage.Answered .strict ⟨.busy running config, kept'⟩ := by
    rintro _ _ ⟨⟩ value answers
    exact absurd answers (opens.unanswered whole value)
  have move : Stage.Next .strict ⟨.busy running config, kept'⟩ ⟨.busy running (step config), kept'⟩ :=
    .moves (.step opens.going) silent
  obtain ⟨table, prepared⟩ := Session.prepared_of_prepare accepted
  have resolved := prepared.resolved reached.fits.moment.unused
  obtain ⟨distinct, scopes, statements⟩ := stmtsResolved_bodies program resolved body inside
  have grown := later.extends.trans move.extends
  obtain ⟨more, stepped, opened, bound⟩ := opens.recorded whole
  have numbered := stmtsResolved_numbered 0 body.statements statements
  have guarded : Stage.Unassigned ⟨.busy running (step config), kept'⟩ (ledger ++ more) body address
      name := by
    refine ⟨move.fits (begun.later later).fits, ⟨?_, ?_⟩, opened, ?_, ?_⟩
    · exact .busy (rooted_append placed.moment.rooted more) stepped
    · exact fun value member => (placed.kept value member).grow more
    · intro use member
      exact Nat.lt_of_lt_of_le (numbered use member) grown.next
    · intro use member writes word
      rw [grown.distance _ (numbered use member)]
      exact unassigned use member writes word
  exact ⟨guarded.constant, distinct, bound⟩

theorem unassigned_constant_in_block : ∃ running config,
    Stage.Reachable .strict ⟨.busy running config, []⟩ ∧
      Stage.Constant ⟨.busy running (step config), []⟩ 1 "a" := by
  let statements : List Stmt := [.var ⟨.identifier, "a", 1⟩ (some (.literal .nil)),
    .expression (.variable ⟨0, ⟨.identifier, "a", 1⟩⟩)]
  have accepted : ((Session.start (fun _ => 0) false).prepare "\x7bvar a=nil;a;\x7d").2 =
      some [.block statements] := by cbv
  have size : ((Session.start (fun _ => 0) false).prepare
      "\x7bvar a=nil;a;\x7d").1.machine.store.scopes.size = 1 := by cbv
  rcases prepared : (Session.start (fun _ => 0) false).prepare "\x7bvar a=nil;a;\x7d" with
    ⟨after, program⟩
  rw [prepared] at accepted size
  cases accepted
  have start : Reachable Honest (.idle (Session.start (fun _ => 0) false)) := ⟨_, _, .refl _⟩
  have begun := start.later (.next (.refl _) (.begin prepared))
  have later : Later Honest (.busy after _) (.busy after (advance 1 _)) :=
    later_advance after 1 (interpreting [.block statements] after.machine)
  have opens : (advance 1 (interpreting [.block statements] after.machine)).Opens
      ⟨[], statements⟩ _ := .block rfl
  have inside : ⟨[], statements⟩ ∈ stmtBodies [.block statements] := List.mem_singleton.mpr rfl
  have unassigned : ∀ use ∈ stmtUses 0 statements, use.writes → use.reference.name.lexeme = "a" →
      after.machine.distance? use.reference ≠ some use.depth := by
    simp [statements, stmtUses, Stmt.uses, optionalUses, Expr.uses]
  have staged := later.staged begun.natives .strict []
  have constant :=
    (unassigned_constant "a" (start.staged .strict) prepared inside unassigned staged opens).1
  refine ⟨after, _, (begun.later later).staged .strict, ?_⟩
  have place : (advance 1 (interpreting [.block statements] after.machine)).state.store.scopes.size =
      1 := size
  rwa [place] at constant

/-! ### A method without its class -/

namespace Shadowing

/-- The method assigns to the class, which shadows a local that nothing assigns to. -/
def source : String :=
  "\x7bvar a=nil;\x7bclass a\x7bm()\x7ba=true;\x7d\x7dunbound(a)();\x7da;\x7d"

def a : Token := ⟨.identifier, "a", 1⟩

def paren : Token := ⟨.symbol .rightParen, ")", 1⟩

def native : Reference := ⟨2, ⟨.identifier, "unbound", 1⟩⟩

def method : FunctionDecl :=
  ⟨⟨.identifier, "m", 1⟩, [], [.expression (.assign ⟨1, a⟩ (.literal .true))]⟩

def calling : Expr := .call (.call (.variable native) paren [.variable ⟨3, a⟩]) paren []

def reading : Stmt := .expression (.variable ⟨4, a⟩)

def statements : List Stmt :=
  [.var a (some (.literal .nil)), .block [.classDecl a none [method], .expression calling], reading]

def table : List (Nat × Nat) := [(1, 2), (3, 0), (4, 0)]

def ready : Session := (Session.start (fun _ => 0) false).defineNative "unbound" 1 unbound

set_option maxRecDepth 4000 in
theorem prepared : ∃ running, ready.prepare source = (running, some [.block statements]) ∧
    running.machine = { ready.machine with distances := running.machine.distances } ∧
    ∀ id : Nat, running.machine.distances[id]? = table.reverse.lookup id := by
  have parsed : (ready.parsed source).result = .ok [.block statements] := by cbv
  have scanned : (Session.lexical source).isEmpty := by cbv
  have recorded : resolve [.block statements] = .ok table := by cbv
  have accepted : (ready.prepare source).2 = some [.block statements] := by
    rw [Session.prepare_resolved parsed recorded]
    exact if_pos scanned
  exact Session.prepare_first (fun _ => Std.HashMap.getElem?_empty) accepted recorded

/-! What is there while it runs, with the distances on record. -/

def f : Function := ⟨0, method, ⟨2, [1, 0]⟩, false⟩

def c : Class := ⟨⟨1, "a", Bindings.empty.insert "m" f⟩, []⟩

def taking : Value := .native ⟨1, "unbound", 1⟩

def outside : List Frame := [.sequence [reading], .restore globals, .program []]

def around : List Frame := .sequence [] :: .restore ⟨1, [0]⟩ :: outside

def inside : List Frame := .sequence [] :: .activation ⟨2, [1, 0]⟩ f 1 :: around

variable (d : Distances)

def state (scopes : Array (Bindings Value)) (current : Environment) (hostCalls : Nat) : State :=
  { ready.machine with
    store := ⟨ready.machine.store.scopes ++ scopes, #[]⟩
    current, distances := d, born := 2, hostCalls }

/-- In the inner block. -/
def before : State :=
  state d #[Bindings.empty.insert "a" .nil, Bindings.empty.insert "a" (.klass c)] ⟨2, [1, 0]⟩ 0

/-- In the method, with the value of the outer local. -/
def during (value : Value) : State :=
  state d #[Bindings.empty.insert "a" value, Bindings.empty.insert "a" (.klass c), .empty]
    ⟨3, [2, 1, 0]⟩ 1

def beginning : Config := interpreting [.block statements] { ready.machine with distances := d }

variable {d}

theorem names (global : d[2]? = none) :
    step (advance 14 (beginning d)) =
      .done taking (.callee paren [.variable ⟨3, a⟩] :: .callee paren [] :: around) (before d) := by
  have there : advance 14 (beginning d) = ⟨.eval (.variable native),
    .callee paren [.variable ⟨3, a⟩] :: .callee paren [] :: around, before d⟩ := by rfl
  have absent : (before d).distance? native = none := global
  have found : (before d).store.get? globals "unbound" = some taking := by cbv
  rw [there]
  exact step_variable rfl ((State.lookup?_global absent).trans found)

theorem passes (passed : d[3]? = some 0) :
    step ⟨.eval (.variable ⟨3, a⟩), .argument taking paren [] [] :: .callee paren [] :: around,
        before d⟩ =
      .done (.klass c) (.argument taking paren [] [] :: .callee paren [] :: around) (before d) := by
  refine step_variable rfl ?_
  rw [State.lookup?, show (before d).distance? ⟨3, a⟩ = some 0 from passed]
  rfl

theorem enters : advance 6
      (.done (.klass c) (.argument taking paren [] [] :: .callee paren [] :: around) (before d)) =
    .done (.bool true) (.assign ⟨1, a⟩ :: inside) (during d .nil) := by
  rfl

/-- It overwrites the outer local. -/
theorem writes (assigned : d[1]? = some 2) :
    step (.done (.bool true) (.assign ⟨1, a⟩ :: inside) (during d .nil)) =
      .done (.bool true) inside (during d (.bool true)) := by
  have slot : (during d .nil).slot? ⟨1, a⟩ = some 1 := by
    rw [State.slot?, show (during d .nil).distance? ⟨1, a⟩ = some 2 from assigned]
    rfl
  exact step_assign slot

theorem leaves : advance 6 (.done (.bool true) inside (during d (.bool true))) =
    ⟨.eval (.variable ⟨4, a⟩), [.sequence [], .restore globals, .program []],
      (during d (.bool true)).withCurrent ⟨1, [0]⟩⟩ := by
  rfl

end Shadowing

section Shadowing

open Shadowing

/-- A method that a native has taken out of its class assigns to a local that no assignment of the
text refers to. -/
theorem unbound_overwrites : ∃ name session after source program body running config address first
    running' config' value reference,
    Reachable (· = unbound) (.idle session) ∧ session.prepare source = (after, some program) ∧
    body ∈ stmtBodies program ∧
    (∀ use ∈ stmtUses 0 body.statements, use.writes →
      use.reference.name.lexeme = name → after.machine.distance? use.reference ≠ some use.depth) ∧
    Later (· = unbound) (.busy after (interpreting program after.machine)) (.busy running config) ∧
    config.Opens body address ∧
    Later (· = unbound) (.busy running (step config)) first ∧
    first.machine.store.lookup? address name = some value ∧
    Later (· = unbound) first (.busy running' config') ∧
    config'.control = .eval (.variable reference) ∧ reference.name.lexeme = name ∧
    config'.state.RefersTo reference address ∧
    step config' ≠ .done value config'.stack config'.state := by
  obtain ⟨running, prepared, machine, distances⟩ := prepared
  let d := running.machine.distances
  have assigned : d[1]? = some 2 := distances 1
  have read : d[4]? = some 0 := distances 4
  have same : interpreting [.block statements] running.machine = beginning d :=
    congrArg (interpreting _) machine
  have started : Reachable (· = unbound) (.idle ready) := ⟨_, _, .next (.refl _) (.native rfl)⟩
  let first := advance 5 (step (advance 1 (beginning d)))
  have later : Later (· = unbound) (.busy running first)
      (.busy running ⟨.eval (.variable ⟨4, a⟩), [.sequence [], .restore globals, .program []],
        (during d (.bool true)).withCurrent ⟨1, [0]⟩⟩) := by
    have named : Later (· = unbound) (.busy running first) (.busy running _) :=
      names (distances 2) ▸ (later_advance running 7 first).next (.step rfl)
    have passed : Later (· = unbound) _ (.busy running _) :=
      passes (distances 3) ▸ (named.next (.step rfl)).next (.step rfl)
    have entered : Later (· = unbound) _ (.busy running _) :=
      enters ▸ passed.trans (later_advance running 6 _)
    have written : Later (· = unbound) _ (.busy running _) :=
      writes assigned ▸ entered.next (.step rfl)
    exact leaves ▸ written.trans (later_advance running 6 _)
  refine ⟨"a", ready, running, source, _, ⟨[], statements⟩, running, advance 1 (beginning d), 1, _,
    running, _, .nil, ⟨4, a⟩, started, prepared, List.mem_cons_self, ?_,
    same ▸ later_advance running 1 _, .block rfl, later_advance running 5 _, ?_, later, rfl, rfl,
    ⟨0, _, read, rfl, rfl⟩, ?_⟩
  · have uses : stmtUses 0 statements =
        [⟨3, true, ⟨1, a⟩⟩, ⟨1, false, native⟩, ⟨1, false, ⟨3, a⟩⟩, ⟨0, false, ⟨4, a⟩⟩] := by rfl
    rw [uses]
    intro use member writes _ recorded
    simp only [List.mem_cons, List.not_mem_nil, or_false] at member
    obtain rfl | rfl | rfl | rfl := member
    · cases recorded.symm.trans (show running.machine.distance? ⟨1, a⟩ = some 2 from assigned)
    all_goals cases writes
  · rfl
  · intro unchanged
    have found : ((during d (.bool true)).withCurrent ⟨1, [0]⟩).lookup? ⟨4, a⟩ =
        some (.bool true) := by
      rw [State.lookup?, show ((during d _).withCurrent _).distance? ⟨4, a⟩ = some 0 from read]
      rfl
    rw [step_variable rfl found] at unchanged
    cases unchanged

end Shadowing

end Lox
