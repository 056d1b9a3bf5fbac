import Lox.Proofs.Sessions

/-! Hosts. A native is a closure of the host's: it may keep what it is given, answer otherwise from
one call to the next, and write to the globals and to instances. While a program runs a host may do
so at any time, with values in which the functions are those of the program. -/

namespace Lox

open Machine

/-- What hosts make of functions. A strict one hands them in as what they are to the program. A loose
one also hands in a method as it is found in a class, without a receiver, and binds functions anew. -/
inductive Conduct
  | strict
  | loose

/-- A host that has kept some values can hand in this one: it holds no function and no method that is
not held by those or by the program. -/
def Machine.Config.Offers (conduct : Conduct) (config : Config) (kept : List Value)
    (value : Value) : Prop :=
  ∀ function method : Function → Prop, (conduct = .loose → ∀ f, method f → function f) →
    config.Holds function method → (∀ other ∈ kept, other.Holds function method) →
      value.Holds function method

/-- What a host does beside a program, and the values it has kept then. -/
inductive Acts (conduct : Conduct) (config : Config) (kept : List Value) : State → List Value → Prop
  /-- Its natives have come to answer otherwise. -/
  | turns (hosts : Array HostFunction) :
      Acts conduct config kept { config.state with hosts } kept
  | keeps {value : Value} : config.Offers conduct kept value →
      Acts conduct config kept config.state (value :: kept)
  | defines (name : String) {value : Value} : config.Offers conduct kept value →
      Acts conduct config kept (config.state.write globals.scope name value) kept
  | sets (i : Instance) (name : String) {value : Value} : config.Offers conduct kept value →
      Acts conduct config kept (config.state.setField i name value) kept
  | makes (c : Class) : Acts conduct config kept (config.state.instantiate c).2 kept
  | binds {c : Class} {name : String} {method : Function} {i : Instance} :
      config.Offers conduct kept (.klass c) → c.findMethod? name = some method →
      config.Offers conduct kept (.object i) →
      Acts conduct config kept (config.state.bindMethod method i).2
        (.function (config.state.bindMethod method i).1 :: kept)
  | rebinds {f : Function} {i : Instance} : conduct = .loose →
      config.Offers conduct kept (.function f) → config.Offers conduct kept (.object i) →
      Acts conduct config kept (config.state.bindMethod f i).2
        (.function (config.state.bindMethod f i).1 :: kept)

/-- A moment of a session, and the values the host has kept by then. -/
structure Stage where
  moment : Moment
  kept : List Value

/-- If a native answers next, it answers with something the host can hand in. -/
def Stage.Answered (conduct : Conduct) (stage : Stage) : Prop :=
  ∀ session config, stage.moment = .busy session config →
    ∀ value, config.Answers value → config.Offers conduct stage.kept value

namespace Stage

section Reached

variable (conduct : Conduct)

/-- What can come next with natives of any kind. -/
inductive Next : Stage → Stage → Prop
  | moves {first last : Moment} {kept : List Value} : Lox.Next (fun _ => True) first last →
      Answered conduct ⟨first, kept⟩ → Next ⟨first, kept⟩ ⟨last, kept⟩
  | acts {session : Session} {config : Config} {kept more : List Value} {state : State} :
      Acts conduct config kept state more →
      Next ⟨.busy session config, kept⟩ ⟨.busy session { config with state }, more⟩

inductive Later : Stage → Stage → Prop
  | refl (stage : Stage) : Later stage stage
  | next {first middle last : Stage} : Later first middle → Next conduct middle last →
      Later first last

def Reachable (stage : Stage) : Prop :=
  ∃ clock broken, Later conduct ⟨.idle (.start clock broken), []⟩ stage

end Reached

variable {conduct : Conduct} {first middle last stage : Stage}

theorem Later.trans (earlier : Later conduct first middle) (later : Later conduct middle last) :
    Later conduct first last := by
  induction later with
  | refl => exact earlier
  | next _ move ih => exact .next ih move

theorem Reachable.later (reached : Reachable conduct first) (later : Later conduct first last) :
    Reachable conduct last := by
  obtain ⟨clock, broken, path⟩ := reached
  exact ⟨clock, broken, path.trans later⟩

end Stage

/-- No native answers between two texts. -/
theorem Stage.answered_idle (conduct : Conduct) (session : Session) (kept : List Value) :
    Answered conduct ⟨.idle session, kept⟩ := by
  intro other config same
  cases same

/-! ### Natives that draw on their arguments -/

/-- A native answers with no function and no method that its arguments do not hold. A loose one may
take a method out of its class. -/
def Draws (conduct : Conduct) (act : HostFunction) : Prop :=
  ∀ (function method : Function → Prop), (conduct = .loose → ∀ f, method f → function f) →
    ∀ now arguments value, (∀ argument ∈ arguments, argument.Holds function method) →
      act now arguments = .ok value → value.Holds function method

variable {conduct : Conduct}

theorem Machine.Honest.draws {act : HostFunction} (honest : Honest act) (conduct : Conduct) :
    Draws conduct act :=
  fun function method _ => honest function method

theorem Moment.answered {moment : Moment} (draws : ∀ act ∈ moment.machine.hosts, Draws conduct act)
    (kept : List Value) : Stage.Answered conduct ⟨moment, kept⟩ := by
  rintro session config rfl value ⟨_, _, arguments, _, gathers, answers⟩
  intro function method within holds _
  rcases answers.answered with rfl | ⟨act, host, now, answered⟩
  · trivial
  · exact draws act host function method within now arguments value (gathers.holds holds).2 answered

theorem Later.drawn {first last : Moment} (later : Later (Draws conduct) first last)
    (draws : ∀ act ∈ first.machine.hosts, Draws conduct act) (kept : List Value) :
    Stage.Later conduct ⟨first, kept⟩ ⟨last, kept⟩ := by
  have both : Stage.Later conduct ⟨first, kept⟩ ⟨last, kept⟩ ∧
      ∀ act ∈ last.machine.hosts, Draws conduct act := by
    induction later with
    | refl => exact ⟨.refl _, draws⟩
    | next _ move ih =>
      obtain ⟨later, before⟩ := ih
      exact ⟨later.next (.moves (move.imp fun _ _ => trivial) (Moment.answered before kept)),
        move.natives before⟩
  exact both.1

/-- Sessions whose natives draw on their arguments are among those with hosts. -/
theorem Reachable.drawn {moment : Moment} (reached : Reachable (Draws conduct) moment) :
    Stage.Reachable conduct ⟨moment, []⟩ := by
  obtain ⟨clock, broken, path⟩ := reached
  refine ⟨clock, broken, path.drawn (fun act member => ?_) []⟩
  exact (Moment.honest_start clock broken act member).draws conduct

theorem Later.staged {first last : Moment} (later : Later Honest first last)
    (honest : ∀ act ∈ first.machine.hosts, Honest act) (conduct : Conduct) (kept : List Value) :
    Stage.Later conduct ⟨first, kept⟩ ⟨last, kept⟩ :=
  (later.imp fun _ honest => honest.draws conduct).drawn
    (fun act member => (honest act member).draws conduct) kept

theorem Reachable.staged {moment : Moment} (reached : Reachable Honest moment) (conduct : Conduct) :
    Stage.Reachable conduct ⟨moment, []⟩ :=
  (reached.imp fun _ honest => honest.draws conduct).drawn

/-- A native that draws on its arguments, but not as a strict one does: it takes a method out of its
class. -/
def Machine.unbound : HostFunction
  | _, [.klass c] => .ok ((c.findMethod? "m").elim .nil .function)
  | _, _ => .ok .nil

theorem draws_unbound : Draws .loose unbound := by
  intro function method within now arguments value given answered
  unfold unbound at answered
  split at answered
  · rename_i c
    cases answered
    cases found : c.findMethod? "m" with
    | none => trivial
    | some f =>
      have held : c.Holds method := given _ (List.mem_singleton.mpr rfl)
      exact within rfl f (held.findMethod? found)
  · cases answered
    trivial

/-! ### What hosts leave alone -/

/-- Of what is there, only the global scope changes beside a program. -/
structure Machine.State.Besides (before after : State) : Prop where
  current : after.current = before.current
  distances : after.distances = before.distances
  keeps : before.store.Keeps after.store
  locals : ∀ address < before.store.scopes.size, address ≠ 0 →
    ∀ name, after.store.lookup? address name = before.store.lookup? address name

variable {config : Config} {kept more : List Value} {state : State}

theorem Machine.State.besides_bindMethod (state : State) (f : Function) (i : Instance) :
    state.Besides (state.bindMethod f i).2 := by
  have steady := Store.Steady.enter state.store f.closure (Bindings.empty.insert thisName (.object i))
  exact ⟨rfl, rfl, steady.keeps, fun address below _ => steady.same address below⟩

theorem Acts.besides (acts : Acts conduct config kept state more) : config.state.Besides state := by
  cases acts with
  | turns _ | keeps _ | sets _ _ _ | makes _ =>
    exact ⟨rfl, rfl, ⟨Nat.le_refl _, fun _ _ bound => bound⟩, fun _ _ _ _ => rfl⟩
  | defines name _ =>
    refine ⟨rfl, rfl, Store.keeps_write _ _ _ _, fun address _ inner other => ?_⟩
    exact (Store.lookup?_write _ _ _ _ _ _).trans (if_neg fun global => inner global.1)
  | binds _ _ _ => exact State.besides_bindMethod _ _ _
  | rebinds _ _ _ => exact State.besides_bindMethod _ _ _

theorem Machine.State.Besides.same {before after : State} (besides : before.Besides after)
    (bound : Nat) : before.store.SameLocals bound after.store := by
  intro address _ below inner name
  rw [Store.binds, besides.locals address below inner name]
  rfl

namespace Stage

variable {first last : Stage}

theorem Next.extends (move : Next conduct first last) :
    first.moment.records.Extends last.moment.records := by
  cases move with
  | moves move _ => exact move.extends
  | acts acts =>
    simp only [Moment.records, Moment.machine, acts.besides.distances]
    exact .refl _

theorem Later.extends (later : Later conduct first last) :
    first.moment.records.Extends last.moment.records := by
  induction later with
  | refl => exact .refl _
  | next _ move ih => exact ih.trans move.extends

theorem Next.keeps (move : Next conduct first last) :
    first.moment.machine.store.Keeps last.moment.machine.store := by
  cases move with
  | moves move _ => exact move.keeps
  | acts acts => exact acts.besides.keeps

end Stage

/-! ### What stays resolved -/

namespace Machine

open Resolution

variable {records : Records}

/-- What changes beside a program leaves it resolved. -/
theorem Config.Fits.besides (fits : config.Fits records) (besides : config.state.Besides state)
    (sound : state.Sound records) : Config.Fits records { config with state } := by
  obtain ⟨control, stack, before⟩ := config
  have kept := besides.keeps
  have same := besides.same
  have stands {scopes : List (Bindings Bool)} (stands : Stands records before scopes stack) :
      Stands records state scopes stack := by
    refine ⟨?_, ?_⟩
    · rw [besides.current]
      exact stands.describes.keeps_locals kept (same _)
    · rw [besides.current]
      exact stands.waits.keeps_locals kept (same _)
  have waits {scopes : List (Bindings Bool)}
      (waits : StackFits records before.store before.current scopes stack) :
      StackFits records state.store state.current scopes stack := by
    rw [besides.current]
    exact waits.keeps_locals kept (same _)
  obtain ⟨_, fits⟩ := fits
  refine ⟨sound, ?_⟩
  cases control with
  | eval e =>
    obtain ⟨scopes, here, resolved⟩ := fits
    exact ⟨scopes, stands here, resolved⟩
  | exec s =>
    obtain ⟨scopes, settled, describes, resolved, rest⟩ := fits
    refine ⟨scopes, settled, ?_, resolved, waits rest⟩
    dsimp only
    rw [besides.current]
    exact describes.keeps_locals kept (same _)
  | signal signal =>
    cases signal with
    | done value =>
      obtain ⟨value', scopes, here⟩ := fits
      exact ⟨value'.keeps kept, scopes, stands here⟩
    | returned value =>
      obtain ⟨value', scopes, rest⟩ := fits
      exact ⟨value'.keeps kept, scopes, waits rest⟩
    | failed fault =>
      obtain ⟨scopes, rest⟩ := fits
      exact ⟨scopes, waits rest⟩

/-- What a strict host hands in is resolved as everything else is. -/
theorem Config.Fits.offers (fits : config.Fits records)
    (held : ∀ value ∈ kept, value.Fits records config.state.store) {value : Value}
    (offers : config.Offers .strict kept value) : value.Fits records config.state.store :=
  offers _ _ nofun fits.holds held

theorem Config.Fits.acts (fits : config.Fits records)
    (held : ∀ value ∈ kept, value.Fits records config.state.store)
    (acts : Acts .strict config kept state more) :
    state.Sound records ∧ ∀ value ∈ more, value.Fits records state.store := by
  have sound := fits.sound
  have besides := acts.besides
  have kept' (value : Value) (member : value ∈ kept) : value.Fits records state.store :=
    (held value member).keeps besides.keeps
  cases acts with
  | turns hosts => exact ⟨⟨sound.recorded, sound.holds⟩, held⟩
  | keeps offers => exact ⟨sound, List.forall_mem_cons.mpr ⟨fits.offers held offers, held⟩⟩
  | defines name offers => exact ⟨sound.write (fits.offers held offers) _ name, kept'⟩
  | sets i name offers => exact ⟨sound.setField (fits.offers held offers) i name, kept'⟩
  | makes c =>
    exact ⟨sound.withStore ((sound.kept besides.keeps).instantiate c), kept'⟩
  | binds within found receiver =>
    have method := (fits.offers held within).findMethod? found
    obtain ⟨after, function⟩ := sound.bound method (fits.offers held receiver)
    exact ⟨after, List.forall_mem_cons.mpr ⟨function, kept'⟩⟩
  | rebinds loose => cases loose

end Machine

/-- A stage of a session with a strict host: the program is resolved, and so is what is kept. -/
structure Stage.Fits (stage : Stage) : Prop where
  moment : stage.moment.Fits
  kept : ∀ value ∈ stage.kept, value.Fits stage.moment.records stage.moment.machine.store

theorem Moment.records_eq {session : Session} {records : Resolution.Records}
    (fits : config.Fits records) (next : records.next = session.nextId) :
    (Moment.busy session config).records = records := by
  simp only [Moment.records, Moment.machine, fits.sound.recorded]
  rw [Moment.session, ← next]

namespace Stage

variable {first last : Stage}

theorem Next.fits (move : Next .strict first last) (fits : first.Fits) : last.Fits := by
  have grown := move.extends
  have keeps := move.keeps
  obtain ⟨moment, held⟩ := fits
  cases move with
  | moves move answered =>
    refine ⟨move.fits moment ?_, fun value member => ((held value member).keeps keeps).imp
      (fun _ fits => fits.later grown) (fun _ fits => fits.later grown)⟩
    rintro session config records rfl next fits value answers
    exact fits.offers (Moment.records_eq fits next ▸ held) (answered session config rfl value answers)
  | acts acts =>
    obtain ⟨records, next, fits, unused⟩ := moment
    obtain ⟨sound, held⟩ := fits.acts (Moment.records_eq fits next ▸ held) acts
    have fits := fits.besides acts.besides sound
    refine ⟨⟨records, next, fits, unused⟩, ?_⟩
    rw [Moment.records_eq fits next]
    exact held

theorem Later.fits (later : Later .strict first last) (fits : first.Fits) : last.Fits := by
  induction later with
  | refl => exact fits
  | next _ move ih => exact move.fits ih

theorem Reachable.fits (reached : Reachable .strict last) : last.Fits := by
  obtain ⟨clock, broken, path⟩ := reached
  exact path.fits ⟨Moment.fits_start clock broken, List.forall_mem_nil _⟩

end Stage

end Lox
