import Lox.Proofs.Restored
import Lox.Proofs.Turns

/-! References are numbered on from text to text, whether or not a text is accepted. So no two of them
have one number, and what is recorded for a later text stands beside what earlier ones go by. -/

namespace Lox

open Machine Resolution

theorem Runs.later {hosts : HostFunction → Prop} {first last : Session} {turns : List Turn}
    (ran : Runs first turns last) : Later hosts (.idle first) (.idle last) := by
  induction ran with
  | nil session => exact .refl _
  | cons ran _ ih => exact (later_of_run ran).trans ih

namespace Session

/-! ### One text -/

/-- The numbers of the references in a text, if it can be parsed. -/
def numbered (session : Session) (source : String) : List Nat :=
  match (session.parsed source).result with
  | .ok program => identifiers (stmtUses 0 program)
  | .error _ => []

/-- How a text is numbered, and what is recorded for it. -/
structure Numbers (session : Session) (source : String) (after : Session) : Prop where
  next : after.nextId = (session.parsed source).nextId
  up : session.nextId ≤ after.nextId
  fresh : Fresh session.nextId after.nextId (session.numbered source)
  recorded : ∀ program table, (session.parsed source).result = .ok program →
    Resolution.resolve program = .ok table →
      after.machine = session.machine.record table ∧
        ∀ entry ∈ table, entry.1 ∈ session.numbered source
  unrecorded : (∀ program, (session.parsed source).result = .ok program →
    ∃ faults, Resolution.resolve program = .error faults) → after.machine = session.machine
  kept : ∀ id < session.nextId, after.machine.distances[id]? = session.machine.distances[id]?

theorem fresh_numbered (session : Session) (source : String) :
    Fresh session.nextId (session.parsed source).nextId (session.numbered source) := by
  unfold numbered
  split
  · rename_i program parsed
    exact (Tree.parse_read (Source.tokens_genuine source) parsed).2.fresh 0
  · exact .nil

/-- Whatever becomes of a text, it takes its numbers. -/
theorem nextId_prepare (session : Session) (source : String) :
    (session.prepare source).1.nextId = (session.parsed source).nextId := by
  cases parsed : (session.parsed source).result with
  | error faults => rw [prepare_unparsed parsed]
  | ok program =>
    cases resolved : Resolution.resolve program with
    | error faults => rw [prepare_unresolved parsed resolved]
    | ok table => rw [prepare_resolved parsed resolved]

/-- Only numbers of the text get a distance. -/
theorem found_numbered {session : Session} {source : String} {program : List Stmt}
    {table : List (Nat × Nat)} (parsed : (session.parsed source).result = .ok program)
    (resolved : Resolution.resolve program = .ok table) :
    ∀ entry ∈ table, entry.1 ∈ session.numbered source := by
  simp only [numbered, parsed]
  exact resolve_found resolved

theorem numbers (session : Session) (source : String) :
    session.Numbers source (session.prepare source).1 := by
  have next := session.nextId_prepare source
  have fresh := session.fresh_numbered source
  refine ⟨next, next ▸ Tree.parse_nextId _ _, next ▸ fresh, ?_, ?_, ?_⟩
  · intro program table parsed resolved
    rw [prepare_resolved parsed resolved]
    exact ⟨rfl, found_numbered parsed resolved⟩
  · intro refused
    cases parsed : (session.parsed source).result with
    | error faults => rw [prepare_unparsed parsed]
    | ok program =>
      obtain ⟨faults, resolved⟩ := refused program parsed
      rw [prepare_unresolved parsed resolved]
  · obtain ⟨table, prepared⟩ := prepared_of_prepare (@Prod.mk.eta _ _ (session.prepare source)).symm
    exact prepared.extends.distance

theorem nextId_of_run {session after : Session} {steps : Nat} {source : String}
    (ran : session.run steps source = some after) : after.nextId = (session.prepare source).1.nextId := by
  unfold run at ran
  split at ran
  · rename_i refused
    cases ran
    rw [refused]
  · rename_i accepted
    obtain ⟨ending, _, settled⟩ := Option.map_eq_some_iff.mp ran
    rw [accepted, ← settled, (settle_same _ ending).2]

end Session

/-! ### Every text -/

def Turn.numbered (turn : Turn) : List Nat := turn.before.numbered turn.source

/-- Each text starts where the text before it stopped. -/
theorem Runs.fresh {first last : Session} {turns : List Turn} (ran : Runs first turns last) :
    first.nextId ≤ last.nextId ∧ Fresh first.nextId last.nextId (turns.flatMap Turn.numbered) := by
  induction ran with
  | nil session => exact ⟨Nat.le_refl _, .nil⟩
  | @cons session after last source steps turns ran _ ih =>
    have here := session.numbers source
    have next := Session.nextId_of_run ran
    rw [next] at ih
    exact ⟨Nat.le_trans here.up ih.1, here.fresh.append ih.2 here.up ih.1⟩

/-- The references of a function have the numbers of earlier texts, and the distances they had. -/
def Function.Keeps (earlier : Session) (now : State) (f : Function) : Prop :=
  ∀ use ∈ f.declaration.uses 0, use.id < earlier.nextId ∧
    now.distances[use.id]? = earlier.machine.distances[use.id]?

/-- What every later moment has in common with a session between two texts. A function comes with the
scopes around it, so with the distances of its references it keeps what they are bound to. -/
structure Session.Lasts (session : Session) (moment : Moment) : Prop where
  up : session.nextId ≤ moment.session.nextId
  distances : ∀ id < session.nextId,
    moment.machine.distances[id]? = session.machine.distances[id]?
  scopes : session.machine.store.Keeps moment.machine.store
  functions : session.machine.store.Holds (Function.Keeps session moment.machine)
    (Function.Keeps session moment.machine)

theorem Session.lasts {session : Session} (reached : Reachable Honest (.idle session))
    {moment : Moment} (later : Later Honest (.idle session) moment) : session.Lasts moment := by
  have fits := reached.fits
  have grown := later.extends
  have keeps (f : Function) (scopes : List (Bindings Bool))
      (resolved : f.declaration.Resolved (Moment.idle session).records scopes) :
      f.Keeps session moment.machine := by
    intro use member
    have earlier := FunctionDecl.Resolved.numbered 0 f.declaration resolved use member
    exact ⟨earlier, grown.distance use.id earlier⟩
  refine ⟨grown.next, grown.distance, later.keeps, fits.sound.holds.imp ?_ ?_⟩
  · rintro f ⟨scopes, _, resolved⟩
    exact keeps f scopes resolved
  · rintro f ⟨scopes, _, resolved⟩
    exact keeps f _ resolved

/-- At any point of a session, and whatever text comes next: no two references of all its texts have
one number, and nothing that comes later changes what earlier references and functions go by. -/
theorem references_distinct {clock : Nat → Float} {broken : Bool} {turns : List Turn}
    {session : Session} (ran : Runs (.start clock broken) turns session) (source : String) :
    (turns.flatMap Turn.numbered ++ session.numbered source).Nodup ∧
      (∀ id ∈ turns.flatMap Turn.numbered, id < session.nextId) ∧
      session.Numbers source (session.prepare source).1 ∧
      ∀ moment, Later Honest (.idle session) moment → session.Lasts moment := by
  have here := session.numbers source
  obtain ⟨up, earlier⟩ := ran.fresh
  refine ⟨(earlier.append here.fresh up here.up).distinct,
    fun id member => (earlier.within id member).2, here, ?_⟩
  exact fun moment later => Session.lasts ⟨_, _, ran.later⟩ later

/-- A text that cannot be parsed takes numbers too, and the next one is numbered after it. -/
theorem distinct_after_failure : ∃ turn session, Runs (.start (fun _ => 0) false) [turn] session ∧
    turn.numbered = [] ∧ session.numbered "b;" = [1] ∧
    session.Numbers "b;" (session.prepare "b;").1 := by
  let first := Session.start (fun _ => 0) false
  have ran : (first.run 0 "(a;").map (·.nextId) = some 1 := by cbv
  obtain ⟨session, ran, next⟩ := Option.map_eq_some_iff.mp ran
  have runs := Runs.cons ran (.nil session)
  have taken : first.numbered "(a;" = [] := by cbv
  refine ⟨_, session, runs, taken, ?_, (references_distinct runs "b;").2.2.1⟩
  rw [Session.numbered, Session.parsed, next]
  cbv

end Lox
