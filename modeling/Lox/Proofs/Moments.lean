import Lox.Session

/-! Everything a session can go through: natives are defined, texts are refused or executed step by
step, and an execution that has ended is settled. -/

namespace Lox

open Machine

/-- A session between two texts, or in the middle of executing one. -/
inductive Moment
  | idle (session : Session)
  | busy (session : Session) (config : Config)

def Moment.session : Moment → Session
  | .idle session => session
  | .busy session _ => session

/-- The machine as it is now. While a text is executed the session still has the one it began with. -/
def Moment.machine : Moment → State
  | .idle session => session.machine
  | .busy _ config => config.state

section Reached

variable (hosts : HostFunction → Prop)

/-- What can come next, where all host functions are of one kind. -/
inductive Next : Moment → Moment → Prop
  | native {session : Session} {name : String} {arity : Nat} {act : HostFunction} :
      hosts act → Next (.idle session) (.idle (session.defineNative name arity act))
  | refuse {session after : Session} {source : String} :
      session.prepare source = (after, none) → Next (.idle session) (.idle after)
  | begin {session after : Session} {source : String} {program : List Stmt} :
      session.prepare source = (after, some program) →
        Next (.idle session) (.busy after (interpreting program after.machine))
  | step {session : Session} {config : Config} :
      config.finished? = none → Next (.busy session config) (.busy session (step config))
  | settle {session : Session} {config : Config} {ending : Signal × State} :
      config.finished? = some ending →
        Next (.busy session config) (.idle (session.settle ending))

inductive Later : Moment → Moment → Prop
  | refl (moment : Moment) : Later moment moment
  | next {first middle last : Moment} : Later first middle → Next hosts middle last →
      Later first last

/-- Sessions start with one native function. -/
def Reachable (moment : Moment) : Prop :=
  ∃ clock broken, Later hosts (.idle (.start clock broken)) moment

end Reached

variable {hosts others : HostFunction → Prop} {first middle last : Moment}

theorem Next.imp (move : Next hosts first last) (implies : ∀ act, hosts act → others act) :
    Next others first last := by
  cases move with
  | native act => exact .native (implies _ act)
  | refuse refused => exact .refuse refused
  | begin accepted => exact .begin accepted
  | step going => exact .step going
  | settle ended => exact .settle ended

theorem Later.imp (later : Later hosts first last) (implies : ∀ act, hosts act → others act) :
    Later others first last := by
  induction later with
  | refl => exact .refl _
  | next _ move ih => exact .next ih (move.imp implies)

theorem Reachable.imp (reached : Reachable hosts first) (implies : ∀ act, hosts act → others act) :
    Reachable others first := by
  obtain ⟨clock, broken, path⟩ := reached
  exact ⟨clock, broken, path.imp implies⟩

theorem Later.trans (earlier : Later hosts first middle) (later : Later hosts middle last) :
    Later hosts first last := by
  induction later with
  | refl => exact earlier
  | next _ move ih => exact .next ih move

theorem Reachable.later (reached : Reachable hosts first) (later : Later hosts first last) :
    Reachable hosts last := by
  obtain ⟨clock, broken, path⟩ := reached
  exact ⟨clock, broken, path.trans later⟩

theorem later_advance (session : Session) (steps : Nat) (config : Config) :
    Later hosts (.busy session config) (.busy session (advance steps config)) := by
  induction steps generalizing config with
  | zero => exact .refl _
  | succ steps ih =>
    unfold advance
    split
    · exact .refl _
    · rename_i going
      exact (Later.next (.refl _) (.step going)).trans (ih (step config))

theorem eq_of_finished {config : Config} {signal : Signal} {state : State}
    (ended : config.finished? = some (signal, state)) : config = ⟨.signal signal, [], state⟩ := by
  obtain ⟨control, stack, _⟩ := config
  cases control with
  | eval _ | exec _ => cases ended
  | signal _ =>
    cases stack with
    | cons _ _ => cases ended
    | nil =>
      cases ended
      rfl

theorem run_finished {config : Config} {ending result : Signal × State}
    (ended : config.finished? = some ending) {steps : Nat}
    (ran : Machine.run steps config = some result) : result = ending := by
  cases steps with
  | zero =>
    rw [Machine.run, ended] at ran
    exact (Option.some.inj ran).symm
  | succ steps =>
    rw [Machine.run, ended] at ran
    exact (Option.some.inj ran).symm

theorem run_of_going {config : Config} (going : config.finished? = none) (steps : Nat) :
    Machine.run (steps + 1) config = Machine.run steps (step config) := by
  rw [Machine.run, going]

theorem advance_of_going {config : Config} (going : config.finished? = none) (steps : Nat) :
    advance (steps + 1) config = advance steps (step config) := by
  rw [advance, going]

theorem run_eq_advance (steps : Nat) (config : Config) :
    Machine.run steps config = (advance steps config).finished? := by
  induction steps generalizing config with
  | zero => rfl
  | succ steps ih =>
    unfold Machine.run advance
    split
    · rename_i ended
      exact ended.symm
    · exact ih (step config)

/-- An accepted text is being executed. -/
theorem later_begin {session : Session} {source : String}
    (accepted : (session.prepare source).2.isSome) :
    Later hosts (.idle session) (.busy (session.prepare source).1
      (interpreting ((session.prepare source).2.getD []) (session.prepare source).1.machine)) := by
  rcases prepared : session.prepare source with ⟨after, program⟩
  rw [prepared] at accepted
  obtain ⟨body, same⟩ := Option.isSome_iff_exists.mp accepted
  subst same
  exact .next (.refl _) (.begin prepared)

/-- A run that ends leads from one idle session to the next. -/
theorem later_of_run {session after : Session} {steps : Nat} {source : String}
    (ran : session.run steps source = some after) : Later hosts (.idle session) (.idle after) := by
  unfold Session.run at ran
  split at ran
  · rename_i refused
    cases ran
    exact .next (.refl _) (.refuse refused)
  · rename_i prepared program accepted
    obtain ⟨ending, ended, same⟩ := Option.map_eq_some_iff.mp ran
    subst same
    rw [run_eq_advance] at ended
    have began : Later hosts (.idle session)
        (.busy prepared (interpreting program prepared.machine)) := .next (.refl _) (.begin accepted)
    exact .next (began.trans (later_advance prepared steps _)) (.settle ended)

end Lox
