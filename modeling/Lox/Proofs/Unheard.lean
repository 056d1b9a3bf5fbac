import Lox.Proofs.Alike
import Lox.Proofs.Turns

/-! No program can tell whether anyone hears what it prints. A session whose output is broken goes
through the same texts with the same faults, globals, distances and numbers. -/

namespace Lox

open Machine

/-- What a host does with a session. -/
inductive Deed
  | run (source : String)
  | native (name : String) (arity : Nat) (act : HostFunction)

namespace Session

/-- Gives nothing if a text takes more than so many steps. -/
def perform (steps : Nat) (session : Session) : Deed → Option Session
  | .run source => session.run steps source
  | .native name arity act => some (session.defineNative name arity act)

/-- The second of two sessions prints nothing, and that is all that sets it apart from the first. -/
structure Unheard (heard unheard : Session) : Prop where
  report : unheard.report = heard.report
  names : unheard.globalNames = heard.globalNames
  displays : ∀ name, (unheard.global? name).map Value.text = (heard.global? name).map Value.text
  distances : unheard.machine.distances = heard.machine.distances
  nextId : unheard.nextId = heard.nextId
  only : unheard = { heard with machine :=
    { heard.machine with output := unheard.machine.output } }
  sound : ¬heard.machine.output.broken
  silent : unheard.machine.output = ⟨"", true⟩

/-- A session with a sound output, and the same session with a broken one. -/
def Muted (heard unheard : Session) : Prop :=
  ¬heard.machine.output.broken ∧ unheard = heard.reporting ⟨"", true⟩ heard.report

variable {heard unheard : Session}

theorem Muted.told (muted : Muted heard unheard) : Unheard heard unheard := by
  obtain ⟨sound, rfl⟩ := muted
  exact ⟨rfl, rfl, fun _ => rfl, rfl, rfl, rfl, sound, rfl⟩

theorem Muted.run (muted : Muted heard unheard) (steps : Nat) (source : String) :
    Option.Rel Muted (heard.run steps source) (unheard.run steps source) := by
  obtain ⟨sound, rfl⟩ := muted
  cases ran : heard.run steps source with
  | none =>
    obtain ⟨lines, faults, elsewhere⟩ := heard.run_reporting steps source
    rw [elsewhere, ran]
    exact .none
  | some after =>
    obtain ⟨lines, faults, leaves⟩ := leaves_of_run ran
    rw [leaves.elsewhere, Output.printAll_broken rfl, ← leaves.report]
    refine .some ⟨?_, rfl⟩
    rw [leaves.output, Output.printAll_sound sound]
    exact sound

theorem Muted.perform (muted : Muted heard unheard) (steps : Nat) (deed : Deed) :
    Option.Rel Muted (heard.perform steps deed) (unheard.perform steps deed) := by
  cases deed with
  | run source => exact muted.run steps source
  | native name arity act =>
    obtain ⟨sound, rfl⟩ := muted
    exact .some ⟨sound, rfl⟩

theorem Muted.performAll (muted : Muted heard unheard) (steps : Nat) (deeds : List Deed) :
    Option.Rel Muted (deeds.foldlM (Session.perform steps) heard)
      (deeds.foldlM (Session.perform steps) unheard) := by
  induction deeds generalizing heard unheard with
  | nil => exact .some muted
  | cons deed later ih =>
    have here := muted.perform steps deed
    rw [List.foldlM_cons, List.foldlM_cons]
    generalize heard.perform steps deed = next, unheard.perform steps deed = next' at here ⊢
    cases here with
    | none => exact .none
    | some both => exact ih both

/-- Whatever a host does with it, a session with a broken output gets on as one with a sound output
does, but prints nothing. -/
theorem output_unobserved (clock : Nat → Float) (steps : Nat) (deeds : List Deed) :
    Option.Rel Unheard (deeds.foldlM (perform steps) (.start clock false))
      (deeds.foldlM (perform steps) (.start clock true)) := by
  have muted : Muted (.start clock false) (.start clock true) := ⟨Bool.false_ne_true, rfl⟩
  exact rel_imp (muted.performAll steps deeds) fun _ _ both => both.told

end Session
end Lox
