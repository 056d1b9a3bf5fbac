import Lox.Proofs.Accounts
import Lox.Proofs.Printed

/-! Texts run one after the other in one session. What a text does depends neither on the report nor
on the output it finds, so it adds the same to any of them. -/

namespace Lox

open Machine

/-- One text, with the session it was run in and the session it left. -/
structure Turn where
  before : Session
  source : String
  after : Session

/-- Texts are run one after the other, and each of them comes to its end. -/
inductive Runs : Session → List Turn → Session → Prop
  | nil (session : Session) : Runs session [] session
  | cons {session after last : Session} {source : String} {steps : Nat} {turns : List Turn} :
      session.run steps source = some after → Runs after turns last →
        Runs session (⟨session, source, after⟩ :: turns) last

namespace Session

/-- The same session, which prints and reports elsewhere. -/
def reporting (session : Session) (output : Output) (report : Report) : Session :=
  ⟨session.machine.withOutput output, report, session.nextId⟩

variable {session : Session}

theorem reporting_self (session : Session) :
    session.reporting session.machine.output session.report = session := rfl

theorem prepare_reporting (session : Session) (source : String) : ∃ faults, ∀ output report,
    (session.reporting output report).prepare source =
      ((session.prepare source).1.reporting output (report.addAll faults),
        (session.prepare source).2) := by
  have same (output : Output) (report : Report) :
      (session.reporting output report).parsed source = session.parsed source := rfl
  cases parsed : (session.parsed source).result with
  | error faults =>
    refine ⟨lexical source ++ faults, fun output report => ?_⟩
    rw [prepare_unparsed parsed, prepare_unparsed ((congrArg _ (same output report)).trans parsed)]
    rfl
  | ok program =>
    have parsed' (output : Output) (report : Report) :=
      (congrArg Tree.Parsed.result (same output report)).trans parsed
    cases resolved : Resolution.resolve program with
    | error faults =>
      refine ⟨lexical source ++ faults.map .static, fun output report => ?_⟩
      rw [prepare_unresolved parsed resolved, prepare_unresolved (parsed' output report) resolved]
      rfl
    | ok distances =>
      refine ⟨lexical source, fun output report => ?_⟩
      rw [prepare_resolved parsed resolved, prepare_resolved (parsed' output report) resolved]
      rfl

theorem settle_reporting (session : Session) (ending : Signal × State) (output later : Output)
    (report : Report) :
    (session.reporting output report).settle (ending.1, ending.2.withOutput later) =
      (session.settle ending).reporting later (report.addAll ending.1.faults) := by
  obtain ⟨signal, state⟩ := ending
  cases signal <;> rfl

/-- A text prints the same lines and adds the same faults, whatever the output and the report. -/
theorem run_reporting (session : Session) (steps : Nat) (source : String) :
    ∃ lines faults, ∀ output report,
      (session.reporting output report).run steps source =
        (session.run steps source).map fun after =>
          after.reporting (output.printAll lines) (report.addAll faults) := by
  obtain ⟨faults, prepared⟩ := session.prepare_reporting source
  rcases given : session.prepare source with ⟨after, program⟩
  rw [given] at prepared
  cases program with
  | none =>
    refine ⟨[], faults, fun output report => ?_⟩
    simp only [run, given, prepared]
    rfl
  | some program =>
    have begins (output : Output) (report : Report) :
        (session.reporting output report).run steps source =
          (Machine.run steps ((interpreting program after.machine).withOutput output)).map
            (after.reporting output (report.addAll faults)).settle := by
      unfold run
      rw [prepared]
      rfl
    have ran : session.run steps source =
        (Machine.run steps (interpreting program after.machine)).map after.settle := by
      unfold run
      rw [given]
    cases ended : Machine.run steps (interpreting program after.machine) with
    | none =>
      refine ⟨[], [], fun output report => ?_⟩
      rw [begins, run_withOutput, ran, ended]
      rfl
    | some ending =>
      refine ⟨(interpreting program after.machine).lines steps, faults ++ ending.1.faults,
        fun output report => ?_⟩
      rw [begins, run_withOutput, ran, ended, Report.addAll_append]
      exact congrArg some (settle_reporting after ending output _ _)

/-- What a text that comes to its end has printed and reported. -/
structure Leaves (session : Session) (steps : Nat) (source : String) (after : Session)
    (lines : List String) (faults : List Fault) : Prop where
  output : after.machine.output = session.machine.output.printAll lines
  report : after.report = session.report.addAll faults
  elsewhere : ∀ output report, (session.reporting output report).run steps source =
    some (after.reporting (output.printAll lines) (report.addAll faults))

theorem leaves_of_run {steps : Nat} {source : String} {after : Session}
    (ran : session.run steps source = some after) :
    ∃ lines faults, session.Leaves steps source after lines faults := by
  obtain ⟨lines, faults, elsewhere⟩ := session.run_reporting steps source
  have here := elsewhere session.machine.output session.report
  rw [reporting_self, ran] at here
  rw [ran] at elsewhere
  have same := Option.some.inj here
  exact ⟨lines, faults, congrArg (·.machine.output) same, congrArg Session.report same, elsewhere⟩

end Session
end Lox
