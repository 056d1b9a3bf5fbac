import Lox.Proofs.Encoded
import Lox.Proofs.Turns

/-! The prompt runs its lines in one session. What it prints and complains of is what each line adds,
in order, and what it clears away between two lines is nothing that a line could tell. -/

namespace Lox

open Machine Text

/-! ### Lines -/

/-- Bytes and their lines. Each line ends with its newline and has no other, but the last line may
lack one. -/
inductive Cut : List UInt8 → List (List UInt8) → Prop
  | nothing : Cut [] []
  | last {line : List UInt8} : line ≠ [] → 10 ∉ line → Cut line [line]
  | line {body rest : List UInt8} {lines : List (List UInt8)} : 10 ∉ body → Cut rest lines →
      Cut (body ++ 10 :: rest) ((body ++ [10]) :: lines)

namespace Console

theorem splitLines_last {line : List UInt8} (filled : line ≠ []) (whole : 10 ∉ line) :
    splitLines line = [line] := by
  induction line with
  | nil => exact absurd rfl filled
  | cons byte rest ih =>
    have other := Ne.symm (List.ne_of_not_mem_cons whole)
    rw [splitLines, if_neg other]
    cases rest with
    | nil => rfl
    | cons next rest => rw [ih (List.cons_ne_nil _ _) (List.not_mem_of_not_mem_cons whole)]

theorem splitLines_line {body : List UInt8} (whole : 10 ∉ body) (rest : List UInt8) :
    splitLines (body ++ 10 :: rest) = (body ++ [10]) :: splitLines rest := by
  induction body with
  | nil => rfl
  | cons byte body ih =>
    have other := Ne.symm (List.ne_of_not_mem_cons whole)
    rw [List.cons_append, splitLines, if_neg other, ih (List.not_mem_of_not_mem_cons whole)]
    rfl

theorem cut_splitLines (input : List UInt8) : Cut input (splitLines input) := by
  induction input with
  | nil => exact .nothing
  | cons byte rest ih =>
    by_cases newline : byte = 10
    · subst newline
      have none : (10 : UInt8) ∉ [] := List.not_mem_nil
      exact .line none ih
    · have longer {body : List UInt8} (whole : 10 ∉ body) : 10 ∉ byte :: body :=
        List.not_mem_cons_of_ne_of_not_mem (Ne.symm newline) whole
      generalize lines : splitLines rest = lines at ih
      rw [splitLines, if_neg newline, lines]
      cases ih with
      | nothing => exact .last (List.cons_ne_nil _ _) (longer List.not_mem_nil)
      | last _ whole => exact .last (List.cons_ne_nil _ _) (longer whole)
      | line whole cut => exact .line (longer whole) cut

end Console

/-- There is one way to cut bytes into lines. -/
theorem Cut.eq_splitLines {input : List UInt8} {lines : List (List UInt8)} (cut : Cut input lines) :
    lines = Console.splitLines input := by
  induction cut with
  | nothing => rfl
  | last filled whole => exact (Console.splitLines_last filled whole).symm
  | line whole _ ih => rw [Console.splitLines_line whole, ih]

/-! ### Turns -/

namespace Turn

def bytes (turn : Turn) : List UInt8 := Utf8.bytes turn.source

/-- What stands in the output after a turn, and did not before. -/
def printed (turn : Turn) : String :=
  .ofList (turn.after.machine.output.text.toList.drop
    turn.before.machine.output.text.toList.length)

/-- The faults that are held after a turn, and were not before. -/
def added (turn : Turn) : List Fault :=
  turn.after.report.faults.drop turn.before.report.faults.length

/-- A turn leaves alone what was printed and complained of before. -/
structure Appends (turn : Turn) : Prop where
  output : turn.after.machine.output.text = turn.before.machine.output.text ++ turn.printed
  faults : turn.after.report.faults = turn.before.report.faults ++ turn.added

end Turn

namespace Session.Leaves

variable {session after : Session} {steps : Nat} {source : String} {lines : List String}
  {faults : List Fault}

theorem printed (leaves : session.Leaves steps source after lines faults)
    (sound : ¬session.machine.output.broken) :
    (⟨session, source, after⟩ : Turn).printed = String.join (lines.map (· ++ "\n")) := by
  have text := congrArg Output.text (leaves.output.trans (Output.printAll_sound sound lines))
  simp only [Turn.printed, text, String.toList_append, List.drop_left, String.ofList_toList]

theorem added (leaves : session.Leaves steps source after lines faults) :
    (⟨session, source, after⟩ : Turn).added = faults := by
  simp only [Turn.added, leaves.report, Report.addAll_faults, List.drop_left]

theorem appends (leaves : session.Leaves steps source after lines faults)
    (sound : ¬session.machine.output.broken) : (⟨session, source, after⟩ : Turn).Appends := by
  constructor
  · rw [leaves.printed sound]
    exact congrArg Output.text (leaves.output.trans (Output.printAll_sound sound lines))
  · rw [leaves.added, leaves.report, Report.addAll_faults]

theorem sound (leaves : session.Leaves steps source after lines faults)
    (sound : ¬session.machine.output.broken) : ¬after.machine.output.broken := by
  rw [leaves.output, Output.printAll_sound sound]
  exact sound

/-- The prompt shows what the line has added, and goes on with nothing printed or held. -/
theorem endLine (leaves : session.Leaves steps source after lines faults)
    (sound : ¬session.machine.output.broken) {report : Report} (clear : report.faults = []) :
    ∃ report', report'.faults = [] ∧
      Console.endLine (after.reporting (Output.printAll ⟨"", false⟩ lines) (report.addAll faults)) =
        ((⟨session, source, after⟩ : Turn).printed,
          Console.faultLines (⟨session, source, after⟩ : Turn).added,
            after.reporting ⟨"", false⟩ report') := by
  refine ⟨((report.addAll faults).take.2).reset, rfl, ?_⟩
  rw [leaves.printed sound, leaves.added, Output.printAll_sound Bool.false_ne_true]
  have held : (report.addAll faults).faults = faults := by
    rw [Report.addAll_faults, clear, List.nil_append]
  simp only [Console.endLine, Session.takeText, State.takeText, Session.takeFaults, Report.take,
    Session.reporting, State.withOutput, held, String.empty_append]

end Session.Leaves

theorem Session.run_enough {session after : Session} {steps : Nat} {source : String}
    (ran : session.run steps source = some after) {more : Nat} (large : steps ≤ more) :
    session.run more source = some after := by
  obtain ⟨extra, rfl⟩ := Nat.exists_eq_add_of_le large
  unfold Session.run at ran ⊢
  split at ran
  · exact ran
  · obtain ⟨ending, ended, settled⟩ := Option.map_eq_some_iff.mp ran
    rw [Session.run_more ended extra]
    exact congrArg some settled

/-! ### The whole input -/

/-- What the prompt prints over lines that are run: a sign before each, and one more at the end. -/
def transcript (turns : List Turn) : String :=
  String.join (turns.map fun turn => Console.promptSign ++ turn.printed) ++ Console.promptSign

def complaints (turns : List Turn) : String :=
  String.join (turns.map fun turn => Console.faultLines turn.added)

/-- The answer to some lines, with the answer to the lines after them. -/
def Console.Answer.after (answer : Answer) (turns : List Turn) : Answer where
  code := answer.code
  out := String.join (turns.map fun turn => promptSign ++ turn.printed) ++ answer.out
  err := complaints turns ++ answer.err

theorem Console.Answer.after_nil (answer : Answer) : answer.after [] = answer := by
  simp [after, complaints]

theorem Console.Answer.after_cons (answer : Answer) (turn : Turn) (turns : List Turn) :
    answer.after (turn :: turns) = ⟨answer.code, promptSign ++ turn.printed ++ (answer.after turns).out,
      faultLines turn.added ++ (answer.after turns).err⟩ := by
  simp [after, complaints, String.join_cons, String.append_assoc]

/-- A line that is run is answered with what it adds. -/
theorem Session.Leaves.promptLines {session after : Session} {steps : Nat} {source : String}
    {lines : List String} {faults : List Fault}
    (leaves : session.Leaves steps source after lines faults)
    (sound : ¬session.machine.output.broken) {report : Report} (clear : report.faults = []) :
    ∃ report', report'.faults = [] ∧ ∀ rest,
      Console.promptLines steps (session.reporting ⟨"", false⟩ report) (Utf8.bytes source :: rest) =
        (Console.promptLines steps (after.reporting ⟨"", false⟩ report') rest).map fun answer =>
          ⟨answer.code,
            Console.promptSign ++ (⟨session, source, after⟩ : Turn).printed ++ answer.out,
            Console.faultLines (⟨session, source, after⟩ : Turn).added ++ answer.err⟩ := by
  obtain ⟨report', clear', ended⟩ := leaves.endLine sound clear
  refine ⟨report', clear', fun rest => ?_⟩
  rw [Console.promptLines, Utf8.decode_eq_ok_iff.mpr rfl]
  dsimp only
  rw [leaves.elsewhere]
  simp only [Option.bind_eq_bind, Option.bind_some, ended]
  cases Console.promptLines steps (after.reporting ⟨"", false⟩ report') rest <;> rfl

/-- With enough steps, the prompt gets through lines that are run and on to those after them. -/
theorem promptLines_runs {session last : Session} {turns : List Turn}
    (ran : Runs session turns last) (sound : ¬session.machine.output.broken) :
    (∀ turn ∈ turns, turn.Appends) ∧
      ∃ bound, ∀ steps, bound ≤ steps → ∀ report, report.faults = [] → ∃ report', ∀ rest,
        Console.promptLines steps (session.reporting ⟨"", false⟩ report)
            (turns.map Turn.bytes ++ rest) =
          (Console.promptLines steps (last.reporting ⟨"", false⟩ report') rest).map
            (·.after turns) := by
  induction ran with
  | nil session =>
    refine ⟨fun _ => List.not_mem_nil.elim, 0, fun steps _ report _ => ⟨report, fun rest => ?_⟩⟩
    simp only [Console.Answer.after_nil, Option.map_id_fun', id, List.map_nil, List.nil_append]
  | @cons session after last source enough turns ran _ ih =>
    obtain ⟨lines, faults, leaves⟩ := Session.leaves_of_run ran
    obtain ⟨appends, bound, later⟩ := ih (leaves.sound sound)
    refine ⟨List.forall_mem_cons.mpr ⟨leaves.appends sound, appends⟩, max enough bound, ?_⟩
    intro steps large report clear
    obtain ⟨lines, faults, leaves⟩ :=
      Session.leaves_of_run (Session.run_enough ran (Nat.le_trans (Nat.le_max_left _ _) large))
    obtain ⟨between, clear, here⟩ := leaves.promptLines sound clear
    obtain ⟨report', rest⟩ := later steps (Nat.le_trans (Nat.le_max_right _ _) large) between clear
    refine ⟨report', fun others => ?_⟩
    rw [List.map_cons, List.cons_append, Turn.bytes, here, rest, Option.map_map]
    congr 1
    funext answer
    exact (answer.after_cons _ turns).symm

/-- What the prompt answers to an input, if it may take enough steps. -/
def Prompts (clock : Nat → Float) (input : List UInt8) (answer : Console.Answer) : Prop :=
  ∃ bound, ∀ steps content, bound ≤ steps →
    Console.respond steps (.start clock false) content input .prompt = some answer

/-- What the prompt answers to an input whose first lines are run. If there are no more, it ends with
one more sign, and if the next is no text, with a complaint instead of running it. -/
structure Folds (clock : Nat → Float) (input : List UInt8) (lines : List (List UInt8))
    (turns : List Turn) : Prop where
  appends : ∀ turn ∈ turns, turn.Appends
  whole : lines = turns.map Turn.bytes →
    Prompts clock input ⟨0, transcript turns, complaints turns⟩
  stopped : ∀ bad later, lines = turns.map Turn.bytes ++ bad :: later →
    (¬∃ text, bad = Utf8.bytes text) →
      Prompts clock input ⟨1, transcript turns, complaints turns ++ Console.notText⟩

theorem promptLines_stopped {bad : List UInt8} (refused : ¬∃ text, bad = Utf8.bytes text)
    (steps : Nat) (session : Session) (later : List (List UInt8)) :
    Console.promptLines steps session (bad :: later) =
      some ⟨1, Console.promptSign, Console.notText⟩ := by
  obtain ⟨fault, failed⟩ := Utf8.decode_eq_error_iff.mpr refused
  rw [Console.promptLines, failed]

/-- The prompt folds the lines of its input, of which there is one choice, into one session. -/
theorem prompt_folds (clock : Nat → Float) (input : List UInt8) :
    ∃ lines, Cut input lines ∧ (∀ others, Cut input others → others = lines) ∧
      ∀ turns last, Runs (.start clock false) turns last → Folds clock input lines turns := by
  refine ⟨_, Console.cut_splitLines input, fun _ cut => cut.eq_splitLines, ?_⟩
  intro turns last ran
  obtain ⟨appends, bound, answers⟩ := promptLines_runs ran Bool.false_ne_true
  refine ⟨appends, fun whole => ⟨bound, fun steps content large => ?_⟩,
    fun bad later stopped refused => ⟨bound, fun steps content large => ?_⟩⟩
  · obtain ⟨_, given⟩ := answers steps large .empty rfl
    have answer := given []
    rw [List.append_nil, ← whole] at answer
    refine answer.trans ?_
    simp only [Console.promptLines, Option.map_some, Console.Answer.after, String.append_empty]
    rfl
  · obtain ⟨_, given⟩ := answers steps large .empty rfl
    have answer := given (bad :: later)
    rw [← stopped, promptLines_stopped refused] at answer
    exact answer

/-- A fault in a line does not end the prompt, but bytes that are no text do. -/
theorem prompt_ends_at_bytes : ∃ turn last, Runs (.start (fun _ => 0) false) [turn] last ∧
    turn.added = [.runtime (.typeMismatch .number 1)] ∧
    Prompts (fun _ => 0) (turn.bytes ++ [255])
      ⟨1, transcript [turn], complaints [turn] ++ Console.notText⟩ := by
  have faulty : ((Session.start (fun _ => 0) false).run 8 "-nil;\n").map (·.report.faults) =
      some [.runtime (.typeMismatch .number 1)] := by cbv
  obtain ⟨after, ran, faults⟩ := Option.map_eq_some_iff.mp faulty
  have runs := Runs.cons ran (.nil after)
  refine ⟨_, after, runs, faults, ?_⟩
  obtain ⟨_, _, unique, folds⟩ := prompt_folds (fun _ => 0) (Utf8.bytes "-nil;\n" ++ [255])
  have cut : Cut (Utf8.bytes "-nil;" ++ 10 :: [255]) [Utf8.bytes "-nil;" ++ [10], [255]] :=
    .line (by decide) (.last (by decide) (by decide))
  have split : Utf8.bytes "-nil;\n" = Utf8.bytes "-nil;" ++ [10] := by decide
  rw [split, List.append_assoc] at folds unique
  refine (folds _ after runs).stopped [255] [] (unique _ cut).symm ?_
  exact Utf8.decode_eq_error_iff.mp ⟨_, rfl⟩

end Lox
