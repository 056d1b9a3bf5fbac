import Lox.Proofs.Floors

/-! No step looks at the output. A program does the same whatever was printed before it, and whether
or not anything can be printed at all, and it prints the same lines. -/

namespace Lox.Machine

def Output.printAll (output : Output) (lines : List String) : Output :=
  lines.foldl Output.print output

def State.withOutput (state : State) (output : Output) : State := { state with output }

/-- The same with what was printed elsewhere. -/
def Config.withOutput (config : Config) (output : Output) : Config :=
  { config with state := config.state.withOutput output }

/-- What is printed by so many steps, or fewer if the end comes first. -/
def Config.lines : Nat → Config → List String
  | 0, _ => []
  | steps + 1, config =>
    match config.finished? with
    | some _ => []
    | none => config.line?.toList ++ (step config).lines steps

/-! ### Output -/

theorem Output.printAll_append (output : Output) (first second : List String) :
    output.printAll (first ++ second) = (output.printAll first).printAll second :=
  List.foldl_append

theorem Output.print_broken {output : Output} (broken : output.broken) (line : String) :
    output.print line = output := if_pos broken

/-- Nothing gets through to a broken output. -/
theorem Output.printAll_broken {output : Output} (broken : output.broken) (lines : List String) :
    output.printAll lines = output := by
  induction lines with
  | nil => rfl
  | cons line rest ih => exact (congrArg (·.printAll rest) (print_broken broken line)).trans ih

/-- Lines are added at the end. -/
theorem Output.printAll_sound {output : Output} (sound : ¬output.broken) (lines : List String) :
    output.printAll lines =
      ⟨output.text ++ String.join (lines.map (· ++ "\n")), output.broken⟩ := by
  induction lines generalizing output with
  | nil => simp [printAll]
  | cons line rest ih =>
    have printed : output.print line = ⟨output.text ++ line ++ "\n", output.broken⟩ := if_neg sound
    have still : ¬(output.print line).broken := by
      rw [printed]
      exact sound
    have later := ih still
    have split : output.printAll (line :: rest) = (output.print line).printAll rest := rfl
    rw [split, later, printed]
    simp [String.append_assoc]

/-! ### One step -/

/-- A step does the same with another output, and adds the same line to it. -/
theorem step_withOutput (config : Config) (output : Output) :
    step (config.withOutput output) =
      (step config).withOutput (output.printAll config.line?.toList) := by
  cases prints : config.line? with
  | some line =>
    obtain ⟨value, stack, state, rfl, rfl⟩ := eq_of_line prints
    rfl
  | none =>
    cases ended : config.finished? with
    | some ending =>
      obtain rfl := eq_of_finished ended
      rfl
    | none =>
      have same := step_beside ended prints [] fun _ => output
      rw [Config.beside, Config.beside, List.append_nil, List.append_nil] at same
      exact same

/-! ### Runs -/

theorem finished?_withOutput (config : Config) (output : Output) :
    (config.withOutput output).finished? =
      config.finished?.map fun ending => (ending.1, ending.2.withOutput output) := by
  obtain ⟨control, stack, state⟩ := config
  cases control with
  | eval _ | exec _ => rfl
  | signal signal => cases stack <;> rfl

/-- A run ends alike with another output, and adds the same lines to it. -/
theorem run_withOutput (steps : Nat) (config : Config) (output : Output) :
    run steps (config.withOutput output) = (run steps config).map fun ending =>
      (ending.1, ending.2.withOutput (output.printAll (config.lines steps))) := by
  induction steps generalizing config output with
  | zero => apply finished?_withOutput
  | succ steps ih =>
    cases ended : config.finished? with
    | some ending =>
      simp only [run, finished?_withOutput, Config.lines, ended, Option.map_some]
      rfl
    | none =>
      simp only [run, finished?_withOutput, Config.lines, ended, Option.map_none, step_withOutput, ih,
        Output.printAll_append]

end Lox.Machine
