import Lox.Machine.Step

/-!
Running to the end. A run takes a number of steps it may not exceed, and gives nothing if they are
too few; more of them never change what a run gives (`run_succ`).
-/

namespace Lox.Machine

def run : Nat → Config → Option (Signal × State)
  | 0, config => config.finished?
  | steps + 1, config =>
    match config.finished? with
    | some result => some result
    | none => run steps (step config)

/-- So many steps, or fewer if the end comes first. -/
def advance : Nat → Config → Config
  | 0, config => config
  | steps + 1, config =>
    match config.finished? with
    | some _ => config
    | none => advance steps (step config)

theorem run_succ {steps : Nat} {config : Config} {result : Signal × State}
    (ends : run steps config = some result) : run (steps + 1) config = some result := by
  induction steps generalizing config with
  | zero => simp only [run] at ends ⊢; simp [ends]
  | succ steps ih =>
    simp only [run] at ends ⊢
    split
    · rename_i found
      simpa [found] using ends
    · rename_i running
      rw [running] at ends
      exact ih ends

/-! ### Where runs start -/

def evaluating (expr : Expr) (state : State) : Config := ⟨.eval expr, [], state⟩

def executing (stmt : Stmt) (state : State) : Config := ⟨.exec stmt, [], state⟩

def applying (callee : Value) (arguments : List Value) (line : Nat) (state : State) : Config :=
  apply callee arguments line [] state

/-- The statements of a program in order, up to the first fault. -/
def interpreting (program : List Stmt) (state : State) : Config :=
  .done .nil [.program program] state

end Lox.Machine
