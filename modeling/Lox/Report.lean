import Lox.Fault

/-!
The faults of a session, in order. Taking them leaves the two flags as they stand, and a reset
clears only the flag of the faults that kept a program from running.
-/

namespace Lox

structure Report where
  faults : List Fault
  hadError : Bool
  hadRuntimeError : Bool

namespace Report

def empty : Report := ⟨[], false, false⟩

def add (report : Report) (fault : Fault) : Report where
  faults := report.faults ++ [fault]
  hadError := report.hadError || fault.isStatic
  hadRuntimeError := report.hadRuntimeError || !fault.isStatic

def addAll (report : Report) (faults : List Fault) : Report := faults.foldl add report

def take (report : Report) : List Fault × Report :=
  (report.faults, { report with faults := [] })

def reset (report : Report) : Report := { report with hadError := false }

/-- A fault that kept a program from running outweighs one that stopped it. -/
def exitCode (report : Report) : Nat :=
  if report.hadError then 65 else if report.hadRuntimeError then 70 else 0

end Report
end Lox
