import Lox.Machine.Run
import Lox.Report
import Lox.Resolution
import Lox.Source.Cursor
import Lox.Tree.Statement

/-!
A session runs one source text after another on one machine. A text is scanned, parsed and resolved
as a whole, and executed only if none of that found a fault; references are numbered on from text to
text, so what earlier texts defined keeps its bindings.
-/

namespace Lox

open Machine

structure Session where
  machine : State
  report : Report
  nextId : Nat

namespace Session

def start (clock : Nat → Float) (broken : Bool) : Session := ⟨.start clock broken, .empty, 0⟩

def complain (session : Session) (faults : List Fault) : Session :=
  { session with report := session.report.addAll faults }

/-- What is to be executed, if there is any and the scan found no fault. -/
def resolve (session : Session) (program : List Stmt) (scanned : Bool) :
    Session × Option (List Stmt) :=
  match Resolution.resolve program with
  | .error faults => (session.complain (faults.map .static), none)
  | .ok distances =>
    ({ session with machine := session.machine.record distances },
      if scanned then some program else none)

def prepare (session : Session) (source : String) : Session × Option (List Stmt) :=
  let items := Source.scan source
  let lexical := Source.faults items
  let parsed := Tree.parse (Source.tokens items) session.nextId
  let session := { session.complain lexical with nextId := parsed.nextId }
  match parsed.result with
  | .error faults => (session.complain faults, none)
  | .ok program => session.resolve program lexical.isEmpty

/-- Takes over where an execution ended. -/
def settle (session : Session) (ending : Signal × State) : Session :=
  let settled := { session with machine := ending.2 }
  match ending.1 with
  | .failed fault => settled.complain [.runtime fault]
  | _ => settled

/-- Gives nothing if the execution takes more than so many steps. -/
def run (steps : Nat) (session : Session) (source : String) : Option Session :=
  match session.prepare source with
  | (session, none) => some session
  | (session, some program) =>
    (Machine.run steps (interpreting program session.machine)).map session.settle

def takeText (session : Session) : String × Session :=
  let (text, machine) := session.machine.takeText
  (text, { session with machine })

def takeFaults (session : Session) : List Fault × Session :=
  let (faults, report) := session.report.take
  (faults, { session with report })

/-! ### For the host -/

def defineNative (session : Session) (name : String) (arity : Nat) (act : HostFunction) :
    Session :=
  { session with machine := session.machine.defineNative name arity act }

def globalNames (session : Session) : List String := session.machine.store.names globals

def global? (session : Session) (name : String) : Option Value :=
  session.machine.store.get? globals name

def define (session : Session) (name : String) (value : Value) : Session :=
  { session with machine :=
    { session.machine with store := session.machine.store.define globals name value } }

def assign? (session : Session) (name : String) (value : Value) : Option Session :=
  (session.machine.store.assign? globals name value).map fun store =>
    { session with machine := { session.machine with store } }

end Session
end Lox
