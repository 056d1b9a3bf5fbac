import Lox.Console.Command
import Lox.Script
import Lox.Session
import Lox.Token.Json

/-!
What the commands print and with which status they end. Scripts and the prompt run in a session of
their own; at the prompt every line is a source text, and a fault in one does not touch the next.
-/

namespace Lox.Console

structure Answer where
  code : Nat
  out : String
  err : String
deriving DecidableEq, Repr

def lines (texts : List String) : String := String.join (texts.map (· ++ "\n"))

def faultLines (faults : List Fault) : String := lines (faults.map Fault.message)

def unreadable (path : String) (fault : Fault) : Answer where
  code := 1
  out := ""
  err := "Error: Failed to read " ++ Text.inspect path ++ "\n\nCaused by:\n    " ++ fault.message ++
    "\n"

def tokenize (source : String) (json : Bool) : Answer :=
  let items := Source.scan source
  let tokens := Source.tokens items
  let faults := Source.faults items
  { code := if faults.isEmpty then 0 else 65
    out := if json then Token.prettyJsonList tokens ++ "\n" else lines (tokens.map Token.text)
    err := faultLines faults }

/-- The end of a script's session. -/
def conclude (session : Session) : Answer where
  code := session.report.exitCode
  out := session.machine.output.text
  err := faultLines session.report.faults

def runScript (steps : Nat) (session : Session) (source : String) : Option Answer :=
  (session.run steps source).map conclude

/-! ### The prompt -/

def promptSign : String := "> "

def notText : String := "Error: stream did not contain valid UTF-8\n"

/-- Bytes cut after each newline; the last line may lack one. -/
def splitLines : List UInt8 → List (List UInt8)
  | [] => []
  | byte :: rest =>
    if byte = 10 then [byte] :: splitLines rest
    else match splitLines rest with
      | [] => [[byte]]
      | line :: others => (byte :: line) :: others

/-- What has been printed and complained of since the last line, and the session for the next. -/
def endLine (session : Session) : String × String × Session :=
  let (out, session) := session.takeText
  let (faults, session) := session.takeFaults
  (out, faultLines faults, { session with report := session.report.reset })

def promptLines (steps : Nat) (session : Session) : List (List UInt8) → Option Answer
  | [] => some ⟨0, promptSign, ""⟩
  | bytes :: later =>
    match Text.Utf8.decode bytes with
    | .error _ => some ⟨1, promptSign, notText⟩
    | .ok line => do
      let (out, err, session) := endLine (← session.run steps line)
      let answer ← promptLines steps session later
      return ⟨answer.code, promptSign ++ out ++ answer.out, err ++ answer.err⟩

def prompt (steps : Nat) (session : Session) (input : List UInt8) : Option Answer :=
  promptLines steps session (splitLines input)

/-! ### Commands -/

/-- `content` is what a path holds, or why it cannot be read. -/
def respond (steps : Nat) (session : Session) (content : String → Except String (List UInt8))
    (input : List UInt8) : Command → Option Answer
  | .tokenize path json =>
    match Script.read (content path) with
    | .error fault => some (unreadable path fault)
    | .ok source => some (tokenize source json)
  | .run path =>
    match Script.read (content path) with
    | .error fault => some (unreadable path fault)
    | .ok source => runScript steps session source
  | .prompt => prompt steps session input

end Lox.Console
