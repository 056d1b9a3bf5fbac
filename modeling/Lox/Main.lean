import Lox.Console.Answer

/-!
The program itself. It reads files and lines, prints, and keeps the time; a long execution is cut
into slices, and between two of them its text is printed and its clock is set.
-/

namespace Lox

def reasonOf : IO.Error → String
  | .noFileOrDirectory .. => Script.missing
  | error => toString error

def contentOf (path : String) : IO (Except String (List UInt8)) := do
  try
    return .ok (← IO.FS.readBinFile path).toList
  catch error =>
    return .error (reasonOf error)

def secondsSince (began : Nat) : IO Float := do
  let now ← IO.monoMsNow
  return (now - began).toFloat / 1000

def sliceSize : Nat := 100000

partial def execute (began : Nat) (config : Machine.Config) :
    IO (Machine.Signal × Machine.State) := do
  let now ← secondsSince began
  let config := Machine.advance sliceSize
    { config with state := { config.state with clock := fun _ => now } }
  let (text, state) := config.state.takeText
  IO.print text
  match config.finished? with
  | some (signal, _) => return (signal, state)
  | none => execute began { config with state }

def runSource (began : Nat) (session : Session) (source : String) : IO Session := do
  match session.prepare source with
  | (session, none) => return session
  | (session, some program) =>
    return session.settle (← execute began (Machine.interpreting program session.machine))

def give (answer : Console.Answer) : IO UInt32 := do
  IO.print answer.out
  IO.eprint answer.err
  return answer.code.toUInt32

def withScript (path : String) (use : String → IO UInt32) : IO UInt32 := do
  match Script.read (← contentOf path) with
  | .error fault => give (Console.unreadable path fault)
  | .ok source => use source

/-- The bytes up to a newline and with it, or up to the end. -/
partial def readLine (input : IO.FS.Stream) (line : List UInt8) : IO (List UInt8) := do
  match (← input.read 1).toList with
  | [] => return line.reverse
  | byte :: _ => if byte = 10 then return (byte :: line).reverse else readLine input (byte :: line)

partial def promptLoop (began : Nat) (session : Session) : IO UInt32 := do
  IO.print Console.promptSign
  (← IO.getStdout).flush
  let bytes ← readLine (← IO.getStdin) []
  if bytes.isEmpty then return 0
  match Text.Utf8.decode bytes with
  | .error _ => give ⟨1, "", Console.notText⟩
  | .ok line =>
    let (out, err, session) := Console.endLine (← runSource began session line)
    IO.print out
    IO.eprint err
    promptLoop began session

def perform (command : Console.Command) : IO UInt32 := do
  let began ← IO.monoMsNow
  let session := Session.start (fun _ => 0) false
  match command with
  | .tokenize path json => withScript path fun source => give (Console.tokenize source json)
  | .run path => withScript path fun source => do
    give (Console.conclude (← runSource began session source))
  | .prompt => promptLoop began session

end Lox

def main (arguments : List String) : IO UInt32 := do
  match Lox.Console.Command.ofArguments? arguments with
  | some command => Lox.perform command
  | none =>
    IO.eprint Lox.Console.usage
    return 2
