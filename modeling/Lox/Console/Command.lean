/-!
The command line: `run` with or without a script, and `tokenize` with one.
-/

namespace Lox.Console

inductive Command
  | tokenize (path : String) (json : Bool)
  | run (path : String)
  | prompt
deriving DecidableEq, Repr

/-- `--log` may stand anywhere and changes nothing that is printed. -/
def Command.ofArguments? (arguments : List String) : Option Command :=
  match arguments.filter (· != "--log") with
  | ["run"] => some .prompt
  | ["run", path] => some (.run path)
  | "tokenize" :: options =>
    match options.filter (· != "--json") with
    | [path] => some (.tokenize path (options.contains "--json"))
    | _ => none
  | _ => none

def usage : String := "Usage: lox run [FILE] | lox tokenize FILE [--json]\n"

end Lox.Console
