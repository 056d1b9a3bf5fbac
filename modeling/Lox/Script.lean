import Lox.Fault

/-!
Scripts as they come from a file: bytes that have to be UTF-8, or the reason there are none.
-/

namespace Lox.Script

/-- Why a file that does not exist cannot be read. -/
def missing : String := "No such file or directory (os error 2)"

def read (content : Except String (List UInt8)) : Except Fault String :=
  match content with
  | .error reason => .error (.io reason)
  | .ok bytes => (Text.Utf8.decode bytes).mapError .utf8

end Lox.Script
