import Lox.Main
import Lox.Value.Inspect
import Lox.Console.Answer
import Lox.Proofs.Agreement
import Lox.Proofs.Likeness
import Lox.Proofs.Places
import Lox.Proofs.Writes
import Lox.Proofs.Constants
import Lox.Proofs.Alike
import Lox.Proofs.Twins
import Lox.Proofs.Lockstep
import Lox.Proofs.Parallel
import Lox.Proofs.Rewalks
import Lox.Proofs.Accounts
import Lox.Proofs.Refused
import Lox.Proofs.Renamed
import Lox.Proofs.Breaches
import Lox.Proofs.Recognized
import Lox.Proofs.Joined
import Lox.Proofs.Spans
import Lox.Proofs.Floors
import Lox.Proofs.Restored
import Lox.Proofs.Receivers
import Lox.Proofs.Supers
import Lox.Proofs.Printed
import Lox.Proofs.Encoded
import Lox.Proofs.Turns
import Lox.Proofs.Unheard
import Lox.Proofs.Prompt
import Lox.Proofs.Distinct
import Lox.Proofs.Written
import Lox.Proofs.Spelled
import Lox.Proofs.Confined
import Lox.Proofs.Boundaries
import Lox.Proofs.Enclosing
import Lox.Proofs.Longest
import Lox.Proofs.Lines
import Lox.Proofs.Slots
import Lox.Proofs.Returns
import Lox.Proofs.Calls
import Lox.Proofs.Limits
import Lox.Proofs.Renumbered
import Lox.Proofs.Loops
import Lox.Proofs.Rescanned
import Lox.Proofs.Members
import Lox.Proofs.Numerals
import Lox.Proofs.Halting
