import CowArrays.Command.Run

/-!
The program: its arguments and files are those of the system.
-/

open CowArrays CowArrays.Command

def contents? (name : String) : IO (Option Octets) := do
  try
    return some (← IO.FS.readBinFile name).toList
  catch _ => return none

def main (args : List String) : IO UInt32 := do
  let ending ← match parseArguments args with
    | .ok (input, o) => pure (execute .inOrder o (← contents? input))
    | .error stop => pure stop.ending
  IO.print ending.stdout
  IO.eprint ending.stderr
  return UInt32.ofNat ending.exitCode
