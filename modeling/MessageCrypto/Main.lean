import MessageCrypto.Cli.Run

/-!
# The command line program

Reads the arguments and the environment, takes random bytes from the machine, and writes what the
library answers. It keeps no log, and does not erase keys from memory.
-/

open MessageCrypto

/-- Random bytes come from the machine. -/
def runDraws {α : Type} : Draw α → IO α
  | .done result => pure result
  | .ask count next => do
    let bytes ← IO.getRandomBytes count.toUSize
    runDraws (next bytes.data.toList)

def main (arguments : List String) : IO UInt32 := do
  let outcome ← runDraws (Cli.runProgram arguments (← IO.getEnv "SECUREMESSAGE_KEY"))
  (← IO.getStdout).putStr outcome.stdout
  (← IO.getStderr).putStr outcome.stderr
  return outcome.exitCode.toUInt32
