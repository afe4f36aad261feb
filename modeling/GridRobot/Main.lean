import GridRobot.Command.Execution

/-!
# The command line

The program: commands against the files of the system.
-/

namespace GridRobot

/-- The files of the system as a disk. -/
def systemDisk : Disk IO where
  read path := do
    try
      return some (← IO.FS.readBinFile path).data.toList
    catch _ => return none
  write path bytes := do
    try
      IO.FS.writeBinFile path ⟨bytes.toArray⟩
      return true
    catch _ => return false

end GridRobot

def main (words : List String) : IO UInt32 := do
  let outcome ← GridRobot.Command.execute GridRobot.systemDisk words
  (← IO.getStdout).putStr outcome.output
  (← IO.getStderr).putStr outcome.errors
  return outcome.code
