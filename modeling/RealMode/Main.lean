import RealMode.Command.Run

/-!
# The command line

Runs the commands on the files of the machine.
-/

namespace RealMode

/-- The cause of a failed file operation. -/
def fileFault (e : IO.Error) : FileFault :=
  match e with
  | .noFileOrDirectory .. => .noEntry
  | .inappropriateType _ code _ => ofCode code
  | e => .other (toString e)
where
  ofCode (code : UInt32) : FileFault :=
    if code = 20 then .notDirectory
    else if code = 21 then .isDirectory
    else .other (toString e)

/-- The files of the machine. -/
def machineDisk : Disk IO where
  readText path := do
    try
      let bytes ← IO.FS.readBinFile path
      match String.fromUTF8? bytes with
      | some text => return .ok text
      | none => return .error .invalidText
    catch e => return .error (fileFault e)
  hasEntry path := do
    try
      let _ ← IO.FS.Handle.mk path .read
      return true
    catch _ => return false
  writeText path text := do
    try
      IO.FS.writeFile path text
      return .ok ()
    catch e => return .error (fileFault e)

end RealMode

/-- Runs the program. -/
def main (arguments : List String) : IO UInt32 := do
  let outcome ← RealMode.Command.run RealMode.machineDisk arguments
  (← IO.getStdout).putStr outcome.stdout
  (← IO.getStderr).putStr outcome.stderr
  return outcome.exitCode.toUInt32
