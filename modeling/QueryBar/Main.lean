import QueryBar.Command.Line

/-!
# The program

Reads what a command needs, the catalog it names and standard input, and writes what the command
reports. A file that exists but cannot be read ends the command only if the command needs it.
-/

namespace QueryBar

/-- Why the system could not read a file. A path through something that is no directory and a
directory in place of a file are told apart by the number of the error. -/
def ReadFault.ofSystem : IO.Error → ReadFault
  | .noFileOrDirectory .. => .notFound
  | .inappropriateType _ number _ => if number = 21 then .isADirectory else .notADirectory
  | .permissionDenied .. => .other "Permission denied (os error 13)"
  | e => .other (toString e)

/-- Reads one file. Of the files that a command may ask for, it is the only one there is. -/
def readOnly (path : String) : IO Files := do
  let content ← (IO.FS.readBinFile path).toBaseIO
  let content := match content with
    | .ok bytes => .ok bytes
    | .error e => .error (ReadFault.ofSystem e)
  return fun asked => if asked = path then content else .error .notFound

/-- Reads standard input to its end, unless it is a terminal. -/
def readStandardInput : IO (Option ByteArray) := do
  let stdin ← IO.getStdin
  if ← stdin.isTty then return none
  return some (← stdin.readBinToEnd)

/-- What the program reports for its arguments. -/
def reportOn (args : List String) : IO Report := do
  match CommandLine.parse args with
  | .error stop => return CommandLine.stopReport stop
  | .ok command =>
    let stdin ← if command.needsInput then readStandardInput else pure none
    let files ← match command.catalog? with
      | some path => readOnly path
      | none => pure fun _ => .error .notFound
    return command.perform files stdin

end QueryBar

def main (args : List String) : IO UInt32 := do
  let report ← QueryBar.reportOn args
  IO.print report.stdout
  IO.eprint report.stderr
  return report.code
