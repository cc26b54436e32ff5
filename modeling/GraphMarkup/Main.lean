import GraphMarkup.CommandLine.Program

/-!
# The program

`main` reads the source that the arguments name, writes the output and the error with its causes, and ends with the
exit code of the report.
-/

namespace GraphMarkup.CommandLine

def Source.read (source : Source) : IO (Option ByteArray) := do
  try
    match source with
    | standardInput => return some (← (← IO.getStdin).readBinToEnd)
    | file path => return some (← IO.FS.readBinFile path)
  catch _ => return none

def Report.print (report : Report) : IO Unit := do
  let out ← IO.getStdout
  out.putStr report.output
  out.flush
  let err ← IO.getStderr
  match report.errors with
  | [] => if report.exitCode = 2 then err.putStrLn "error: the arguments are not understood"
  | error :: causes =>
    err.putStrLn ("Error: " ++ error)
    unless causes.isEmpty do
      err.putStrLn "\nCaused by:"
      for cause in causes do err.putStrLn ("    " ++ cause)

/-- Runs the program on arguments. The source is read only when the arguments and the policy are in order. -/
def perform (arguments : List String) : IO Report := do
  match Command.parse? arguments with
  | some (.convert a) =>
    match a.policy with
    | .ok policy => return convertBytes a policy (← a.source.read)
    | .error e => return invalidPolicy e
  | _ => return run arguments fun _ => none

end GraphMarkup.CommandLine

def main (arguments : List String) : IO UInt32 := do
  let report ← GraphMarkup.CommandLine.perform arguments
  report.print
  return report.exitCode.toUInt32
