import ColumnDecl.CommandLine

open ColumnDecl

/-- Prints what the command line answers; log lines are stamped with the milliseconds so far. -/
def main (arguments : List String) : IO UInt32 := do
  let stamp := toString (← IO.monoMsNow)
  match CommandLine.run stamp (arguments.map String.toList) with
  | .ok output =>
    (← IO.getStdout).putStr output.stdout
    (← IO.getStderr).putStr output.stderr
    return output.status.toUInt32
  | .error failure =>
    (← IO.getStderr).putStrLn failure.message
    return 1
