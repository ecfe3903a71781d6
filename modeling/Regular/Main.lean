import Regular.CommandLine.Report
/-!
# Main — the command

Reads the words of the command line, writes the two texts of the report, and ends with its exit code.
-/

def main (args : List String) : IO UInt32 := do
  let report := (Regular.CommandLine.readRequest (args.map String.toList)).report
  (← IO.getStdout).putStr (String.ofList report.output)
  (← IO.getStderr).putStr (String.ofList report.complaint)
  return report.exitCode.toUInt32
