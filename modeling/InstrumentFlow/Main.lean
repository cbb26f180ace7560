import InstrumentFlow.CommandLine.Report

/-!
# The program

Real files, the two output channels and the exit code; everything else is `CommandLine`.
-/

namespace InstrumentFlow.CommandLine

/-- What a failure of the operating system says about a file. -/
def faultOf : IO.Error → FileFault
  | .noFileOrDirectory _ _ _ => .notFound
  | .inappropriateType _ code details =>
    if code = 21 then .isDirectory
    else if code = 20 then .notDirectory
    else .other details
  | err => .other (toString err)

/-- The real files. -/
def realFiles : FileAccess IO where
  read path := do
    try
      return .ok (← IO.FS.readBinFile path).toList
    catch err => return .error (faultOf err)
  write path content := do
    try
      IO.FS.writeBinFile path ⟨content.toArray⟩
      return .ok ()
    catch err => return .error (faultOf err)

def printLine : Line → IO Unit
  | .output text => IO.print text
  | .error text => IO.eprint text

/-- Prints a report and gives its exit code. -/
def present (r : Report) : IO UInt32 := do
  r.lines.forM printLine
  if !r.summary.isEmpty then
    IO.println ""
    r.summary.forM IO.println
  return r.exitCode

end InstrumentFlow.CommandLine

open InstrumentFlow.CommandLine

def main (args : List String) : IO UInt32 := do
  match readArguments args with
  | .job j => present (← j.perform realFiles)
  | .help =>
    usage.forM IO.println
    return 0
  | .version =>
    IO.println versionLine
    return 0
  | .misuse =>
    usage.forM IO.eprintln
    return 2
