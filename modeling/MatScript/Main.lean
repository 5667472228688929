import MatScript.Command.Line

/-! The program: the command line, files and standard streams. -/
namespace MatScript

/-- The most rounds of a loop. -/
def loopLimit : Nat := Nat.pow 2 60

/-- Standard input up to its end, after a text. -/
partial def readStandard (stream : IO.FS.Stream) (text : String) : IO String := do
  let line ← stream.getLine
  if line.isEmpty then return text else readStandard stream (text ++ line)

/-- The text of a file, if it can be read. A lone dash stands for standard input. -/
def readText (name : String) : IO (Option String) := do
  if name = "-" then return some (← readStandard (← IO.getStdin) "")
  try return some (← IO.FS.readFile name) catch _ => return none

/-- Carry out a command line. -/
def runLine (args : List String) : IO UInt32 := do
  let request := Command.Line.read args
  let text ← match request.file? with
    | some name => readText name
    | none => pure none
  let report := request.report (fun _ => 0) loopLimit text
  IO.print report.out
  IO.eprint report.err
  return report.exit.toUInt32

end MatScript

def main (args : List String) : IO UInt32 := MatScript.runLine args
