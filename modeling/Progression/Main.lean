import Progression.Session

/-! # The command line

An interactive session on standard input and output. It ends with the input. -/

namespace Progression

/-- Answers lines until the input ends. -/
partial def interact (input output : IO.FS.Stream) (current : Formula) : IO Unit := do
  output.putStr Session.prompt
  output.flush
  let line ← input.getLine
  if line.isEmpty then return
  match Session.answer current line with
  | .ok answer =>
    output.putStr answer.printed
    interact input output answer.current
  | .error fault => throw (IO.userError fault.message)

end Progression

def main : IO Unit := do
  Progression.interact (← IO.getStdin) (← IO.getStdout) Progression.Session.start
