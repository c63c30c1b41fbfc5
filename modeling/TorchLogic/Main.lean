import TorchLogic.Command.Outcome

/-!
# The program

Reads the arguments and the file that they name, and shows the outcome.
-/

namespace TorchLogic

/-- The content of a file, if it can be read as text. -/
def fileContent? (path : String) : IO (Option String) := do
  try
    return some (← IO.FS.readFile path)
  catch _ => return none

/-- The outcome of a run with the given arguments. -/
def outcome (arguments : List String) : IO Outcome := do
  match Request.ofArguments arguments with
  | .error stop => return Outcome.stopped stop
  | .ok request =>
    let content ←
      match request.path? with
      | some path => fileContent? path
      | none => pure none
    return Outcome.ofRequest content request

end TorchLogic

def main (arguments : List String) : IO UInt32 := do
  let outcome ← TorchLogic.outcome arguments
  IO.print outcome.stdout
  IO.eprint outcome.stderr
  return outcome.code.toUInt32
