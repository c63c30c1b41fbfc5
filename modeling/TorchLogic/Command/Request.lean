/-!
# Requests

What the arguments of the command line ask for. Before the name of a command stand the options of
the program; after it, the options and the file of the command. Long options start with two hyphens,
and letters after a single hyphen are options one by one. After two hyphens alone everything is a
file, and a single hyphen is a file, too.

Arguments are read from the left, and the first that is wrong, or that asks for help or for the
version, ends the reading. An option is wrong where it does not belong, and when it is written twice
at the same place.
-/

namespace TorchLogic

/-- **An option.** -/
inductive Flag
  | verbose
  | version
  | help
  | json
  deriving DecidableEq

namespace Flag

def ofLong? : String → Option Flag
  | "verbose" => some verbose
  | "version" => some version
  | "help" => some help
  | "json" => some json
  | _ => none

def ofLetter? : Char → Option Flag
  | 'v' => some verbose
  | 'V' => some version
  | 'h' => some help
  | _ => none

end Flag

/-- **An argument by its form.** Options that do not exist are kept as such. -/
inductive Word
  | operand (value : String)
  | flags (written : List (Option Flag))
  | terminator

/-- The form of an argument. -/
def Word.ofArgument (argument : String) : Word :=
  match argument.toList with
  | ['-', '-'] => terminator
  | '-' :: '-' :: name => flags [Flag.ofLong? (String.ofList name)]
  | '-' :: c :: letters => flags ((c :: letters).map Flag.ofLetter?)
  | _ => operand argument

/-- **Why no command is carried out.** -/
inductive Stop
  | usage
  | help
  | version
  deriving DecidableEq

/-- **A command with its file and the choice of its output.** -/
inductive Request
  /-- The table of the board of a layout file. -/
  | synth (path : String) (json : Bool)
  /-- The description of a table file. -/
  | inspect (path : String) (json : Bool)
  | known (json : Bool)
  deriving DecidableEq

namespace Request

/-- Adds an option to those that are already written, if it may stand there. -/
def addFlag (allowed seen : List Flag) : Option Flag → Except Stop (List Flag)
  | none => .error .usage
  | some f =>
    if f ∉ allowed ∨ f ∈ seen then .error .usage
    else if f = .help then .error .help
    else if f = .version then .error .version
    else .ok (f :: seen)

/-- The options and files of a command, of which there are at most `limit`. -/
def collect (limit : Nat) (seen : List Flag) (operands : List String) :
    List String → Except Stop (List Flag × List String)
  | [] => .ok (seen, operands)
  | argument :: rest =>
    match Word.ofArgument argument with
    | .flags written => do
      collect limit (← written.foldlM (addFlag [.verbose, .help, .json]) seen) operands rest
    | .operand value =>
      if operands.length < limit then collect limit seen (operands ++ [value]) rest
      else .error .usage
    | .terminator =>
      -- Whatever follows is a file, hyphens or not.
      let operands := operands ++ rest
      if operands.length ≤ limit then .ok (seen, operands) else .error .usage

/-- A command that wants one file. -/
def withFile (make : String → Bool → Request) (arguments : List String) : Except Stop Request := do
  match ← collect 1 [] [] arguments with
  | (seen, [path]) => .ok (make path (seen.contains .json))
  | _ => .error .usage

/-- The command with a given name. -/
def ofCommand (name : String) (arguments : List String) : Except Stop Request :=
  match name with
  | "synth" => withFile synth arguments
  | "inspect" => withFile inspect arguments
  | "known" => do
    let (seen, _) ← collect 0 [] [] arguments
    .ok (known (seen.contains .json))
  | "help" =>
    if arguments = [] ∨ arguments ∈ [["synth"], ["inspect"], ["known"], ["help"]] then
      .error .help
    else .error .usage
  | _ => .error .usage

/-- The command after the options of the program that are already written. -/
def ofArgumentsAfter (seen : List Flag) : List String → Except Stop Request
  | [] => .error .usage
  | argument :: rest =>
    match Word.ofArgument argument with
    | .flags written => do
      ofArgumentsAfter (← written.foldlM (addFlag [.verbose, .help, .version]) seen) rest
    | .operand name => ofCommand name rest
    | .terminator => .error .usage

/-- **What the arguments ask for.** -/
def ofArguments (arguments : List String) : Except Stop Request := ofArgumentsAfter [] arguments

/-- The file that must be read to answer a request. -/
def path? : Request → Option String
  | synth path _ => some path
  | inspect path _ => some path
  | known _ => none

end Request

end TorchLogic
