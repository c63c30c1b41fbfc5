import TorchLogic.Command.Request
import TorchLogic.Document.Json.Printer
import TorchLogic.Layout.File
import TorchLogic.Layout.World
import TorchLogic.Report

/-!
# Outcomes

What the program does when it is run: the exit code and the texts on the two streams, given the
arguments and the content of the file that they name. The code is zero for an answer, one for a file
that has none, and two for wrong arguments.

A board with feedback has no table, and to say so is an answer.
-/

namespace TorchLogic

/-- **What a run of the program shows.** -/
structure Outcome where
  code : Nat
  stdout : String
  stderr : String
  deriving DecidableEq

namespace Outcome

/-- An answer of several lines. -/
def lines (lines : List String) : Outcome := ⟨0, String.join (lines.map (· ++ "\n")), ""⟩

/-- An answer for a program. -/
def json (fields : List (String × Json)) : Outcome := lines [(Json.sorted fields).pretty]

/-- A fault with what the file says. -/
def fault (message : String) : Outcome := ⟨1, "", "error: " ++ message ++ "\n"⟩

def usage : String :=
  "Usage: breadboard [-v] (synth <LAYOUT> | inspect <TABLE> | known) [--json]\n"

/-- The outcome when no command is carried out. -/
def stopped : Stop → Outcome
  | .usage => ⟨2, "", usage⟩
  | .help => ⟨0, usage, ""⟩
  | .version => lines ["breadboard 0.1.0"]

/-- **The answer on the table of the board of a layout file**, whose path is given, or on the board
having none. -/
def onBoard (path : String) (json? : Bool) (l : Layout) : Option TruthTable → Outcome
  | some t =>
    if json? then
      json (Report.tableFields t
        ++ [("layout", .text path), ("origin", l.origin.json), ("cyclic", .boolean false)])
    else
      lines (["breadboard synth " ++ path, "  Board: " ++ l.origin.render, "  Cyclic: no"]
        ++ Report.tableLines t)
  | none =>
    if json? then
      json [("layout", .text path), ("origin", l.origin.json), ("cyclic", .boolean true),
        ("message_key", .text SynthesisError.cyclic.messageKey)]
    else lines ["breadboard synth " ++ path, "  Board: " ++ l.origin.render, "  Cyclic: yes"]

/-- The outcome for a layout file with the given content, which is absent if the file cannot be
read. -/
def ofLayoutFile (path : String) (json? : Bool) (content : Option String) : Outcome :=
  match content with
  | none => fault ("failed to load layout " ++ path ++ ": the file cannot be read")
  | some s =>
    match Layout.ofText (.ofPath path) s with
    | .error e => fault ("failed to load layout " ++ path ++ ": " ++ e.message)
    | .ok l =>
      match l.world with
      | .error e => fault ("invalid layout " ++ path ++ ": " ++ e.message)
      | .ok w =>
        match synthesize w l.origin with
        | .ok t => onBoard path json? l (some t)
        | .error .cyclic => onBoard path json? l none
        | .error e => fault (e.message ++ " [" ++ e.messageKey ++ "]")

/-- **The answer on the table of a file**, whose path is given. -/
def onTable (path : String) (json? : Bool) (t : TruthTable) : Outcome :=
  if json? then json (Report.tableFields t ++ [("path", .text path)])
  else lines (["breadboard inspect " ++ path] ++ Report.tableLines t ++ Report.makingLines t)

/-- The outcome for a table file with the given content, which is absent if the file cannot be
read. -/
def ofTableFile (path : String) (json? : Bool) (content : Option String) : Outcome :=
  match content with
  | none => fault ("failed to read " ++ path ++ ": the file cannot be read")
  | some s =>
    match (Json.parse? s).bind Datum.record? with
    | none => fault ("invalid truth table in " ++ path ++ ": the file holds no record of a table")
    | some record =>
      match record.table with
      | .error e => fault ("invalid truth table in " ++ path ++ ": " ++ e.message)
      | .ok t => onTable path json? t

/-- **The answer on the catalogue.** -/
def onCatalogue (json? : Bool) : Outcome :=
  let gates := Gate.catalogue
  if json? then
    json [("count", .natural gates.length), ("circuits", .listOf Report.gate gates)]
  else
    lines (["breadboard known (" ++ toString gates.length ++ " circuits)"]
      ++ gates.map Report.gateLine)

/-- **The outcome of a request**, given the content of its file. -/
def ofRequest (content : Option String) : Request → Outcome
  | .synth path json? => ofLayoutFile path json? content
  | .inspect path json? => ofTableFile path json? content
  | .known json? => onCatalogue json?

end Outcome

end TorchLogic
