import TorchLogic.Board.Synthesis
import TorchLogic.Document.Writing

/-!
# Reports

What is told about a truth table: as lines for a reader, and as the fields of a JSON object for a
program. The fields of an object are put in alphabetical order when it is made.

States are written as the digits 0 and 1. An empty list of states or sides is written as a hyphen,
so that no part of a line is missing.
-/

namespace TorchLogic

namespace Report

/-- Texts with a separator between them, or a hyphen if there are none. -/
def joined (separator : String) (parts : List String) : String :=
  if parts.isEmpty then "-" else separator.intercalate parts

def sides (sides : List Side) : String := joined ", " (sides.map Side.name)

def states (states : List Bool) : String :=
  joined " " (states.map fun on => if on then "1" else "0")

/-- **A row of a table**: the states of the inputs and those of the outputs. -/
def row (t : TruthTable) (n : Nat) : String :=
  states (TruthTable.assignment t.inputs.length n) ++ " -> " ++ states (t.outputsAt n)

def rows (t : TruthTable) : List String := (List.range t.rowCount).map (row t)

/-- The name and the texture of the gate that a table is. -/
def recognized (t : TruthTable) : String :=
  match t.gate? with
  | some g => g.id ++ " (" ++ g.texture ++ ")"
  | none => "no"

/-- **The lines on a table.** -/
def tableLines (t : TruthTable) : List String :=
  ["  Signature: " ++ t.signature,
   "  Recognized: " ++ recognized t,
   "  Inputs: " ++ sides t.inputs,
   "  Outputs: " ++ sides t.outputs,
   "  Rows:"] ++ (rows t).map ("    " ++ ·)

/-- **The fields on a table.** -/
def tableFields (t : TruthTable) : List (String × Json) :=
  [("cost", t.cost.json),
   ("known", .ofOption (t.gate?.map fun g => .text g.id)),
   ("message_key", .ofOption (t.gate?.map fun g => .text g.messageKey)),
   ("signature", .text t.signature),
   ("table", t.json),
   ("texture", .text t.texture)]

/-- The lines on the texture and the cost of a table. -/
def makingLines (t : TruthTable) : List String :=
  let c := t.cost
  ["  Texture: " ++ t.texture,
   "  Cost: " ++ toString c.terracotta ++ " terracotta, " ++ toString c.dust ++ " dust, "
     ++ toString c.torches ++ " torches"]

/-- A text with blanks after it to a given width. -/
def padded (width : Nat) (s : String) : String := s.pushn ' ' (width - s.length)

/-- The line on a gate of the catalogue. -/
def gateLine (g : Gate) : String :=
  "  " ++ padded 16 g.id ++ " " ++ padded 16 g.texture ++ " " ++ " | ".intercalate g.signatures

def gate (g : Gate) : Json :=
  .sorted [("id", .text g.id), ("texture", .text g.texture),
    ("message_key", .text g.messageKey), ("signatures", .listOf .text g.signatures)]

end Report

end TorchLogic
