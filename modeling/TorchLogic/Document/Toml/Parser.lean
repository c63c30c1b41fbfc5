import TorchLogic.Document.Toml.Moment
import TorchLogic.Document.Toml.Number
import TorchLogic.Document.Toml.Statement
import TorchLogic.Document.Toml.Text

/-!
# Reading TOML

The grammar of TOML over characters. Each reader takes what it reads from the front of a text and
hands back the rest; a whole text is a list of lines (`Toml.parse?`).

Lists and tables in braces nest, at most `Toml.depthLimit` deep, and a list may go over many lines
while a table in braces may not. At least every second step takes a character, which bounds the
number of steps.
-/

namespace TorchLogic.Toml

/-- A value without parts at the front of a text. -/
def scalar? (cs : List Char) : Option (Toml × List Char) :=
  match cs with
  | 't' :: 'r' :: 'u' :: 'e' :: rest => some (.boolean true, rest)
  | 'f' :: 'a' :: 'l' :: 's' :: 'e' :: rest => some (.boolean false, rest)
  | _ =>
    match quoted? cs with
    | some (characters, rest) => some (.text characters, rest)
    | none =>
      match moment? cs with
      | some after => after.map fun rest => (.unreadable, rest)
      | none => numeral? cs

mutual

/-- **A value** at the front of a text, within which brackets and braces may nest `depth` deep. -/
def value? : Nat → Nat → List Char → Option (Toml × List Char)
  | 0, _, _ => none
  | fuel + 1, depth, cs =>
    match cs, depth with
    | '[' :: rest, depth + 1 =>
      (items? fuel depth rest).map fun (items, rest) => (.list items, rest)
    | '\x7b' :: rest, depth + 1 =>
      match skipBlanks rest with
      | '\x7d' :: rest => some (.table .inline [], rest)
      | rest =>
        (entries? fuel depth rest).bind fun (entries, rest) => (ofEntries? entries).map (·, rest)
    | _, _ => scalar? cs

/-- The items of a list, up to and past the closing bracket. -/
def items? : Nat → Nat → List Char → Option (List Toml × List Char)
  | 0, _, _ => none
  | fuel + 1, depth, cs =>
    match skipGap false cs with
    | ']' :: rest => some ([], rest)
    | cs =>
      match value? fuel depth cs with
      | none => none
      | some (item, rest) =>
        match skipGap false rest with
        | ']' :: rest => some ([item], rest)
        | ',' :: rest => (items? fuel depth rest).map fun (items, rest) => (item :: items, rest)
        | _ => none

/-- The entries of a table in braces, of which there is at least one, up to and past the closing
brace. -/
def entries? : Nat → Nat → List Char → Option (List (List String × Toml) × List Char)
  | 0, _, _ => none
  | fuel + 1, depth, cs =>
    match key? cs with
    | some (path, '=' :: rest) =>
      match value? fuel depth (skipBlanks rest) with
      | none => none
      | some (value, rest) =>
        match skipBlanks rest with
        | '\x7d' :: rest => some ([(path, value)], rest)
        | ',' :: rest =>
          (entries? fuel depth rest).map fun (entries, rest) => ((path, value) :: entries, rest)
        | _ => none
    | _ => none

end

/-- The statement that a header makes of the path between its brackets. -/
def header? (make : List String → String → Statement) (path : List String) : Option Statement :=
  path.getLast?.map (make path.dropLast)

/-- **A statement** at the front of a text that starts with neither a blank nor a comment, and the
lines after it. -/
def statement? (cs : List Char) : Option (Statement × List Char) :=
  match cs with
  | '[' :: '[' :: rest =>
    match key? rest with
    | some (path, ']' :: ']' :: rest) => do some (← header? .row path, ← lineEnd? rest)
    | _ => none
  | '[' :: rest =>
    match key? rest with
    | some (path, ']' :: rest) => do some (← header? .header path, ← lineEnd? rest)
    | _ => none
  | _ =>
    match key? cs with
    | some (path, '=' :: rest) => do
      let (value, rest) ← value? (2 * cs.length + 1) depthLimit (skipBlanks rest)
      some (.entry path value, ← lineEnd? rest)
    | _ => none

/-- The statements of a text of at most `fuel` of them; every one takes at least one character. -/
def statements? (fuel : Nat) (cs : List Char) : Option (List Statement) :=
  match skipGap false cs with
  | [] => some []
  | cs =>
    match fuel with
    | 0 => none
    | fuel + 1 => do
      let (statement, rest) ← statement? cs
      some (statement :: (← statements? fuel rest))

/-- **The table that a text writes**; a byte order mark may stand at its front. -/
def parse? (s : String) : Option Toml :=
  let cs :=
    match s.toList with
    | '\ufeff' :: rest => rest
    | cs => cs
  (statements? s.length cs).bind ofStatements?

end TorchLogic.Toml
