import TorchLogic.Document.Json
import TorchLogic.Document.Json.Token

/-!
# Reading JSON

The grammar of JSON over tokens. A value is read from the front of a list of tokens and the rest is
handed back; a whole text holds one value and nothing after it (`Json.parse?`).

Every step takes a token, so as many steps as there are tokens are enough, however deep the values
are nested.
-/

namespace TorchLogic.Json

/-- The object with the given fields, unless a name is no text. -/
def ofFields (fields : List (Option String × Json)) : Json :=
  match fields.mapM fun (name, value) => name.map (·, value) with
  | some named => object named
  | none => unreadable

mutual

/-- A value at the front of a list of tokens. -/
def value? : Nat → List Token → Option (Json × List Token)
  | 0, _ => none
  | fuel + 1, tokens =>
    match tokens with
    | .null :: rest => some (null, rest)
    | .boolean b :: rest => some (boolean b, rest)
    | .integer n :: rest => some (integer n, rest)
    | .decimal s :: rest => some (decimal s, rest)
    | .text (some s) :: rest => some (text s, rest)
    | .text none :: rest => some (unreadable, rest)
    | .mark '[' :: .mark ']' :: rest => some (list [], rest)
    | .mark '[' :: rest => (items? fuel rest).map fun (items, rest) => (list items, rest)
    | .mark '\x7b' :: .mark '\x7d' :: rest => some (object [], rest)
    | .mark '\x7b' :: rest => (fields? fuel rest).map fun (fields, rest) => (ofFields fields, rest)
    | _ => none

/-- The items of a list, up to and past the closing bracket. -/
def items? : Nat → List Token → Option (List Json × List Token)
  | 0, _ => none
  | fuel + 1, tokens =>
    match value? fuel tokens with
    | some (item, .mark ']' :: rest) => some ([item], rest)
    | some (item, .mark ',' :: rest) =>
      (items? fuel rest).map fun (items, rest) => (item :: items, rest)
    | _ => none

/-- The fields of an object, up to and past the closing brace. -/
def fields? : Nat → List Token → Option (List (Option String × Json) × List Token)
  | 0, _ => none
  | fuel + 1, tokens =>
    match tokens with
    | .text name :: .mark ':' :: rest =>
      match value? fuel rest with
      | some (value, .mark '\x7d' :: rest) => some ([(name, value)], rest)
      | some (value, .mark ',' :: rest) =>
        (fields? fuel rest).map fun (fields, rest) => ((name, value) :: fields, rest)
      | _ => none
    | _ => none

end

/-- **The value that a text writes**, if it writes exactly one. -/
def parse? (s : String) : Option Json := do
  let tokens ← tokens? s
  match value? (tokens.length + 1) tokens with
  | some (value, []) => some value
  | _ => none

end TorchLogic.Json
