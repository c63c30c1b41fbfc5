import TorchLogic.Document.Json

/-!
# Writing JSON

Two ways to write a value: on one line without blanks (`Json.compact`), and spread over lines with
two spaces for each level (`Json.pretty`). An empty list or object stays on its line either way.

Only the quote, the backslash and the characters below the space are escaped in a text; those
without a letter of their own are written with four lower-case hexadecimal digits.
-/

namespace TorchLogic.Json

/-- A hexadecimal digit in lower case. -/
def hexDigit (n : Nat) : Char := Nat.digitChar n

/-- One character of a text, escaped if need be. -/
def escape (c : Char) : String :=
  match c with
  | '"' => "\\\""
  | '\\' => "\\\\"
  | '\x08' => "\\b"
  | '\x0c' => "\\f"
  | '\n' => "\\n"
  | '\r' => "\\r"
  | '\t' => "\\t"
  | c =>
    if c.toNat < 0x20 then
      "\\u00" ++ String.ofList [hexDigit (c.toNat / 16), hexDigit (c.toNat % 16)]
    else String.singleton c

/-- A text in quotes. -/
def quote (s : String) : String := "\"" ++ String.join (s.toList.map escape) ++ "\""

mutual

/-- **A value on one line**, without blanks. -/
def compact : Json → String
  | null => "null"
  | boolean b => if b then "true" else "false"
  | integer n => toString n
  | decimal written => written
  | text s => quote s
  | list items => "[" ++ ",".intercalate (compactItems items) ++ "]"
  | object fields => "\x7b" ++ ",".intercalate (compactFields fields) ++ "\x7d"
  | unreadable => "null"

/-- Each item of a list on one line. -/
def compactItems : List Json → List String
  | [] => []
  | item :: rest => compact item :: compactItems rest

/-- Each field of an object on one line. -/
def compactFields : List (String × Json) → List String
  | [] => []
  | (name, value) :: rest => (quote name ++ ":" ++ compact value) :: compactFields rest

end

/-- The blanks at the start of a line. -/
def indent (level : Nat) : String := "".pushn ' ' (2 * level)

/-- The lines of a bracketed value whose entries are written already. -/
def block (level : Nat) (opening closing : String) (entries : List String) : String :=
  if entries.isEmpty then opening ++ closing
  else
    opening ++ "\n" ++ ",\n".intercalate (entries.map (indent (level + 1) ++ ·)) ++ "\n"
      ++ indent level ++ closing

mutual

/-- A value over several lines, starting at a level of nesting. -/
def prettyAt (level : Nat) : Json → String
  | null => "null"
  | boolean b => if b then "true" else "false"
  | integer n => toString n
  | decimal written => written
  | text s => quote s
  | list items => block level "[" "]" (prettyItems (level + 1) items)
  | object fields => block level "\x7b" "\x7d" (prettyFields (level + 1) fields)
  | unreadable => "null"

/-- Each item of a list over several lines. -/
def prettyItems (level : Nat) : List Json → List String
  | [] => []
  | item :: rest => prettyAt level item :: prettyItems level rest

/-- Each field of an object over several lines. -/
def prettyFields (level : Nat) : List (String × Json) → List String
  | [] => []
  | (name, value) :: rest =>
    (quote name ++ ": " ++ prettyAt level value) :: prettyFields level rest

end

/-- **A value over several lines**, two spaces a level. -/
def pretty (v : Json) : String := prettyAt 0 v

end TorchLogic.Json
