import TorchLogic.Text.Hidden

/-!
# Character literals

A character as it is shown in a message: between single quotes, with the quote, the backslash, the
null character, the tab, the carriage return and the line feed escaped by a letter, and every other
character that does not show by itself written as its code point in hexadecimal digits.
-/

namespace TorchLogic.Text

/-- A number in lower-case hexadecimal digits. -/
def hexadecimal (n : Nat) : String := String.ofList (Nat.toDigits 16 n)

/-- A character as it stands between the quotes. -/
def escapeChar (c : Char) : String :=
  match c with
  | '\x00' => "\\0"
  | '\t' => "\\t"
  | '\r' => "\\r"
  | '\n' => "\\n"
  | '\'' => "\\'"
  | '\\' => "\\\\"
  | c =>
    if isHidden c then "\\u\x7b" ++ hexadecimal c.toNat ++ "\x7d" else String.singleton c

/-- **A character between quotes.** -/
def charLiteral (c : Char) : String := "'" ++ escapeChar c ++ "'"

end TorchLogic.Text
