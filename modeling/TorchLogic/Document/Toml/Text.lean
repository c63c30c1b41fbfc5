import TorchLogic.Document.Toml.Space
import TorchLogic.Text.Digits

/-!
# TOML texts and keys

A text stands between quotes. In double quotes, escapes are decoded; in single quotes, every
character stands for itself. Three quotes open and close a text of several lines: a line end right
after the opening quotes does not count, every other one counts as a line feed, and one or two
quotes may stand anywhere within, the end included. In three double quotes, a backslash at the end
of a line swallows all blanks and line ends up to the next character.

A key is a list of parts with full stops between them; each is a text of a single line in quotes, or
letters, digits, underscores and hyphens without quotes.
-/

namespace TorchLogic.Toml

/-- What a one-letter escape stands for. -/
def escape? : Char → Option Char
  | 'b' => some '\x08'
  | 't' => some '\t'
  | 'n' => some '\n'
  | 'f' => some '\x0c'
  | 'r' => some '\r'
  | '"' => some '"'
  | '\\' => some '\\'
  | _ => none

/-- The character with a number in hexadecimal digits, if it is the number of a character. -/
def codePoint? (digits : List Char) : Option Char :=
  (Text.hex? digits).bind fun n => if n.isValidChar then some (Char.ofNat n) else none

/-- A character in front of a text that is yet to be read. -/
def consText (c : Char) (tail : Option (List Char × List Char)) : Option (List Char × List Char) :=
  tail.map fun (tail, rest) => (c :: tail, rest)

/-- The characters of a text in double quotes, after the opening one, and what follows the closing
one. -/
def basicText? : List Char → Option (List Char × List Char)
  | [] => none
  | '"' :: rest => some ([], rest)
  | '\\' :: 'u' :: a :: b :: c :: d :: rest =>
    (codePoint? [a, b, c, d]).bind fun code => consText code (basicText? rest)
  | '\\' :: 'U' :: a :: b :: c :: d :: e :: f :: g :: h :: rest =>
    (codePoint? [a, b, c, d, e, f, g, h]).bind fun code => consText code (basicText? rest)
  | '\\' :: c :: rest => (escape? c).bind fun code => consText code (basicText? rest)
  | c :: rest => if isVisible c then consText c (basicText? rest) else none

/-- The characters of a text in single quotes, after the opening one, and what follows the closing
one. -/
def literalText? : List Char → Option (List Char × List Char)
  | [] => none
  | c :: rest =>
    if c = '\'' then some ([], rest)
    else if isVisible c then consText c (literalText? rest)
    else none

/-- **The characters of a text in three double quotes**, after the opening ones and a line end, and
what follows the closing ones. The flag says whether blanks and line ends are being swallowed. -/
def basicLines? : Bool → List Char → Option (List Char × List Char)
  | _, [] => none
  -- Of more than three quotes in a row, the last three close the text.
  | _, '"' :: '"' :: '"' :: '"' :: '"' :: rest => some (['"', '"'], rest)
  | _, '"' :: '"' :: '"' :: '"' :: rest => some (['"'], rest)
  | _, '"' :: '"' :: '"' :: rest => some ([], rest)
  | _, '\\' :: 'u' :: a :: b :: c :: d :: rest =>
    (codePoint? [a, b, c, d]).bind fun code => consText code (basicLines? false rest)
  | _, '\\' :: 'U' :: a :: b :: c :: d :: e :: f :: g :: h :: rest =>
    (codePoint? [a, b, c, d, e, f, g, h]).bind fun code => consText code (basicLines? false rest)
  | _, '\\' :: c :: rest =>
    match escape? c with
    | some code => consText code (basicLines? false rest)
    | none =>
      -- The backslash ends its line, blanks aside.
      if (lineBreak? (skipBlanks (c :: rest))).isSome then basicLines? true (c :: rest) else none
  | swallow, '\n' :: rest =>
    if swallow then basicLines? true rest else consText '\n' (basicLines? false rest)
  | swallow, '\r' :: '\n' :: rest =>
    if swallow then basicLines? true rest else consText '\n' (basicLines? false rest)
  | swallow, c :: rest =>
    if swallow && isBlank c then basicLines? true rest
    else if isVisible c then consText c (basicLines? false rest)
    else none

/-- The characters of a text in three single quotes, after the opening ones and a line end, and what
follows the closing ones. -/
def literalLines? : List Char → Option (List Char × List Char)
  | [] => none
  | '\'' :: '\'' :: '\'' :: '\'' :: '\'' :: rest => some (['\'', '\''], rest)
  | '\'' :: '\'' :: '\'' :: '\'' :: rest => some (['\''], rest)
  | '\'' :: '\'' :: '\'' :: rest => some ([], rest)
  | '\n' :: rest => consText '\n' (literalLines? rest)
  | '\r' :: '\n' :: rest => consText '\n' (literalLines? rest)
  | c :: rest => if isVisible c then consText c (literalLines? rest) else none

/-- A text without the line end at its front. -/
def skipBreak (cs : List Char) : List Char := (lineBreak? cs).getD cs

/-- **A text in quotes of any kind** at the front of a text. -/
def quoted? (cs : List Char) : Option (String × List Char) :=
  let characters? :=
    match cs with
    | '"' :: '"' :: '"' :: rest => basicLines? false (skipBreak rest)
    | '\'' :: '\'' :: '\'' :: rest => literalLines? (skipBreak rest)
    | '"' :: rest => basicText? rest
    | '\'' :: rest => literalText? rest
    | _ => none
  characters?.map fun (characters, rest) => (String.ofList characters, rest)

/-- Whether a character may stand in a key without quotes. -/
def isBare (c : Char) : Bool := c.isAlphanum || c == '_' || c == '-'

/-- A part of a key. -/
def part? (cs : List Char) : Option (String × List Char) :=
  match cs with
  | '"' :: rest => (basicText? rest).map fun (characters, rest) => (String.ofList characters, rest)
  | '\'' :: rest =>
    (literalText? rest).map fun (characters, rest) => (String.ofList characters, rest)
  | _ =>
    let bare := cs.takeWhile isBare
    if bare.isEmpty then none else some (String.ofList bare, cs.dropWhile isBare)

/-- The parts of a key of at most `limit` parts, and what follows it and its blanks. -/
def parts? : Nat → List Char → Option (List String × List Char)
  | 0, _ => none
  | limit + 1, cs =>
    match part? (skipBlanks cs) with
    | none => none
    | some (part, rest) =>
      match skipBlanks rest with
      | '.' :: rest => (parts? limit rest).map fun (parts, rest) => (part :: parts, rest)
      | rest => some ([part], rest)

/-- The most levels to which a document may nest, whether by the parts of a key or by brackets and
braces. -/
def depthLimit : Nat := 79

/-- **A key** at the front of a text, and what follows it and its blanks. -/
def key? (cs : List Char) : Option (List String × List Char) := parts? depthLimit cs

end TorchLogic.Toml
