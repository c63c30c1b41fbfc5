import TorchLogic.Text.Digits

/-!
# JSON tokens

JSON text cut into tokens: the six marks, the three words, numbers and texts. Blanks between tokens
are spaces, tabs, line feeds and carriage returns.

Escapes are decoded here. A pair of surrogate escapes makes one character; a surrogate escape
without its partner leaves the token without a text, and it is for the reader of the token to mind.
-/

namespace TorchLogic.Json

/-- **A token of JSON text.** -/
inductive Token
  /-- One of the marks of structure: brackets, braces, colon and comma. -/
  | mark (c : Char)
  | null
  | boolean (value : Bool)
  | integer (value : Int)
  /-- A number that is not written as a whole number. -/
  | decimal (written : String)
  /-- A text, unless an unpaired surrogate escape occurs in it. -/
  | text (value : Option String)
  deriving DecidableEq

namespace Token

/-- What a one-letter escape stands for. -/
def escape? : Char → Option Char
  | '"' => some '"'
  | '\\' => some '\\'
  | '/' => some '/'
  | 'b' => some '\x08'
  | 'f' => some '\x0c'
  | 'n' => some '\n'
  | 'r' => some '\r'
  | 't' => some '\t'
  | _ => none

/-- **A piece of a text**: a character that stands for itself or is escaped by a letter, or the
number of an escape with four digits. -/
inductive Piece
  | char (c : Char)
  | code (n : Nat)
  deriving DecidableEq

/-- Whether a number is the first half of a surrogate pair. -/
def isHigh (n : Nat) : Bool := 0xD800 ≤ n && n ≤ 0xDBFF

/-- Whether a number is the second half of a surrogate pair. -/
def isLow (n : Nat) : Bool := 0xDC00 ≤ n && n ≤ 0xDFFF

/-- **The characters of a list of pieces**; surrogates count in pairs only. -/
def characters? : List Piece → Option (List Char)
  | [] => some []
  | .char c :: rest => (characters? rest).map (c :: ·)
  | .code high :: .code low :: rest =>
    if isHigh high then
      if isLow low then
        let n := 0x10000 + (high - 0xD800) * 0x400 + (low - 0xDC00)
        (characters? rest).map (Char.ofNat n :: ·)
      else none
    else if isLow high then none
    else (characters? (.code low :: rest)).map (Char.ofNat high :: ·)
  | .code n :: rest =>
    if isHigh n || isLow n then none else (characters? rest).map (Char.ofNat n :: ·)

/-- **The pieces of a text** after its opening quote, up to and past the closing one. -/
def pieces? : List Char → Option (List Piece × List Char)
  | [] => none
  | '"' :: rest => some ([], rest)
  | '\\' :: 'u' :: a :: b :: c :: d :: rest => do
    let n ← Text.hex? [a, b, c, d]
    let (pieces, rest) ← pieces? rest
    some (.code n :: pieces, rest)
  | '\\' :: c :: rest => do
    let e ← escape? c
    let (pieces, rest) ← pieces? rest
    some (.char e :: pieces, rest)
  | c :: rest =>
    if c.toNat < 0x20 then none
    else do
      let (pieces, rest) ← pieces? rest
      some (.char c :: pieces, rest)

/-- The fraction of a number, if one is written; a point without digits is refused. -/
def fraction? (cs : List Char) : Option (List Char × List Char) :=
  match cs with
  | '.' :: rest =>
    let digits := rest.takeWhile Char.isDigit
    if digits.isEmpty then none else some ('.' :: digits, rest.dropWhile Char.isDigit)
  | _ => some ([], cs)

/-- The digits of an exponent after its letter and sign, which are given. -/
def exponentDigits? (lead rest : List Char) : Option (List Char × List Char) :=
  let digits := rest.takeWhile Char.isDigit
  if digits.isEmpty then none else some (lead ++ digits, rest.dropWhile Char.isDigit)

/-- The exponent of a number, if one is written; a letter without digits is refused. -/
def exponent? (cs : List Char) : Option (List Char × List Char) :=
  match cs with
  | e :: s :: rest =>
    if e = 'e' ∨ e = 'E' then
      if s = '+' ∨ s = '-' then exponentDigits? [e, s] rest else exponentDigits? [e] (s :: rest)
    else some ([], cs)
  | [e] => if e = 'e' ∨ e = 'E' then none else some ([], cs)
  | [] => some ([], cs)

/-- The digits before the point: a lone zero, or digits that do not start with one. -/
def wholeDigits? (cs : List Char) : Option (List Char × List Char) :=
  match cs with
  | '0' :: rest => some (['0'], rest)
  | _ =>
    let digits := cs.takeWhile Char.isDigit
    if digits.isEmpty then none else some (digits, cs.dropWhile Char.isDigit)

/-- A number after its sign. A negative zero does not count as a whole number. -/
def number? (negative : Bool) (cs : List Char) : Option (Token × List Char) := do
  let (whole, rest) ← wholeDigits? cs
  let (fraction, rest) ← fraction? rest
  let (exponent, rest) ← exponent? rest
  let value := Text.decimalValue whole
  if fraction.isEmpty && exponent.isEmpty && !(negative && value == 0) then
    some (.integer (if negative then -(value : Int) else value), rest)
  else
    let sign := if negative then ['-'] else []
    some (.decimal (String.ofList (sign ++ whole ++ fraction ++ exponent)), rest)

/-- The token at the start of a text that does not start with a blank. -/
def next? : List Char → Option (Token × List Char)
  | 'n' :: 'u' :: 'l' :: 'l' :: rest => some (.null, rest)
  | 't' :: 'r' :: 'u' :: 'e' :: rest => some (.boolean true, rest)
  | 'f' :: 'a' :: 'l' :: 's' :: 'e' :: rest => some (.boolean false, rest)
  | '"' :: rest => do
    let (pieces, rest) ← pieces? rest
    some (.text ((characters? pieces).map String.ofList), rest)
  | '-' :: rest => number? true rest
  | c :: rest =>
    if "[]\x7b\x7d:,".toList.contains c then some (.mark c, rest)
    else if c.isDigit then number? false (c :: rest)
    else none
  | [] => none

/-- Whether a character may stand between tokens. -/
def isBlank (c : Char) : Bool := c == ' ' || c == '\t' || c == '\n' || c == '\r'

/-- At most `fuel` tokens of a text; every token takes at least one character. -/
def scan (fuel : Nat) (cs : List Char) : Option (List Token) :=
  match cs.dropWhile isBlank with
  | [] => some []
  | rest =>
    match fuel with
    | 0 => none
    | fuel + 1 => do
      let (token, rest) ← next? rest
      let tokens ← scan fuel rest
      some (token :: tokens)

end Token

/-- **The tokens of a text**, if it can be cut into tokens. -/
def tokens? (s : String) : Option (List Token) := Token.scan s.length s.toList

end TorchLogic.Json
