/-!
# TOML blanks and comments

What may stand between the parts of a TOML document. Blanks are spaces and tabs. A line ends with a
line feed, with or without a carriage return before it, or with the document; a carriage return
alone ends nothing. A comment goes from a number sign to the end of its line and holds no control
characters except tabs.
-/

namespace TorchLogic.Toml

/-- Whether a character is a blank within a line. -/
def isBlank (c : Char) : Bool := c == ' ' || c == '\t'

/-- Whether a character may stand in a line: every character but the control characters of ASCII, of
which only the tab may. -/
def isVisible (c : Char) : Bool := c == '\t' || (0x20 ≤ c.toNat && c.toNat != 0x7F)

/-- A text without the blanks at its front. -/
def skipBlanks (cs : List Char) : List Char := cs.dropWhile isBlank

/-- The rest of a text that starts with the end of a line. -/
def lineBreak? : List Char → Option (List Char)
  | '\n' :: rest => some rest
  | '\r' :: '\n' :: rest => some rest
  | _ => none

/-- A text without the comment at its front. -/
def skipComment : List Char → List Char
  | '#' :: rest => rest.dropWhile isVisible
  | cs => cs

/-- **The next line**, if nothing but blanks and a comment is left of this one. -/
def lineEnd? (cs : List Char) : Option (List Char) :=
  match skipComment (skipBlanks cs) with
  | [] => some []
  | rest => lineBreak? rest

/-- **A text without the blanks, line ends and comments at its front**; the flag says whether the
text starts within a comment. -/
def skipGap : Bool → List Char → List Char
  | _, [] => []
  | _, '\n' :: rest => skipGap false rest
  | _, '\r' :: '\n' :: rest => skipGap false rest
  | true, c :: rest => if isVisible c then skipGap true rest else c :: rest
  | false, c :: rest =>
    if isBlank c then skipGap false rest
    else if c = '#' then skipGap true rest
    else c :: rest

end TorchLogic.Toml
