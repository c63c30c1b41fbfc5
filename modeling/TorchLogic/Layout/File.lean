import TorchLogic.Document.Json.Parser
import TorchLogic.Document.Reading
import TorchLogic.Document.Toml.Parser

/-!
# Layout files

A layout is kept in a file of one of two formats, and the name of the file tells which: TOML if its
extension is exactly `toml`, and JSON otherwise.
-/

namespace TorchLogic.Layout

/-- The layout that a text writes in a format, if it writes one. -/
def ofText? (format : Format) (s : String) : Option Layout :=
  match format with
  | .json => (Json.parse? s).bind Datum.layout?
  | .toml => (Toml.parse? s).bind Datum.layout?

/-- **The layout that a text writes in a format**, or the fault that it writes none. -/
def ofText (format : Format) (s : String) : Except LayoutError Layout :=
  match ofText? format s with
  | some l => .ok l
  | none => .error (.malformed format)

/-- The name of the file at a path: what follows the last slash. -/
def fileName (path : List Char) : List Char :=
  (path.reverse.takeWhile (· != '/')).reverse

/-- The extension of a file: what follows the last full stop of its name, which must not be the
first character of the name. -/
def extension? (path : String) : Option (List Char) :=
  let reversed := (fileName path.toList).reverse
  let extension := reversed.takeWhile (· != '.')
  match reversed.dropWhile (· != '.') with
  | _ :: _ :: _ => some extension.reverse
  | _ => none

/-- **The format of the layout file at a path.** -/
def Format.ofPath (path : String) : Format :=
  if extension? path = some "toml".toList then .toml else .json

end TorchLogic.Layout
