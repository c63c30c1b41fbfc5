import TorchLogic.Document.Toml
import TorchLogic.Text.Digits

/-!
# TOML numbers

Whole numbers have 64 bits and a sign; without a sign they may be written in base sixteen, eight or
two. Between two digits there may be an underscore. A whole part does not start with a needless
zero.

A number with a fraction or an exponent is legal as long as it does not round to positive infinity
among the binary fractions of 64 bits; its value is not kept.
-/

namespace TorchLogic.Toml

/-- Whether a character is a digit of a base. -/
def isDigitOf (base : Nat) (c : Char) : Bool := (Text.digit? base c).isSome

/-- Further digits, each of them perhaps after an underscore. -/
def moreDigits? (base : Nat) : List Char → Option (List Char × List Char)
  | [] => some ([], [])
  | ['_'] => none
  | '_' :: c :: rest =>
    if isDigitOf base c then
      (moreDigits? base rest).map fun (digits, rest) => (c :: digits, rest)
    else none
  | c :: rest =>
    if isDigitOf base c then
      (moreDigits? base rest).map fun (digits, rest) => (c :: digits, rest)
    else some ([], c :: rest)

/-- **Digits** at the front of a text, at least one. -/
def digits? (base : Nat) : List Char → Option (List Char × List Char)
  | [] => none
  | c :: rest =>
    if isDigitOf base c then
      (moreDigits? base rest).map fun (digits, rest) => (c :: digits, rest)
    else none

/-- The whole number with a sign and a magnitude, if it has at most 64 bits. -/
def whole? (negative : Bool) (magnitude : Nat) : Option Toml :=
  let n : Int := if negative then -(magnitude : Int) else magnitude
  if -9223372036854775808 ≤ n ∧ n < 9223372036854775808 then some (.integer n) else none

/-- The number in a base other than ten, after the mark of the base. -/
def based? (base : Nat) (cs : List Char) : Option (Toml × List Char) := do
  let (digits, rest) ← digits? base cs
  some (← whole? false (← Text.number? base digits), rest)

/-- The least number that rounds to infinity: half a step beyond the greatest binary fraction. -/
def infinite : Nat := (1 <<< 1024) - (1 <<< 970)

/-- **Whether digits, scaled by a power of ten, make a number that rounds to infinity.** Only among
the numbers of 309 places does it take more than counting the places. -/
def overflows (digits : List Char) (exponent : Int) : Bool :=
  let significant := digits.dropWhile (· == '0')
  let places := significant.length + exponent
  let n := Text.decimalValue significant
  -- The least number that rounds to infinity has 309 places.
  if significant.isEmpty || places < 309 then false
  else if 309 < places then true
  else if 0 ≤ exponent then infinite ≤ n * Nat.pow 10 exponent.toNat
  else infinite * Nat.pow 10 (-exponent).toNat ≤ n

/-- The exponent after its letter. -/
def exponent? (cs : List Char) : Option (Int × List Char) :=
  let signed (negative : Bool) (cs : List Char) : Option (Int × List Char) :=
    (digits? 10 cs).map fun (digits, rest) =>
      let n : Int := Text.decimalValue digits
      (if negative then -n else n, rest)
  match cs with
  | '+' :: rest => signed false rest
  | '-' :: rest => signed true rest
  | _ => signed false cs

/-- The number whose digits before the point have been read. -/
def afterWhole? (negative : Bool) (digits rest : List Char) : Option (Toml × List Char) :=
  let scaled (digits : List Char) (exponent : Int) (rest : List Char) :
      Option (Toml × List Char) :=
    if !negative && overflows digits exponent then none else some (.unreadable, rest)
  let isExponent (c : Char) : Bool := c == 'e' || c == 'E'
  match rest with
  | '.' :: more => do
    let (fraction, rest) ← digits? 10 more
    match rest with
    | c :: more =>
      if isExponent c then
        let (exponent, rest) ← exponent? more
        scaled (digits ++ fraction) (exponent - fraction.length) rest
      else scaled (digits ++ fraction) (-fraction.length) rest
    | [] => scaled (digits ++ fraction) (-fraction.length) []
  | c :: more =>
    if isExponent c then do
      let (exponent, rest) ← exponent? more
      scaled digits exponent rest
    else (whole? negative (Text.decimalValue digits)).map (·, rest)
  | [] => (whole? negative (Text.decimalValue digits)).map (·, [])

/-- A number in base ten, or infinity, or no number, after the sign. -/
def unsigned? (negative : Bool) : List Char → Option (Toml × List Char)
  | 'i' :: 'n' :: 'f' :: rest => some (.unreadable, rest)
  | 'n' :: 'a' :: 'n' :: rest => some (.unreadable, rest)
  | '0' :: rest => afterWhole? negative ['0'] rest
  | cs => (digits? 10 cs).bind fun (digits, rest) => afterWhole? negative digits rest

/-- **A number** at the front of a text. -/
def numeral? : List Char → Option (Toml × List Char)
  | '0' :: 'x' :: rest => based? 16 rest
  | '0' :: 'o' :: rest => based? 8 rest
  | '0' :: 'b' :: rest => based? 2 rest
  | '+' :: rest => unsigned? false rest
  | '-' :: rest => unsigned? true rest
  | cs => unsigned? false cs

end TorchLogic.Toml
