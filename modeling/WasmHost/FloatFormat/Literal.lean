import WasmHost.FloatFormat
import WasmHost.Text.Integer

/-!
# Decimal float literals

A literal is an optional sign, then either one of the words `inf`, `infinity` and `nan` in any
case, or digits with at most one point among or around them and an optional exponent. It is read
exactly and rounded once.
-/

namespace WasmHost.FloatFormat

/-- Why a text is no float literal. -/
inductive LiteralError where
  | empty
  | invalid
  deriving DecidableEq, Repr

/-- The wording of the error. -/
def LiteralError.message : LiteralError → String
  | empty => "cannot parse float from empty string"
  | invalid => "invalid float literal"

/-- The digits before and after the point, and the exponent. -/
structure Literal where
  whole : List Char
  fraction : List Char
  exponent : Int
  deriving Repr

/-- Exponents beyond this size decide the result by themselves. -/
def exponentCap : Nat := 65536

/-- An exponent mark, an optional sign and digits, to the end of the text. -/
def exponent? : List Char → Option Int
  | [] => some 0
  | c :: rest =>
    if c = 'e' ∨ c = 'E' then
      match rest with
      | '-' :: ds => (Text.natural? ds).map fun n => -(Nat.min n exponentCap : Nat)
      | '+' :: ds => (Text.natural? ds).map fun n => (Nat.min n exponentCap : Nat)
      | ds => (Text.natural? ds).map fun n => (Nat.min n exponentCap : Nat)
    else none

/-- Reads digits, point and exponent. At least one digit must stand beside the point. -/
def literal? (cs : List Char) : Option Literal :=
  let isDigit (c : Char) : Bool := (Text.digit? c).isSome
  let whole := cs.takeWhile isDigit
  let (fraction, rest) := match cs.dropWhile isDigit with
    | '.' :: after => (after.takeWhile isDigit, after.dropWhile isDigit)
    | other => ([], other)
  if whole.isEmpty && fraction.isEmpty then none
  else (exponent? rest).map fun e => ⟨whole, fraction, e⟩

variable (fmt : FloatFormat)

/-- The pattern, without sign, of a literal. A literal that is far beyond the format on either side
is decided by its leading place alone. -/
def roundLiteral (l : Literal) : Nat :=
  let digits := l.whole ++ l.fraction
  let significand := ((Text.digitsFrom? 0 digits).getD 0)
  let exponent := l.exponent - l.fraction.length
  let leading : Int := (Nat.toDigits 10 significand).length + exponent
  if significand = 0 then 0
  else if 400 < leading then fmt.infinityBits
  else if leading < -400 then 0
  else if 0 ≤ exponent then fmt.round (significand * Nat.pow 10 exponent.toNat) 1
  else fmt.round significand (Nat.pow 10 (-exponent).toNat)

/-- Reads the part of a literal after its sign. -/
def parseUnsigned (cs : List Char) : Except LiteralError Nat :=
  let word := String.ofList (cs.map Char.toLower)
  if word = "inf" ∨ word = "infinity" then .ok fmt.infinityBits
  else if word = "nan" then .ok (fmt.nanBits false)
  else match literal? cs with
    | some l => .ok (fmt.roundLiteral l)
    | none => .error .invalid

/-- Reads a literal. -/
def parse (text : String) : Except LiteralError Nat :=
  match text.toList with
  | [] => .error .empty
  | '-' :: cs => (fmt.parseUnsigned cs).map (fmt.withSign true)
  | '+' :: cs => fmt.parseUnsigned cs
  | cs => fmt.parseUnsigned cs

end WasmHost.FloatFormat
