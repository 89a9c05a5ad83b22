/-!
# Binary floating point formats

A format is given by its precision and the width of its exponent field. A bit pattern of the format
is a sign, and a magnitude that is either a dyadic number `m * 2 ^ e`, or infinite, or no number.
`round` takes an exact positive ratio to the nearest pattern, ties to the even one; all arithmetic
here computes exactly first and rounds once.
-/

namespace WasmHost

/-- A binary interchange format. -/
structure FloatFormat where
  /-- Bits of a significand, the leading one included. -/
  precision : Nat
  /-- Bits of the exponent field. -/
  exponentBits : Nat
  deriving DecidableEq, Repr

namespace FloatFormat

/-- The 32-bit format. -/
def single : FloatFormat := ⟨24, 8⟩

/-- The 64-bit format. -/
def double : FloatFormat := ⟨53, 11⟩

variable (fmt : FloatFormat)

/-- Bits of a pattern. -/
def width : Nat := fmt.precision + fmt.exponentBits

/-- The exponent of the last place of the smallest numbers. -/
def minExponent : Int := 3 - (Nat.pow 2 (fmt.exponentBits - 1) : Nat) - fmt.precision

/-- The exponent field of infinities and of patterns that are no number. -/
def topField : Nat := Nat.pow 2 fmt.exponentBits - 1

/-- The pattern without its sign of an infinity. -/
def infinityBits : Nat := fmt.topField * Nat.pow 2 (fmt.precision - 1)

/-- The bit that tells a quiet pattern from a signalling one. -/
def quietBit : Nat := Nat.pow 2 (fmt.precision - 2)

/-- The sign bit. -/
def signBit : Nat := Nat.pow 2 (fmt.width - 1)

/-- The pattern for a computation with no meaningful result, of a given sign. -/
def nanBits (negative : Bool) : Nat :=
  fmt.infinityBits + fmt.quietBit + (if negative then fmt.signBit else 0)

/-- The magnitude that a pattern stands for. -/
inductive Magnitude where
  /-- The number `significand * 2 ^ exponent`. -/
  | finite (significand : Nat) (exponent : Int)
  | infinite
  | notANumber
  deriving DecidableEq, Repr

/-- The pattern has its sign bit set. -/
def isNegative (bits : Nat) : Bool := fmt.signBit ≤ bits % Nat.pow 2 fmt.width

/-- The magnitude of a pattern. -/
def magnitude (bits : Nat) : Magnitude :=
  let body := bits % fmt.signBit
  let field := body / Nat.pow 2 (fmt.precision - 1)
  let fraction := body % Nat.pow 2 (fmt.precision - 1)
  if field = fmt.topField then if fraction = 0 then .infinite else .notANumber
  else if field = 0 then .finite fraction fmt.minExponent
  else .finite (fraction + Nat.pow 2 (fmt.precision - 1)) (fmt.minExponent + (field - 1 : Nat))

/-- The pattern is no number. -/
def isNaN (bits : Nat) : Bool := fmt.magnitude bits == .notANumber

/-- A pattern with a sign put before it. -/
def withSign (negative : Bool) (body : Nat) : Nat :=
  if negative then fmt.signBit + body else body

/-- The integer nearest to a ratio, a tie going to the even one. -/
def nearestEven (num den : Nat) : Nat :=
  let q := num / den
  let r := num % den
  if 2 * r < den then q
  else if den < 2 * r then q + 1
  else if q % 2 = 0 then q else q + 1

/-- `num / den` scaled by `2 ^ (-e)`, as a ratio of naturals. -/
def scaleRatio (num den : Nat) (e : Int) : Nat × Nat :=
  if 0 ≤ e then (num, den * Nat.pow 2 e.toNat) else (num * Nat.pow 2 (-e).toNat, den)

/-- The exponent of the last place of the significand that a positive ratio rounds to, before any
carry. -/
def placeExponent (num den : Nat) : Int :=
  let guess : Int := (num.log2 : Int) - (den.log2 : Int) - (fmt.precision - 1 : Nat)
  -- The quotient of the leading powers of two is at most one place too high.
  let (n, d) := scaleRatio num den guess
  let exact := if n < d * Nat.pow 2 (fmt.precision - 1) then guess - 1 else guess
  max exact fmt.minExponent

/-- The pattern, without sign, nearest to a ratio of naturals; ties go to the even pattern, and
what is beyond the greatest number becomes infinite. -/
def round (num den : Nat) : Nat :=
  if num = 0 then 0
  else
    let e := fmt.placeExponent num den
    let (n, d) := scaleRatio num den e
    let m := nearestEven n d
    -- A pattern is one number: a carry out of the significand moves into the exponent field.
    let body := (e - fmt.minExponent).toNat * Nat.pow 2 (fmt.precision - 1) + m
    min body fmt.infinityBits

/-- The pattern, without sign, nearest to `m * 2 ^ e`. -/
def roundDyadic (m : Nat) (e : Int) : Nat :=
  if 0 ≤ e then fmt.round (m * Nat.pow 2 e.toNat) 1 else fmt.round m (Nat.pow 2 (-e).toNat)

end FloatFormat

end WasmHost
