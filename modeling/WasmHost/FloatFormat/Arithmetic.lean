import WasmHost.FloatFormat

/-!
# Float arithmetic on bit patterns

Each operation computes an exact result and rounds it once. An operand that is no number makes the
result no number: the first such operand, made quiet. An operation that has no meaningful result
on numbers gives the negative quiet pattern.
-/

namespace WasmHost.FloatFormat

variable (fmt : FloatFormat)

/-- A pattern that is no number, made quiet. -/
def quiet (bits : Nat) : Nat := bits ||| fmt.quietBit

/-- The result of an operation on patterns of which some may be no number. -/
def propagate (a b : Nat) (numbers : Unit → Nat) : Nat :=
  if fmt.isNaN a then fmt.quiet a
  else if fmt.isNaN b then fmt.quiet b
  else numbers ()

/-- What an operation without a meaningful result gives. -/
def invalidResult : Nat := fmt.nanBits true

/-- The sign bit flipped. -/
def neg (a : Nat) : Nat := a ^^^ fmt.signBit

/-- The sign bit cleared. -/
def abs (a : Nat) : Nat := a % fmt.signBit

/-- The magnitude of the first with the sign of the second. -/
def copySign (a b : Nat) : Nat := fmt.withSign (fmt.isNegative b) (fmt.abs a)

/-- A signed dyadic number as an integer over `2 ^ e`, for an `e` no greater than its own. -/
def alignTo (e : Int) (negative : Bool) (m : Nat) (own : Int) : Int :=
  let scaled : Int := (m * Nat.pow 2 (own - e).toNat : Nat)
  if negative then -scaled else scaled

/-- Addition. A sum of zero is positive unless both operands are negative. -/
def add (a b : Nat) : Nat :=
  fmt.propagate a b fun _ =>
    let na := fmt.isNegative a
    let nb := fmt.isNegative b
    match fmt.magnitude a, fmt.magnitude b with
    | .infinite, .infinite => if na = nb then a else fmt.invalidResult
    | .infinite, _ => a
    | _, .infinite => b
    | .finite ma ea, .finite mb eb =>
      let e := min ea eb
      let sum := alignTo e na ma ea + alignTo e nb mb eb
      if sum = 0 then fmt.withSign (na && nb) 0
      else fmt.withSign (sum < 0) (fmt.roundDyadic sum.natAbs e)
    | _, _ => fmt.invalidResult

/-- Subtraction. -/
def sub (a b : Nat) : Nat :=
  fmt.propagate a b fun _ => fmt.add a (fmt.neg b)

/-- Multiplication. -/
def mul (a b : Nat) : Nat :=
  fmt.propagate a b fun _ =>
    let negative := fmt.isNegative a != fmt.isNegative b
    match fmt.magnitude a, fmt.magnitude b with
    | .finite ma ea, .finite mb eb => fmt.withSign negative (fmt.roundDyadic (ma * mb) (ea + eb))
    | .finite 0 _, _ => fmt.invalidResult
    | _, .finite 0 _ => fmt.invalidResult
    | _, _ => fmt.withSign negative fmt.infinityBits

/-- Division. -/
def div (a b : Nat) : Nat :=
  fmt.propagate a b fun _ =>
    let negative := fmt.isNegative a != fmt.isNegative b
    match fmt.magnitude a, fmt.magnitude b with
    | .finite 0 _, .finite 0 _ => fmt.invalidResult
    | .finite _ _, .finite 0 _ => fmt.withSign negative fmt.infinityBits
    | .finite ma ea, .finite mb eb =>
      let (n, d) := scaleRatio ma mb (eb - ea)
      fmt.withSign negative (fmt.round n d)
    | .finite _ _, _ => fmt.withSign negative 0
    | .infinite, .finite _ _ => fmt.withSign negative fmt.infinityBits
    | _, _ => fmt.invalidResult

/-- Square root: the integer root of a scaled significand, with a sticky last bit. -/
def sqrt (a : Nat) : Nat :=
  match fmt.magnitude a with
  | .notANumber => fmt.quiet a
  | .finite 0 _ => a
  | .infinite => if fmt.isNegative a then fmt.invalidResult else a
  | .finite m e =>
    if fmt.isNegative a then fmt.invalidResult
    else
      let shift := 2 * fmt.precision + 4 + (if (e % 2) = 0 then 0 else 1)
      let scaled := m * Nat.pow 2 shift
      let root := Nat.sqrt scaled
      let sticky := if root * root = scaled then 0 else 1
      fmt.roundDyadic (2 * root + sticky) ((e - shift) / 2 - 1)

/-- A signed number as an integer comparison key; zeros of both signs agree. -/
def orderKey (bits : Nat) : Int :=
  let body : Int := (bits % fmt.signBit : Nat)
  if fmt.isNegative bits then -body else body

/-- Equality of numbers. -/
def eq (a b : Nat) : Bool := !fmt.isNaN a && !fmt.isNaN b && fmt.orderKey a == fmt.orderKey b

/-- Strict order of numbers. -/
def lt (a b : Nat) : Bool := !fmt.isNaN a && !fmt.isNaN b && fmt.orderKey a < fmt.orderKey b

/-- Order of numbers. -/
def le (a b : Nat) : Bool := !fmt.isNaN a && !fmt.isNaN b && fmt.orderKey a ≤ fmt.orderKey b

/-- The lesser number; a negative zero is less than a positive one. -/
def min (a b : Nat) : Nat :=
  fmt.propagate a b fun _ =>
    if fmt.orderKey a < fmt.orderKey b then a
    else if fmt.orderKey b < fmt.orderKey a then b
    else a ||| b

/-- The greater number; a positive zero is greater than a negative one. -/
def max (a b : Nat) : Nat :=
  fmt.propagate a b fun _ =>
    if fmt.orderKey a < fmt.orderKey b then b
    else if fmt.orderKey b < fmt.orderKey a then a
    else a &&& b

/-- How a number is taken to a whole number. -/
inductive Rounding where
  | up
  | down
  | towardZero
  | nearestEven
  deriving DecidableEq, Repr

/-- The whole magnitude that `m * 2 ^ e` is taken to. -/
def Rounding.apply (r : Rounding) (negative : Bool) (m : Nat) (e : Int) : Nat :=
  if 0 ≤ e then m * Nat.pow 2 e.toNat
  else
    let den := Nat.pow 2 (-e).toNat
    let floor := m / den
    let ceiling := (m + den - 1) / den
    match r with
    | .towardZero => floor
    | .up => if negative then floor else ceiling
    | .down => if negative then ceiling else floor
    | .nearestEven => FloatFormat.nearestEven m den

/-- The nearest whole number in the given sense, as a float. -/
def toWhole (r : Rounding) (a : Nat) : Nat :=
  match fmt.magnitude a with
  | .notANumber => fmt.quiet a
  | .infinite => a
  | .finite m e =>
    let negative := fmt.isNegative a
    fmt.withSign negative (fmt.roundDyadic (r.apply negative m e) 0)

/-- The whole part of a number; `none` for an infinity or what is no number. -/
def truncate? (a : Nat) : Option Int :=
  match fmt.magnitude a with
  | .finite m e =>
    let whole : Int := (Rounding.towardZero.apply false m e : Nat)
    some (if fmt.isNegative a then -whole else whole)
  | _ => none

/-- The float nearest to an integer. -/
def ofInt (n : Int) : Nat := fmt.withSign (n < 0) (fmt.roundDyadic n.natAbs 0)

/-- A pattern of one format taken to another. -/
def convert (target : FloatFormat) (a : Nat) : Nat :=
  let negative := fmt.isNegative a
  match fmt.magnitude a with
  | .infinite => target.withSign negative target.infinityBits
  | .finite m e => target.withSign negative (target.roundDyadic m e)
  | .notANumber =>
    let fraction := a % Nat.pow 2 (fmt.precision - 1)
    let moved :=
      if fmt.precision ≤ target.precision then
        fraction * Nat.pow 2 (target.precision - fmt.precision)
      else fraction / Nat.pow 2 (fmt.precision - target.precision)
    target.withSign negative (target.infinityBits + moved) ||| target.quietBit

end WasmHost.FloatFormat
