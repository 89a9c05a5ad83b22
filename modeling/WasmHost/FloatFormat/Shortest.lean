import WasmHost.FloatFormat

/-!
# The shortest decimal text of a float

Every number of a binary format is the rounding of an interval of reals. Its text has the fewest
digits of any decimal in that interval, and among those of that length it is the nearest. The ends
belong to the interval when the significand is even, since ties round to even.

The digits are always written positionally, however long that makes the text.
-/

namespace WasmHost.FloatFormat

variable (fmt : FloatFormat)

/-- The reals that round to a number, with the number itself, all three over one denominator. -/
structure Interval where
  low : Nat
  value : Nat
  high : Nat
  den : Nat
  /-- The two ends round to the number too. -/
  closed : Bool
  deriving Repr

/-- The interval of `m * 2 ^ e`. Below a power of two the neighbour is twice as near, except for
the smallest numbers. -/
def roundingInterval (m : Nat) (e : Int) : Interval :=
  let below := if m = Nat.pow 2 (fmt.precision - 1) ∧ fmt.minExponent < e then 1 else 2
  let (unit, den) := if 0 ≤ e then (Nat.pow 2 e.toNat, 4) else (1, 4 * Nat.pow 2 (-e).toNat)
  { low := (4 * m - below) * unit
    value := 4 * m * unit
    high := (4 * m + 2) * unit
    den := den
    closed := m % 2 = 0 }

/-- `num / den` lies in the interval. -/
def Interval.holds (i : Interval) (num den : Nat) : Bool :=
  let x := num * i.den
  if i.closed then i.low * den ≤ x && x ≤ i.high * den
  else i.low * den < x && x < i.high * den

/-- A decimal `digits * 10 ^ exponent`. -/
structure Decimal where
  digits : Nat
  exponent : Int
  deriving DecidableEq, Repr

/-- The decimal as a ratio. -/
def Decimal.ratio (d : Decimal) : Nat × Nat :=
  if 0 ≤ d.exponent then (d.digits * Nat.pow 10 d.exponent.toNat, 1)
  else (d.digits, Nat.pow 10 (-d.exponent).toNat)

/-- The best decimal with last place `10 ^ e` that lies in the interval, if there is one: of the
two neighbours of the value the nearer, the upper one in a tie. -/
def Interval.onGrid? (i : Interval) (e : Int) : Option Decimal :=
  let (num, den) := if 0 ≤ e then (i.value, i.den * Nat.pow 10 e.toNat)
    else (i.value * Nat.pow 10 (-e).toNat, i.den)
  let q := num / den
  let r := num % den
  let lower : Decimal := ⟨q, e⟩
  let upper : Decimal := ⟨q + 1, e⟩
  let inside (d : Decimal) : Bool := i.holds d.ratio.1 d.ratio.2
  if inside lower && (2 * r < den || !inside upper) then some lower
  else if inside upper then some upper
  else none

/-- Tries ever finer grids, starting at `10 ^ e`. -/
def Interval.search (i : Interval) : Nat → Int → Decimal
  | 0, e => ⟨0, e⟩
  | steps + 1, e => (i.onGrid? e).getD (i.search steps (e - 1))

/-- The place of the leading digit of a positive ratio, or one above it. -/
def leadingPlace (num den : Nat) : Int :=
  let estimate : Int := ((Nat.toDigits 10 num).length : Int) - (Nat.toDigits 10 den).length
  estimate

/-- The shortest decimal of `m * 2 ^ e`; eighteen places below the leading one always suffice. -/
def shortest (m : Nat) (e : Int) : Decimal :=
  let i := fmt.roundingInterval m e
  i.search 20 (leadingPlace i.value i.den)

/-- Drops zeros at the end of the digits. -/
def Decimal.trim (d : Decimal) : Nat → Decimal
  | 0 => d
  | steps + 1 =>
    if d.digits ≠ 0 ∧ d.digits % 10 = 0 then
      (Decimal.mk (d.digits / 10) (d.exponent + 1)).trim steps
    else d

/-- A decimal written out in full, without exponent. -/
def Decimal.positional (d : Decimal) : String :=
  let d := d.trim 20
  let cs := Nat.toDigits 10 d.digits
  if 0 ≤ d.exponent then String.ofList (cs ++ List.replicate d.exponent.toNat '0')
  else
    let places := (-d.exponent).toNat
    if places < cs.length then
      String.ofList (cs.take (cs.length - places) ++ '.' :: cs.drop (cs.length - places))
    else
      String.ofList ('0' :: '.' :: List.replicate (places - cs.length) '0' ++ cs)

/-- The text of a pattern. Zero keeps its sign, infinities are `inf`, and what is no number is
`NaN` whatever its sign. -/
def text (bits : Nat) : String :=
  let sign := if fmt.isNegative bits then "-" else ""
  match fmt.magnitude bits with
  | .notANumber => "NaN"
  | .infinite => sign ++ "inf"
  | .finite 0 _ => sign ++ "0"
  | .finite m e => sign ++ (fmt.shortest m e).positional

end WasmHost.FloatFormat
