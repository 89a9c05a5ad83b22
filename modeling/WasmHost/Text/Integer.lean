/-!
# Integers as text

Decimal text is an optional sign and one or more digits. `parseBounded` reads it within a range and
names the first reason for which it fails: no text, a character that is no digit, or a value beyond
one end of the range. The two renderings in base sixteen are those of offsets and of raw bytes.
-/

namespace WasmHost.Text

/-- Why a text is no integer of the wanted range. -/
inductive IntegerError where
  | empty
  | invalidDigit
  | tooLarge
  | tooSmall
  deriving DecidableEq, Repr

/-- The wording of the error. -/
def IntegerError.message : IntegerError → String
  | empty => "cannot parse integer from empty string"
  | invalidDigit => "invalid digit found in string"
  | tooLarge => "number too large to fit in target type"
  | tooSmall => "number too small to fit in target type"

/-- The value of a decimal digit. -/
def digit? (c : Char) : Option Nat :=
  if '0' ≤ c ∧ c ≤ '9' then some (c.toNat - '0'.toNat) else none

/-- Folds digits into `acc`, most significant first. -/
def digitsFrom? (acc : Nat) : List Char → Option Nat
  | [] => some acc
  | c :: rest => (digit? c).bind fun d => digitsFrom? (10 * acc + d) rest

/-- The value of a non-empty run of digits. -/
def natural? : List Char → Option Nat
  | [] => none
  | cs => digitsFrom? 0 cs

/-- Reads an integer between `low` and `high`. A minus sign is only a sign where the range has
negative members; elsewhere it is a character that is no digit. When a long text both leaves the
range and holds a bad character, the one that comes first from the left decides. -/
def parseBounded (low high : Int) (text : List Char) : Except IntegerError Int :=
  match text with
  | [] => .error .empty
  | ['+'] => .error .invalidDigit
  | ['-'] => .error .invalidDigit
  | '+' :: rest => walk 1 0 rest
  | '-' :: rest => if low < 0 then walk (-1) 0 rest else .error .invalidDigit
  | cs => walk 1 0 cs
where
  walk (sign : Int) (acc : Int) : List Char → Except IntegerError Int
    | [] => .ok acc
    | c :: rest =>
      match digit? c with
      | none => .error .invalidDigit
      | some d =>
        let next := 10 * acc + sign * d
        if high < next then .error .tooLarge
        else if next < low then .error .tooSmall
        else walk sign next rest

/-- Reads a signed integer of `bits` bits. -/
def parseSigned (bits : Nat) (text : String) : Except IntegerError (BitVec bits) :=
  (parseBounded (-(Nat.pow 2 (bits - 1) : Nat)) ((Nat.pow 2 (bits - 1) : Nat) - 1) text.toList).map
    (BitVec.ofInt bits)

/-- Reads an unsigned integer of 64 bits. -/
def parseUnsigned64 (text : String) : Except IntegerError UInt64 :=
  (parseBounded 0 ((Nat.pow 2 64 : Nat) - 1) text.toList).map fun n => UInt64.ofNat n.toNat

/-- A digit of base sixteen, in lower case. -/
def hexDigit (n : Nat) : Char :=
  if n < 10 then Char.ofNat ('0'.toNat + n) else Char.ofNat ('a'.toNat + (n - 10))

/-- The last `width` digits of base sixteen of a number. -/
def hexPadded (width n : Nat) : String :=
  String.ofList (go width n [])
where
  go : Nat → Nat → List Char → List Char
    | 0, _, acc => acc
    | w + 1, n, acc => go w (n / 16) (hexDigit (n % 16) :: acc)

/-- A number in base sixteen, without leading zeros, after `0x`. -/
def hexOffset (n : Nat) : String := "0x" ++ String.ofList (Nat.toDigits 16 n)

/-- Two digits for each byte. -/
def hexBytes (bytes : List UInt8) : String :=
  String.join (bytes.map fun b => hexPadded 2 b.toNat)

/-- The value of a digit of base sixteen, of either case. -/
def hexDigit? (c : Char) : Option Nat :=
  if '0' ≤ c ∧ c ≤ '9' then some (c.toNat - '0'.toNat)
  else if 'a' ≤ c ∧ c ≤ 'f' then some (c.toNat - 'a'.toNat + 10)
  else if 'A' ≤ c ∧ c ≤ 'F' then some (c.toNat - 'A'.toNat + 10)
  else none

/-- The bytes that pairs of digits of base sixteen stand for. -/
def unhexBytes? : List Char → Option (List UInt8)
  | [] => some []
  | [_] => none
  | a :: b :: rest => do
    let hi ← hexDigit? a
    let lo ← hexDigit? b
    let tail ← unhexBytes? rest
    return UInt8.ofNat (16 * hi + lo) :: tail

/-- The number that digits of base sixteen stand for. -/
def unhexNat? (cs : List Char) : Option Nat :=
  cs.foldlM (fun acc c => (hexDigit? c).map (16 * acc + ·)) 0

end WasmHost.Text
