import WasmHost.Guest.Value
import WasmHost.Wasm.Instr
import WasmHost.FloatFormat.Arithmetic
import WasmHost.Trap

/-!
# Arithmetic of guests

The meaning of the numeric instructions. Integer operations work on bit patterns of any width,
float operations on patterns of a format. Division and some conversions can trap.
-/

namespace WasmHost.Guest

open Wasm

/-! ## Integers -/

section Integers

variable {w : Nat}

/-- The number of zeros before the first one, from the top. -/
def leadingZeros (x : BitVec w) : Nat := if x = 0 then w else w - 1 - x.toNat.log2

/-- The number of zeros behind the last one, counting at most `fuel`. -/
def trailingZeros (x : BitVec w) : Nat → Nat
  | 0 => 0
  | fuel + 1 => if x.getLsbD (w - (fuel + 1)) then 0 else 1 + trailingZeros x fuel

/-- The number of ones. -/
def populationCount (x : BitVec w) : Nat :=
  ((List.range w).filter fun i => x.getLsbD i).length

/-- An operation of one operand. -/
def intUnary (op : IntUnary) (x : BitVec w) : BitVec w :=
  match op with
  | .clz => BitVec.ofNat w (leadingZeros x)
  | .ctz => BitVec.ofNat w (trailingZeros x w)
  | .popcnt => BitVec.ofNat w (populationCount x)
  | .extend8 => (x.setWidth 8).signExtend w
  | .extend16 => (x.setWidth 16).signExtend w
  | .extend32 => (x.setWidth 32).signExtend w

/-- An operation of two operands. Shifts and rotations take their amount modulo the width. -/
def intBinary (op : IntBinary) (x y : BitVec w) : Except TrapCause (BitVec w) :=
  match op with
  | .add => .ok (x + y)
  | .sub => .ok (x - y)
  | .mul => .ok (x * y)
  | .divS =>
    if y = 0 then .error (.coded .integerDivisionByZero)
    else if x = BitVec.intMin w ∧ y = -1 then .error (.coded .integerOverflow)
    else .ok (x.sdiv y)
  | .divU => if y = 0 then .error (.coded .integerDivisionByZero) else .ok (x.udiv y)
  | .remS => if y = 0 then .error (.coded .integerDivisionByZero) else .ok (x.srem y)
  | .remU => if y = 0 then .error (.coded .integerDivisionByZero) else .ok (x.umod y)
  | .and => .ok (x &&& y)
  | .or => .ok (x ||| y)
  | .xor => .ok (x ^^^ y)
  | .shl => .ok (x <<< (y.toNat % w))
  | .shrS => .ok (x.sshiftRight (y.toNat % w))
  | .shrU => .ok (x >>> (y.toNat % w))
  | .rotl => .ok (x.rotateLeft (y.toNat % w))
  | .rotr => .ok (x.rotateRight (y.toNat % w))

/-- A comparison. -/
def intRelation (op : IntRelation) (x y : BitVec w) : Bool :=
  match op with
  | .eq => x == y
  | .ne => x != y
  | .ltS => x.slt y
  | .ltU => x.ult y
  | .gtS => y.slt x
  | .gtU => y.ult x
  | .leS => x.sle y
  | .leU => x.ule y
  | .geS => y.sle x
  | .geU => y.ule x

end Integers

/-! ## Floats -/

/-- An operation of one operand. -/
def floatUnary (fmt : FloatFormat) (op : FloatUnary) (x : Nat) : Nat :=
  match op with
  | .abs => fmt.abs x
  | .neg => fmt.neg x
  | .ceil => fmt.toWhole .up x
  | .floor => fmt.toWhole .down x
  | .trunc => fmt.toWhole .towardZero x
  | .nearest => fmt.toWhole .nearestEven x
  | .sqrt => fmt.sqrt x

/-- An operation of two operands. -/
def floatBinary (fmt : FloatFormat) (op : FloatBinary) (x y : Nat) : Nat :=
  match op with
  | .add => fmt.add x y
  | .sub => fmt.sub x y
  | .mul => fmt.mul x y
  | .div => fmt.div x y
  | .min => fmt.min x y
  | .max => fmt.max x y
  | .copysign => fmt.copySign x y

/-- A comparison. -/
def floatRelation (fmt : FloatFormat) (op : FloatRelation) (x y : Nat) : Bool :=
  match op with
  | .eq => fmt.eq x y
  | .ne => !fmt.eq x y
  | .lt => fmt.lt x y
  | .gt => fmt.lt y x
  | .le => fmt.le x y
  | .ge => fmt.le y x

/-- A whole number brought into a range, or refused outside of it. -/
def intoRange (low high : Int) (saturating : Bool) (n : Int) : Except TrapCause Int :=
  if low ≤ n ∧ n ≤ high then .ok n
  else if saturating then .ok (if n < low then low else high)
  else .error (.coded .integerOverflow)

/-- The whole part of a float as an integer of `bits` bits. -/
def truncate (bits : Nat) (fmt : FloatFormat) (isSigned saturating : Bool) (x : Nat) :
    Except TrapCause (BitVec bits) :=
  let low : Int := if isSigned then -(Nat.pow 2 (bits - 1) : Nat) else 0
  let high : Int := if isSigned then (Nat.pow 2 (bits - 1) : Nat) - 1 else (Nat.pow 2 bits : Nat) - 1
  if fmt.isNaN x then
    if saturating then .ok 0 else .error (.coded .badConversionToInteger)
  else
    -- An infinity counts as a number beyond the range.
    let n := (fmt.truncate? x).getD (if fmt.isNegative x then low - 1 else high + 1)
    (intoRange low high saturating n).map (BitVec.ofInt bits)

/-- An integer as a float. -/
def floatOfInt {w : Nat} (fmt : FloatFormat) (isSigned : Bool) (x : BitVec w) : Nat :=
  fmt.ofInt (if isSigned then x.toInt else x.toNat)

/-- A conversion. Operands of the wrong kind have no meaning. -/
def convert (op : Conversion) (v : Value) : Option (Except TrapCause Value) :=
  match op, v with
  | .wrap, .i64 x => some (.ok (.i32 (x.setWidth 32)))
  | .extend true, .i32 x => some (.ok (.i64 (x.signExtend 64)))
  | .extend false, .i32 x => some (.ok (.i64 (x.setWidth 64)))
  | .truncate .w32 _ isSigned sat, .f32 x =>
    some ((truncate 32 .single isSigned sat x.toNat).map .i32)
  | .truncate .w32 _ isSigned sat, .f64 x =>
    some ((truncate 32 .double isSigned sat x.toNat).map .i32)
  | .truncate .w64 _ isSigned sat, .f32 x =>
    some ((truncate 64 .single isSigned sat x.toNat).map .i64)
  | .truncate .w64 _ isSigned sat, .f64 x =>
    some ((truncate 64 .double isSigned sat x.toNat).map .i64)
  | .ofInt .f32 _ isSigned, .i32 x =>
    some (.ok (.f32 (BitVec.ofNat 32 (floatOfInt .single isSigned x))))
  | .ofInt .f32 _ isSigned, .i64 x =>
    some (.ok (.f32 (BitVec.ofNat 32 (floatOfInt .single isSigned x))))
  | .ofInt .f64 _ isSigned, .i32 x =>
    some (.ok (.f64 (BitVec.ofNat 64 (floatOfInt .double isSigned x))))
  | .ofInt .f64 _ isSigned, .i64 x =>
    some (.ok (.f64 (BitVec.ofNat 64 (floatOfInt .double isSigned x))))
  | .demote, .f64 x =>
    some (.ok (.f32 (BitVec.ofNat 32 (FloatFormat.double.convert .single x.toNat))))
  | .promote, .f32 x =>
    some (.ok (.f64 (BitVec.ofNat 64 (FloatFormat.single.convert .double x.toNat))))
  | .reinterpret .i32 _, .f32 x => some (.ok (.i32 x))
  | .reinterpret .i64 _, .f64 x => some (.ok (.i64 x))
  | .reinterpret .f32 _, .i32 x => some (.ok (.f32 x))
  | .reinterpret .f64 _, .i64 x => some (.ok (.f64 x))
  | _, _ => none

end WasmHost.Guest
