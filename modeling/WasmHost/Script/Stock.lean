import WasmHost.Host.Logging

/-!
# Stock closures

Small typed closures under fixed names, for scripts: arithmetic that wraps, rearrangements of
arguments, identities on references, closures that trap or panic, and some that look at the instance
that called them.
-/

namespace WasmHost.Script

open WasmHost.Host

/-- The names of the stock closures. -/
inductive Stock where
  | nop
  | seven
  | inc
  | add
  | sub
  | rot3
  | rev4
  | sum5
  | pick6
  | sum7
  | sum8
  | oneTuple
  | swap
  | idF32
  | idF64
  | idRef
  | idFunc
  | isNull
  | refLen
  | check
  | div
  | pair
  | nested
  | boom
  | c0
  | deny
  | c1
  | memSum
  | c3
  | c4
  | c5
  | c6
  | c7
  | c8
  deriving DecidableEq, Repr

namespace Stock

/-- Every stock closure. -/
def all : List Stock :=
  [nop, seven, inc, add, sub, rot3, rev4, sum5, pick6, sum7, sum8, oneTuple, swap, idF32, idF64,
    idRef, idFunc, isNull, refLen, check, div, pair, nested, boom, c0, deny, c1, memSum, c3, c4, c5,
    c6, c7, c8]

/-- The word for a stock closure. -/
def word : Stock → String
  | nop => "nop"
  | seven => "seven"
  | inc => "inc"
  | add => "add"
  | sub => "sub"
  | rot3 => "rot3"
  | rev4 => "rev4"
  | sum5 => "sum5"
  | pick6 => "pick6"
  | sum7 => "sum7"
  | sum8 => "sum8"
  | oneTuple => "one_tuple"
  | swap => "swap"
  | idF32 => "id_f32"
  | idF64 => "id_f64"
  | idRef => "id_ref"
  | idFunc => "id_func"
  | isNull => "is_null"
  | refLen => "ref_len"
  | check => "check"
  | div => "div"
  | pair => "pair"
  | nested => "nested"
  | boom => "boom"
  | c0 => "c0"
  | deny => "deny"
  | c1 => "c1"
  | memSum => "mem_sum"
  | c3 => "c3"
  | c4 => "c4"
  | c5 => "c5"
  | c6 => "c6"
  | c7 => "c7"
  | c8 => "c8"

/-- The stock closure a word stands for. -/
def ofWord? (w : String) : Option Stock := all.find? fun f => f.word == w

/-! ## Ways to make typed closures -/

section

variable {κ σ : Type}

/-- A closure that only computes. -/
def purely (params results : List HostKind)
    (f : HostArgs params → Except Trap (HostArgs results)) : TypedClosure κ σ where
  params := params
  results := results
  run := fun _ xs => pure (f xs)

/-- A trap with a message. -/
def trap {α : Type} (message : String) : Except Trap α := .error (.ofMessage message)

/-- All data of one kind, as a list. -/
def asList : (n : Nat) → HostArgs (List.replicate n .i64) → List (BitVec 64)
  | 0, _ => []
  | n + 1, (x, xs) => x :: asList n xs

/-- A closure that adds up a number of words. -/
def adding (n : Nat) : TypedClosure κ σ :=
  purely (List.replicate n .i64) [.i64] fun xs => .ok ((asList n xs).foldl (· + ·) 0, ())

/-- A closure that gives its argument back. -/
def identity (k : HostKind) : TypedClosure κ σ where
  params := [k]
  results := [k]
  run := fun _ (x, _) => do
    Act.update (·.retainVal (k.toVal x))
    return .ok (x, ())

/-- An integer that holds a truth value. -/
def bit (b : Bool) : BitVec 32 := if b then 1 else 0

/-- The number of bytes of a host object's text. -/
def textLength (w : World κ σ) (o : Option ObjectId) : BitVec 32 :=
  match (o.bind fun (i : Nat) => w.objects[i]?).map ObjectCell.data with
  | some (.text t) => .ofNat 32 t.utf8ByteSize
  | _ => -1

/-- The most bytes that are added up at once. -/
def sumBound : Nat := Nat.pow 2 20

/-- The sum of bytes. -/
def sumBytes (bs : List UInt8) : Nat := bs.foldl (fun sum b => sum + b.toNat) 0

/-- The sum of bytes in the memory that the caller exports. -/
def sumMemory (caller : Caller) (ptr len : BitVec 32) : Act κ σ (Except Trap (BitVec 32)) := do
  match ← caller.getExport "memory" with
  | none => return trap "missing memory"
  | some item =>
    Act.ensuring (Act.releaseHandle item.handle) do
      if item.kind ≠ .memory then return trap "missing memory"
      if ptr.toInt < 0 then return trap "negative ptr"
      if len.toInt < 0 then return trap "negative len"
      let len := min len.toNat sumBound
      match ← Act.attempt (Memory.read caller.store item.handle ptr.toNat len) with
      | .ok bytes => return .ok (.ofNat 32 (sumBytes bytes))
      | .error e => return trap e.message

end

/-! ## The closures -/

variable {κ σ : Type}

/-- The closure under a name. -/
def closure : Stock → TypedClosure κ σ
  | nop => purely [] [] fun _ => .ok ()
  | seven => purely [] [.i32] fun _ => .ok (7, ())
  | inc => purely [.i32] [.i32] fun (x, _) => .ok (x + 1, ())
  | add => purely [.i32, .i32] [.i32] fun (x, y, _) => .ok (x + y, ())
  | sub => purely [.i32, .i32] [.i32] fun (x, y, _) => .ok (x - y, ())
  | rot3 => purely [.i32, .i32, .i32] [.i32, .i32, .i32] fun (x, y, z, _) => .ok (y, z, x, ())
  | rev4 =>
    purely [.f32, .f64, .i32, .i64] [.i64, .i32, .f64, .f32] fun (a, b, c, d, _) =>
      .ok (d, c, b, a, ())
  | sum5 => adding 5
  | pick6 =>
    purely [.i32, .i64, .i64, .i64, .i64, .i64] [.i64] fun (i, a, b, c, d, e, _) =>
      .ok (([a, b, c, d, e][i.toNat]?).getD (-1), ())
  | sum7 =>
    purely [.i32, .i64, .i32, .i64, .i32, .i64, .i32] [.i64] fun (a, b, c, d, e, f, g, _) =>
      .ok (b + d + f + a.signExtend 64 + c.signExtend 64 + e.signExtend 64 + g.signExtend 64, ())
  | sum8 =>
    purely [.i32, .i32, .i32, .i32, .i64, .i64, .i64, .i64] [.i64]
      fun (a, b, c, d, e, f, g, h, _) =>
        .ok (e + f + g + h + a.signExtend 64 + b.signExtend 64 + c.signExtend 64 +
          d.signExtend 64, ())
  | oneTuple => purely [.i32] [.i32] fun xs => .ok xs
  | swap => purely [.i64, .f32] [.f32, .i64] fun (x, y, _) => .ok (y, x, ())
  | idF32 => identity .f32
  | idF64 => identity .f64
  | idRef => identity .externref
  | idFunc => identity .funcref
  | isNull =>
    purely [.funcref, .externref] [.i32] fun (f, o, _) =>
      .ok (bit (Option.isNone f) + 2 * bit (Option.isNone o), ())
  | refLen =>
    { params := [.externref]
      results := [.i32]
      run := fun _ (o, _) => do return .ok (textLength (← Act.world) o, ()) }
  | check =>
    purely [.i32] [] fun (x, _) =>
      if x.toInt < 0 then trap ("negative input: " ++ toString x.toInt) else .ok ()
  | div =>
    purely [.i32, .i32] [.i32] fun (x, y, _) =>
      if y.toInt = 0 then trap "division by zero"
      else if x.toInt = -2147483648 ∧ y.toInt = -1 then trap "overflow"
      else .ok (x.sdiv y, ())
  | pair => purely [.f32] [.i32, .f32] fun (x, _) => .ok (1, x, ())
  | nested =>
    purely [.i32] [.i32] fun (x, _) =>
      if x.toInt = 0 then trap "outer" else if x.toInt = 1 then trap "inner" else .ok (x, ())
  | boom => { params := [], results := [], run := fun _ _ => Act.panic (.text "x") }
  | c0 => purely [] [.i32] fun _ => .ok (1, ())
  | deny => purely [] [] fun _ => trap "not allowed"
  | c1 => purely [.i64] [.i64] fun (x, _) => .ok (x + 1, ())
  | memSum =>
    { params := [.i32, .i32]
      results := [.i32]
      run := fun caller (ptr, len, _) => do
        return (← sumMemory caller ptr len).map fun x => (x, ()) }
  | c3 => adding 3
  | c4 => adding 4
  | c5 => adding 5
  | c6 => adding 6
  | c7 => adding 7
  | c8 => adding 8

end Stock

end WasmHost.Script
