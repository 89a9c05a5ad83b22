import WasmHost.Kind

/-!
# Values inside the engine

Integers and floats are bit patterns of their width. References to functions are places in a store,
and references to host objects are numbers under which the host keeps them. Either may be null.
-/

namespace WasmHost.Guest

/-- A reference. -/
inductive Ref where
  | func (place : Option Nat)
  | object (origin : Option Nat)
  deriving DecidableEq, Repr, Inhabited

/-- A value of the operand stack. -/
inductive Value where
  | i32 (bits : BitVec 32)
  | i64 (bits : BitVec 64)
  | f32 (bits : BitVec 32)
  | f64 (bits : BitVec 64)
  | v128 (bits : BitVec 128)
  | ref (ref : Ref)
  deriving DecidableEq, Repr

instance : Inhabited Value := ⟨.i32 0⟩

/-- The kind of a reference. -/
def Ref.kind : Ref → Kind
  | func _ => .funcref
  | object _ => .externref

/-- The reference is null. -/
def Ref.isNull : Ref → Bool
  | func none | object none => true
  | _ => false

/-- The null reference of a kind. -/
def Ref.null : Kind → Ref
  | .externref => .object none
  | _ => .func none

namespace Value

/-- The kind of a value. -/
def kind : Value → Kind
  | i32 _ => .i32
  | i64 _ => .i64
  | f32 _ => .f32
  | f64 _ => .f64
  | v128 _ => .v128
  | ref r => r.kind

/-- Zero, or null: what locals hold at first. -/
def zero : Kind → Value
  | .i32 => i32 0
  | .i64 => i64 0
  | .f32 => f32 0
  | .f64 => f64 0
  | .v128 => v128 0
  | .funcref => ref (.func none)
  | .externref => ref (.object none)

/-- A truth value. -/
def ofBool (b : Bool) : Value := i32 (if b then 1 else 0)

/-- The number an index or address stands for. -/
def toIndex? : Value → Option Nat
  | i32 x => some x.toNat
  | i64 x => some x.toNat
  | _ => none

/-- An index or address, 64 bits wide or 32. -/
def ofIndex (wide : Bool) (n : Nat) : Value :=
  if wide then i64 (BitVec.ofNat 64 n) else i32 (BitVec.ofNat 32 n)

/-- What a failed attempt to grow gives. -/
def failedGrowth (wide : Bool) : Value := if wide then i64 (-1) else i32 (-1)

end Value

end WasmHost.Guest
