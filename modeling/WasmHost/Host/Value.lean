import WasmHost.Kind
import WasmHost.FloatFormat.Shortest

/-!
# Values of the host

A value as host code sees it. Floats are bit patterns, so that nothing is lost on the way through a
guest. A function reference is a handle of a store; a reference to a host object is the number of
the object. The host has no values of the vector kind.
-/

namespace WasmHost.Host

/-- A handle: the address of an allocation that stands for something in a store. -/
abbrev Handle := Nat

/-- A host object that guests may refer to. -/
abbrev ObjectId := Nat

/-- A value. -/
inductive Val where
  | i32 (bits : BitVec 32)
  | i64 (bits : BitVec 64)
  | f32 (bits : BitVec 32)
  | f64 (bits : BitVec 64)
  | funcref (func : Option Handle)
  | externref (object : Option ObjectId)
  deriving DecidableEq, Repr, Inhabited

namespace Val

/-- The kind of a value. -/
def kind : Val → Kind
  | i32 _ => .i32
  | i64 _ => .i64
  | f32 _ => .f32
  | f64 _ => .f64
  | funcref _ => .funcref
  | externref _ => .externref

/-- Zero, or null; there is no vector value. -/
def default? : Kind → Option Val
  | .i32 => some (i32 0)
  | .i64 => some (i64 0)
  | .f32 => some (f32 0)
  | .f64 => some (f64 0)
  | .funcref => some (funcref none)
  | .externref => some (externref none)
  | .v128 => none

/-- The text of a value: a number in its usual notation, `null`, or the kind of reference. -/
def text : Val → String
  | i32 x => toString x.toInt
  | i64 x => toString x.toInt
  | f32 x => FloatFormat.single.text x.toNat
  | f64 x => FloatFormat.double.text x.toNat
  | funcref none | externref none => "null"
  | funcref (some _) => "<funcref>"
  | externref (some _) => "<externref>"

/-- The text that shows how a value is stored. -/
def debugText : Val → String
  | i32 x => "I32(" ++ toString x.toInt ++ ")"
  | i64 x => "I64(" ++ toString x.toInt ++ ")"
  | f32 x => "F32(" ++ toString x.toNat ++ ")"
  | f64 x => "F64(" ++ toString x.toNat ++ ")"
  | funcref none => "FuncRef(None)"
  | funcref (some _) => "FuncRef(Some(Func \x7b .. \x7d))"
  | externref none => "ExternRef(None)"
  | externref (some _) => "ExternRef(Some(ExternRef \x7b .. \x7d))"

end Val

end WasmHost.Host
