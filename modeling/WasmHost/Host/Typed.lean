import WasmHost.Host.Call

/-!
# Typed closures

A typed closure takes and gives host data of fixed types instead of lists of values. Its function
type follows from those types, arguments are read in order, and results are listed in order.
-/

namespace WasmHost.Host

/-- The kinds that have a host type. -/
inductive HostKind where
  | i32
  | i64
  | f32
  | f64
  | funcref
  | externref
  deriving DecidableEq, Repr

namespace HostKind

/-- The kind of value. -/
def kind : HostKind → Kind
  | i32 => .i32
  | i64 => .i64
  | f32 => .f32
  | f64 => .f64
  | funcref => .funcref
  | externref => .externref

/-- The host type: bit patterns, or references that may be missing. -/
abbrev Data : HostKind → Type
  | i32 => BitVec 32
  | i64 => BitVec 64
  | f32 => BitVec 32
  | f64 => BitVec 64
  | funcref => Option Handle
  | externref => Option ObjectId

/-- Data as a value. -/
def toVal : (k : HostKind) → k.Data → Val
  | i32, x => .i32 x
  | i64, x => .i64 x
  | f32, x => .f32 x
  | f64, x => .f64 x
  | funcref, x => .funcref x
  | externref, x => .externref x

/-- The data of a value of the kind. -/
def ofVal : (k : HostKind) → Val → Except Error k.Data
  | i32, .i32 x => .ok x
  | i64, .i64 x => .ok x
  | f32, .f32 x => .ok x
  | f64, .f64 x => .ok x
  | funcref, .funcref x => .ok x
  | externref, .externref x => .ok x
  | k, v => .error (.wrongKind k.kind v.kind)

theorem kind_toVal (k : HostKind) (x : k.Data) : (k.toVal x).kind = k.kind := by cases k <;> rfl

theorem ofVal_toVal (k : HostKind) (x : k.Data) : k.ofVal (k.toVal x) = .ok x := by
  cases k <;> rfl

end HostKind

/-- Data of several kinds. -/
def HostArgs : List HostKind → Type
  | [] => Unit
  | k :: ks => k.Data × HostArgs ks

namespace HostArgs

/-- The message for a closure that is given less than it takes. -/
def tooFew : String := "host function received too few arguments"

/-- Reads data off the front of a list of values. -/
def read : (ks : List HostKind) → List Val → Except Trap (HostArgs ks)
  | [], _ => .ok ()
  | _ :: _, [] => .error (.ofMessage tooFew)
  | k :: ks, v :: vs =>
    match k.ofVal v with
    | .error e => .error (.ofMessage e.message)
    | .ok x => (read ks vs).map fun xs => (x, xs)

/-- Lists data as values. -/
def list : (ks : List HostKind) → HostArgs ks → List Val
  | [], _ => []
  | k :: ks, (x, xs) => k.toVal x :: list ks xs

theorem read_list (ks : List HostKind) (xs : HostArgs ks) : read ks (list ks xs) = .ok xs := by
  induction ks with
  | nil => rfl
  | cons k ks ih =>
    obtain ⟨x, xs⟩ := xs
    simp [list, read, HostKind.ofVal_toVal, ih, Except.map]

theorem kinds_list (ks : List HostKind) (xs : HostArgs ks) :
    (list ks xs).map Val.kind = ks.map HostKind.kind := by
  induction ks with
  | nil => rfl
  | cons k ks ih =>
    obtain ⟨x, xs⟩ := xs
    simp [list, HostKind.kind_toVal, ih]

end HostArgs

/-- A closure on typed data. References among its arguments are lent to it; those among its results
it gives away. -/
structure TypedClosure (κ σ : Type) where
  params : List HostKind
  results : List HostKind
  run : Caller → HostArgs params → Act κ σ (Except Trap (HostArgs results))

namespace TypedClosure

variable {κ σ : Type}

/-- The function type. -/
def type (f : TypedClosure κ σ) : Signature :=
  ⟨f.params.map HostKind.kind, f.results.map HostKind.kind⟩

/-- The closure on lists of values. -/
def invoke (f : TypedClosure κ σ) (caller : Caller) (args : List Val) :
    Act κ σ (Except Trap (List Val)) := do
  match HostArgs.read f.params args with
  | .error trap => return .error trap
  | .ok xs =>
    match ← f.run caller xs with
    | .error trap => return .error trap
    | .ok ys => return .ok (HostArgs.list f.results ys)

end TypedClosure

end WasmHost.Host
