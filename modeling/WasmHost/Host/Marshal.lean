import WasmHost.Host.Release

/-!
# Values between host and guest

A value passes from host to guest in two steps. It is first *packed*: a function reference becomes
the place of the function, and must belong to the right store; a host object gets a new origin. Then
the engine takes a copy of it. On the way back the engine hands out a packed copy, which is
*unpacked*: a function reference becomes a new handle, a host object one more clone. Packed values
are released when they are no longer needed, whatever became of them.
-/

namespace WasmHost.Host

/-- A value between host and guest, which belongs to a store. -/
inductive Packed (store : Nat) where
  | i32 (bits : BitVec 32)
  | i64 (bits : BitVec 64)
  | f32 (bits : BitVec 32)
  | f64 (bits : BitVec 64)
  | funcref (place : Option Nat)
  | externref (origin : Option Nat)
  deriving DecidableEq, Repr

/-- The kind of a packed value. -/
def Packed.kind {store : Nat} : Packed store → Kind
  | i32 _ => .i32
  | i64 _ => .i64
  | f32 _ => .f32
  | f64 _ => .f64
  | funcref _ => .funcref
  | externref _ => .externref

variable {κ σ : Type}

namespace Act

/-! ## Releasing packed values -/

/-- Releases the copy that a packed value holds. -/
def releasePacked {t : Nat} : Packed t → Act κ σ Unit
  | .externref (some g) => releaseOrigin g
  | _ => pure ()

/-- Releases packed values in order. -/
def releasePackedAll {t : Nat} : List (Packed t) → Act κ σ Unit
  | [] => pure ()
  | p :: ps => do
    releasePacked p
    releasePackedAll ps

/-! ## Handles -/

/-- The cell of a handle that is owned by something. -/
def cell (h : Handle) : Act κ σ HandleCell := do
  match (← world).heap.get? h with
  | some c => if c.shares = 0 then abort (.dangling h) else return c
  | none => abort (.dangling h)

/-- The cell of a handle of a store; a handle of another store panics. -/
def check (s : Nat) (h : Handle) : Act κ σ HandleCell := do
  let c ← cell h
  if c.store = s then return c else panic (.text foreignMessage)

/-- Hands something of a store over to the engine, to be used in a store. The engine does not look
whether it belongs there. -/
def hand (s t : Nat) : Act κ σ Unit := if t = s then pure () else abort (.foreign s)

/-- The item of a store that a handle stands for. -/
def place (s : Nat) (h : Handle) : Act κ σ Guest.Place := do
  match (← check s h).target with
  | .item t p =>
    hand s t
    return p
  | _ => abort (.dangling h)

/-- The function of a store that a handle stands for. -/
def funcPlace (s : Nat) (h : Handle) : Act κ σ Nat := do
  match ← place s h with
  | .func i => return i
  | _ => abort (.dangling h)

end Act

/-! ## Packing -/

/-- Packs a value for a store. -/
def pack (s : Nat) : Val → Act κ σ (Packed s)
  | .i32 x => pure (.i32 x)
  | .i64 x => pure (.i64 x)
  | .f32 x => pure (.f32 x)
  | .f64 x => pure (.f64 x)
  | .funcref none => pure (.funcref none)
  | .funcref (some h) => do return .funcref (some (← Act.funcPlace s h))
  | .externref none => pure (.externref none)
  | .externref (some o) => do return .externref (some (← Act.make (·.newOrigin o)))

/-- Packs values in order. If one of them panics, those before it are released. -/
def packAll (s : Nat) : List Val → Act κ σ (List (Packed s))
  | [] => pure []
  | v :: vs => do
    let p ← pack s v
    let ps ← Act.onUnwind (Act.releasePacked p) (packAll s vs)
    return p :: ps

/-- Unpacks a value for the host side of a store. -/
def unpack (s : Nat) {t : Nat} : Packed t → Act κ σ Val
  | .i32 x => pure (.i32 x)
  | .i64 x => pure (.i64 x)
  | .f32 x => pure (.f32 x)
  | .f64 x => pure (.f64 x)
  | .funcref none => pure (.funcref none)
  | .funcref (some i) => do
    return .funcref (some (← Act.make (·.newHandle s (.item t (.func i)))))
  | .externref none => pure (.externref none)
  | .externref (some g) => do return .externref (← Act.make (·.retainObjectOf g))

/-- Unpacks values in order. -/
def unpackAll (s : Nat) {t : Nat} : List (Packed t) → Act κ σ (List Val)
  | [] => pure []
  | p :: ps => do
    let v ← unpack s p
    let vs ← unpackAll s ps
    return v :: vs

/-! ## The engine's side -/

/-- A store takes a copy of an origin and keeps it. -/
def World.hold (w : World κ σ) (s g : Nat) : World κ σ :=
  (w.retainOrigin g).modifyStore s fun c => { c with held := c.held ++ [g] }

/-- A copy of an origin that a store holds, if it does. -/
def World.copyHeld (w : World κ σ) (s g : Nat) : Bool × World κ σ :=
  if (w.stores[s]?).any (·.held.contains g) then (true, w.retainOrigin g) else (false, w)

/-- The engine takes a copy of a packed value into a store. -/
def adopt (s : Nat) {t : Nat} : Packed t → Act κ σ Guest.Value
  | .i32 x => pure (.i32 x)
  | .i64 x => pure (.i64 x)
  | .f32 x => pure (.f32 x)
  | .f64 x => pure (.f64 x)
  | .funcref none => pure (.ref (.func none))
  | .funcref (some i) => do
    Act.hand s t
    return .ref (.func (some i))
  | .externref none => pure (.ref (.object none))
  | .externref (some g) => do
    Act.update (·.hold s g)
    return .ref (.object (some g))

/-- The engine takes copies of packed values. -/
def adoptAll (s : Nat) {t : Nat} : List (Packed t) → Act κ σ (List Guest.Value)
  | [] => pure []
  | p :: ps => do
    let v ← adopt s p
    let vs ← adoptAll s ps
    return v :: vs

/-- The engine hands out a packed copy of a value in a store; it has none for vectors. -/
def expose (s : Nat) : Guest.Value → Act κ σ (Except EngineFault (Packed s))
  | .i32 x => pure (.ok (.i32 x))
  | .i64 x => pure (.ok (.i64 x))
  | .f32 x => pure (.ok (.f32 x))
  | .f64 x => pure (.ok (.f64 x))
  | .v128 _ => pure (.error .unsupportedValue)
  | .ref (.func i) => pure (.ok (.funcref i))
  | .ref (.object none) => pure (.ok (.externref none))
  | .ref (.object (some g)) => do
    if ← Act.make (·.copyHeld s g) then return .ok (.externref (some g)) else Act.abort .stuck

/-- The engine hands out packed copies of values, or releases those it has made when one of the
values has none. -/
def exposeAll (s : Nat) : List Guest.Value → Act κ σ (Except EngineFault (List (Packed s)))
  | [] => pure (.ok [])
  | v :: vs => do
    match ← expose s v with
    | .error e => return .error e
    | .ok p =>
      match ← exposeAll s vs with
      | .error e =>
        Act.releasePacked p
        return .error e
      | .ok ps => return .ok (p :: ps)

end WasmHost.Host
