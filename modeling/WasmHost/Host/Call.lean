import WasmHost.Host.Marshal
import WasmHost.Host.Wire
import WasmHost.Guest.Instantiation

/-!
# Calls

Host code calls functions of a store, and guest code calls host closures back. A closure sees
unpacked arguments and gives values that are checked against its type. If it panics, the payload is
kept with the store while a trap takes its place in the guest, and whoever called the guest panics
with that payload once the trap has come through.

The meaning of closures is a parameter, a `Runner`: it runs the code of a closure on behalf of a caller.
-/

namespace WasmHost.Host

/-- On whose behalf a closure runs: the store, and the instance whose code called it, if any. -/
structure Caller where
  store : Nat
  instance_ : Option Nat
  deriving DecidableEq, Repr

/-- The meaning of closures: for code, what it keeps alive, caller and arguments an action that gives
values or a trap. The arguments belong to whoever runs the closure, the values to whoever gets
them. -/
def Runner (κ σ : Type) : Type 1 :=
  κ → List Capture → Caller → List Val → Act κ σ (Except Trap (List Val))

/-- The trap that takes the place of a panic. -/
def panicMessage : String := "host function panicked"

variable {κ σ : Type}

/-! ## Stores -/

namespace Act

/-- The guest part of a store. -/
def guest (s : Nat) : Act κ σ Guest.Store := do orAbort .stuck ((← world).guest? s)

/-- Changes the guest part of a store. -/
def onGuest {α : Type} (s : Nat) (f : Guest.Store → α × Guest.Store) : Act κ σ α := do
  orAbort .stuck (← make (·.onGuest s f))

/-- The epoch of the engine of a store. -/
def epoch (s : Nat) : Act κ σ Nat := do
  let w ← world
  return (((w.stores[s]?).bind fun c => w.engines[c.engine]?).map (·.epoch)).getD 0

/-- The engine of a store. -/
def engineOf (s : Nat) : Act κ σ (Option EngineCell) := do
  let w ← world
  return (w.stores[s]?).bind fun c => w.engines[c.engine]?

end Act

open Act

/-- Keeps the payload of a panic with a store. -/
def World.stashPanic (w : World κ σ) (s : Nat) (p : Payload) : World κ σ :=
  (if ((w.stores[s]?).bind (·.panic)).isSome then w.fault (.overwritten s) else w).modifyStore s
    fun c => { c with panic := some p }

/-- Takes the payload of a panic from a store. -/
def World.takePanic (w : World κ σ) (s : Nat) : Option Payload × World κ σ :=
  ((w.stores[s]?).bind (·.panic), w.modifyStore s fun c => { c with panic := none })

/-- Panics with the payload a store keeps, if it keeps one. -/
def resumePanic (s : Nat) : Act κ σ Unit := do
  match ← make (·.takePanic s) with
  | some p => Act.panic p
  | none => return ()

/-! ## Checks at the boundary -/

/-- The first way in which arguments do not fit parameters. -/
def checkKindsFrom (index : Nat) : List Kind → List Val → Option (Nat × Kind × Kind)
  | k :: ks, v :: vs =>
    if v.kind = k then checkKindsFrom (index + 1) ks vs else some (index, k, v.kind)
  | _, _ => none

/-- Arguments fit the parameters of a type: in number, and each in kind. -/
def checkParams (type : Signature) (args : List Val) : Except Error Unit :=
  if args.length ≠ type.params.length then
    .error (.argumentCount type.params.length args.length)
  else
    match checkKindsFrom 0 type.params args with
    | some (index, expected, actual) => .error (.argumentType index expected actual)
    | none => .ok ()

/-- What is wrong with the values a closure gave, if anything is. -/
def checkResults (type : Signature) (values : List Val) : Option String :=
  if values.length ≠ type.results.length then
    some ("host function returned " ++ toString values.length ++ " results, expected " ++
      toString type.results.length)
  else
    (checkKindsFrom 0 type.results values).map fun (index, expected, actual) =>
      "host function result " ++ toString index ++ " has kind " ++ actual.text ++ ", expected " ++
        expected.text

/-! ## Calling closures -/

/-- Runs a closure on packed arguments, and packs the values it gives. -/
def runClosure (host : Runner κ σ) (r : Registration κ) (instance_ : Option Nat) {t : Nat}
    (args : List (Packed t)) : Act κ σ (Except String (List (Packed r.store))) := do
  let params ← unpackAll r.store args
  ensuring (releaseVals params) do
    match ← host r.code r.captures ⟨r.store, instance_⟩ params with
    | .error trap => return .error trap.message
    | .ok values =>
      ensuring (releaseVals values) do
        match checkResults r.type values with
        | some message => return .error message
        | none => return .ok (← packAll r.store values)

/-- What the engine does to call a host function: the closure is looked up under its key and run,
and a panic is kept with the store. -/
def callHost (host : Runner κ σ) (s key : Nat) (instance_ : Option Nat)
    (args : List Guest.Value) : Act κ σ (Except Guest.Reason (List Guest.Value)) := do
  match ← exposeAll s args with
  | .error fault => return .error (.refusal fault)
  | .ok packed =>
    ensuring (releasePackedAll packed) do
      match ← make (·.lookup s key (packed.map Packed.kind)) with
      | none => abort (.unregistered key)
      | some r =>
        match ← catchPanic (runClosure host r instance_ packed) with
        | .error payload =>
          update (·.stashPanic r.store payload)
          return .error (.hostTrap panicMessage)
        | .ok (.error message) => return .error (.hostTrap message)
        | .ok (.ok results) =>
          ensuring (releasePackedAll results) do
            return .ok (← adoptAll s results)

/-! ## Running guest code -/

/-- A bound on the instructions and host calls of one run; no run of interest comes near it. -/
def workBound : Nat := Nat.pow 2 62

/-- Bytes of stack that a host call takes. -/
def hostStackCost : Nat := 8192

/-- The frames that count as active for a thread: its own, or those already suspended if guest code
is not running. -/
def activeFrames (g : Guest.Store) (thread : List Guest.Activation) : List Frame :=
  if thread.isEmpty then g.exited else Guest.frames g thread

/-- Runs a thread to its end, calling closures as it asks for them. `default` is the instance on
whose behalf a host function is called that no guest code called. -/
def runThread (host : Runner κ σ) (s : Nat) (default : Option Nat) :
    Nat → (Guest.Store → Guest.Progress) → Act κ σ (Except Guest.Failure (List Guest.Value))
  | 0, _ => exhaust
  | fuel + 1, start => do
    let now ← epoch s
    let event ← onGuest s fun g =>
      let (g, event) := Guest.advance now workBound (start g)
      (event, g)
    match event with
    | .finished results => return .ok results
    | .trapped cause frames => return .error ⟨.trap cause, frames⟩
    | .stuck => abort .stuck
    | .timeout => exhaust
    | .called key _ args caller thread => do
      let active ← onGuest s fun g =>
        let active := activeFrames g thread
        (active, { g with exited := active, stackUsed := g.stackUsed + hostStackCost })
      let outcome ← callHost host s key (caller.or default) args
      match outcome with
      | .error reason =>
        let g ← guest s
        return .error ⟨reason, g.backtrace active⟩
      | .ok results =>
        runThread host s default fuel fun g =>
          Guest.resume { g with stackUsed := g.stackUsed - hostStackCost } thread results

/-- Enters guest code: the frames suspended so far are set aside, and come back at the end together
with the stack. -/
def entering {α : Type} (s : Nat) (m : Act κ σ α) : Act κ σ α := do
  let before ← onGuest s fun g => (g, { g with suspended := g.exited :: g.suspended })
  ensuring
    (update fun w => w.modifyStore s fun c =>
      { c with guest := c.guest.map fun g =>
        { g with
          exited := before.exited
          suspended := before.suspended
          stackUsed := before.stackUsed } })
    m

/-- Calls the function at a place of a store. -/
def callPlace (host : Runner κ σ) (s place : Nat) (default : Option Nat)
    (args : List Guest.Value) : Act κ σ (Except Guest.Failure (List Guest.Value)) := do
  let now ← epoch s
  entering s (runThread host s default workBound fun g => Guest.enter now none g [] place args)

/-- Ends with what a failure of the engine comes to: an error, or the panic that is behind it. -/
def raise {α : Type} (s : Nat) (f : Guest.Failure) : Act κ σ α := do
  match f.toError with
  | .engine fault => fail (.engine fault)
  | e =>
    resumePanic s
    fail e

/-! ## Functions -/

namespace Func

/-- Registers a closure and makes a function of a type on the wire out of it. If the type is
refused, the closure is finalised. -/
def register (s : Nat) (raw : Wire.RawSignature) (type : Signature) (code : κ)
    (captures : List Capture) : Act κ σ Handle := do
  let (key, r) ← make (·.register s type code captures)
  match raw.read with
  | .error fault =>
    finalize key
    fail (.engine fault)
  | .ok type => orAbort .stuck (← make (·.newHostFunction s key type r))

/-- Makes a function out of a closure. -/
def create (s : Nat) (type : Signature) (code : κ) (captures : List Capture) :
    Act κ σ Handle := do
  context s
  register s (Wire.ofSignature type) type code captures

/-- The type of the function at a place. -/
def typeAt (s place : Nat) : Act κ σ Signature := do
  return (((← guest s).funcs[place]?).map (·.type)).getD default

/-- The type of a function. -/
def type (s : Nat) (f : Handle) : Act κ σ Signature := do
  context s
  return (Wire.toldSignature (← typeAt s (← funcPlace s f))).shown

/-- Calls a function. -/
def call (host : Runner κ σ) (s : Nat) (f : Handle) (args : List Val) : Act κ σ (List Val) := do
  context s
  let place ← funcPlace s f
  ofExcept (checkParams (← typeAt s place) args)
  let packed ← packAll s args
  ensuring (releasePackedAll packed) do
    match ← callPlace host s place none (← adoptAll s packed) with
    | .error failure => raise s failure
    | .ok results =>
      match ← exposeAll s results with
      | .error fault => fail (.engine fault)
      | .ok packed =>
        ensuring (releasePackedAll packed) (unpackAll s packed)

end Func

/-- Closes an object: a handle that nothing else shares is reclaimed at once, any other loses a
share. -/
def close (s : Nat) (h : Handle) : Act κ σ Unit := do
  context s
  let _ ← onUnwind (releaseHandle h) (check s h)
  match ← make (·.reclaimSole h) with
  | some owner => releaseStore owner
  | none => releaseHandle h

end WasmHost.Host
