import WasmHost.Error

/-!
# Failures of the engine

A request to the engine fails for one of three reasons: the engine trapped, a host function raised a
trap, or the engine refused something. The frames that were active when it failed travel with it.
`Failure.toError` decides what the embedder sees: the first two are always traps, and a refusal is
one exactly if guest code was running.
-/

namespace WasmHost.Guest

/-- Why a request failed. -/
inductive Reason where
  | trap (cause : TrapCause)
  | hostTrap (message : String)
  | refusal (fault : EngineFault)
  deriving DecidableEq, Repr

/-- A reason, and the guest frames that were active, innermost first. -/
structure Failure where
  reason : Reason
  frames : List Frame
  deriving DecidableEq, Repr

namespace Failure

/-- A listing of frames, one on each line. -/
def listing (frames : List Frame) : String :=
  "error while executing at wasm backtrace:\n" ++
    String.intercalate "\n" (frames.zipIdx.map fun p => Frame.listing p.2 p.1)

/-- The message of a failure. -/
def message (f : Failure) : String :=
  match f.reason with
  | .trap cause => cause.message
  | .hostTrap m => m
  | .refusal fault =>
    if f.frames.isEmpty then fault.message else listing f.frames ++ ": " ++ fault.message

/-- The code of a failure: only traps of the engine can have one. -/
def code? (f : Failure) : Option TrapCode :=
  match f.reason with
  | .trap cause => cause.code?
  | _ => none

/-- The error an embedder is given. -/
def toError (f : Failure) : Error :=
  match f.reason, f.frames with
  | .refusal fault, [] => .engine fault
  | _, frames => .trap ⟨f.message, f.code?, frames⟩

end Failure

end WasmHost.Guest
