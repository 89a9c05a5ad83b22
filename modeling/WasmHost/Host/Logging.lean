import WasmHost.Host.Linker
import WasmHost.Host.Typed

/-!
# The closures of the library

Besides the embedder's own, there are two closures: one that does nothing, and one through which
guests log lines. A guest passes the severity of a line with the place and length of its text in the
memory it exports as `memory`; a line that is not there is passed over.
-/

namespace WasmHost.Host

open Act

/-- The code of a closure: one of the library's, or the embedder's. -/
inductive Code (κ : Type) where
  | idle
  | log (sink : Nat)
  | custom (code : κ)

variable {κ σ : Type}

/-- The text of a line in a memory, if all of it is there. -/
def lineAt (m : Guest.Memory) (offset len : Nat) : Option String :=
  (m.read? offset len).map fun bytes => GuestLog.decode ⟨bytes.toArray⟩

/-- Adds a line to a log. -/
def World.logLine (w : World κ σ) (sink : Nat) (entry : LogEntry) : World κ σ :=
  { w with logs := w.logs.modify sink (·.push entry) }

/-- Takes a line from a guest. -/
def logLine (sink : Nat) (caller : Caller) (level ptr len : BitVec 32) : Act κ σ Unit := do
  if ptr.toInt < 0 ∨ len.toInt < 0 then return ()
  match ← caller.getExport "memory" with
  | none => return ()
  | some item =>
    ensuring (releaseHandle item.handle) do
      if item.kind ≠ .memory then return ()
      match ← Memory.withData caller.store item.handle
          fun m => (lineAt m ptr.toNat len.toNat, m) with
      | none => return ()
      | some message => update (·.logLine sink ⟨.ofNumber level.toInt, message⟩)

/-- The typed closure through which guests log. -/
def logClosure (sink : Nat) : TypedClosure κ σ where
  params := [.i32, .i32, .i32]
  results := []
  run := fun caller (level, ptr, len, _) => do
    logLine sink caller level ptr len
    return .ok ()

/-- The meaning of all closures, given that of the embedder's. -/
def Code.host
    (custom : κ → List Capture → Caller → List Val → Act (Code κ) σ (Except Trap (List Val))) :
    Runner (Code κ) σ := fun code captures caller args =>
  match code with
  | .idle => pure (.ok [])
  | .log sink => (logClosure sink).invoke caller args
  | .custom code => custom code captures caller args

/-- Defines the closure through which guests log as `env.log`. -/
def registerLogging (s l sink : Nat) : Act (Code κ) σ Unit :=
  Linker.defineFunc s l "env" "log" (logClosure (κ := κ) (σ := σ) sink).type (.log sink) []

/-- Defines all standard closures. -/
def registerAll (s l sink : Nat) : Act (Code κ) σ Unit := registerLogging s l sink

end WasmHost.Host
