import WasmHost.Host.Call

/-!
# Engines and stores, and what limits guest code in them

A store is made on an engine, and the limits of an execution are set on the store. Fuel can only be
set where the engine counts it. A deadline is a number of ticks from the engine's present epoch.
-/

namespace WasmHost.Host

open Act

variable {κ σ : Type}

namespace Engine

/-- Makes an engine, unless no engine can be built for the configuration. -/
def create (config : EngineConfig) : Act κ σ Nat := do
  ofExcept config.check
  make (·.newEngine config)

/-- Lets time pass for the stores of an engine. -/
def incrementEpoch (e : Nat) : Act κ σ Unit :=
  update fun w => { w with engines := w.engines.modify e fun c => { c with epoch := c.epoch + 1 } }

end Engine

namespace Store

/-- The engine of a store counts fuel. -/
def countsFuel (s : Nat) : Act κ σ Bool := do
  return (← engineOf s).any (·.config.consumeFuel)

/-- Sets the fuel that is left. -/
def setFuel (s : Nat) (fuel : Nat) : Act κ σ Unit := do
  context s
  if !(← countsFuel s) then fail (.engine .fuelNotConfigured)
  onGuest s fun g => ((), g.setFuel fuel)

/-- The fuel that is left. -/
def fuel (s : Nat) : Act κ σ Nat := do
  context s
  if !(← countsFuel s) then fail (.engine .fuelNotConfigured)
  return (← guest s).fuelLeft

/-- Interrupts guest code once as many ticks have passed. -/
def setDeadline (s : Nat) (ticks : Nat) : Act κ σ Unit := do
  context s
  let now ← epoch s
  onGuest s fun g => ((), { g with deadline := now + ticks })

/-- Makes a store. -/
def create (engine : Nat) : Act κ σ Nat := make (·.newStore engine)

/-- Makes a store with limits, if its engine can enforce them. -/
def createWith (engine : Nat) (limits : ExecutionConfig) : Act κ σ Nat := do
  let config := ((← world).engines[engine]?.map (·.config)).getD default
  ofExcept (config.supports limits)
  let s ← create engine
  onUnwind (deleteStore s) do
    if let some n := limits.fuel then setFuel s n.toNat
    if let some n := limits.epochDeadline then setDeadline s n.toNat
    return s

/-- How a store is shown: with the number of handles that wait. -/
def debugText (pending : Nat) : String :=
  "Store \x7b pending_reclaims: " ++ toString pending ++ ", .. \x7d"

end Store

end WasmHost.Host
