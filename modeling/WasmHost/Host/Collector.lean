import WasmHost.Host.Embedder

/-!
# The collector of an engine

What guest code can no longer reach, the engine lets go of when it likes, or else when the store is
deleted; either way it lets go of each copy of an origin once. The collector works in steps of its
own, between those of any threads. Nothing is said of how it chooses: it may let go of any copy that
a store holds.
-/

namespace WasmHost.Host

variable {κ σ : Type}

/-- A store gives up a copy of an origin, if it holds one. -/
def World.surrender (w : World κ σ) (s g : Nat) : Bool × World κ σ :=
  if (w.stores[s]?).any (·.held.contains g) then
    (true, w.modifyStore s fun c => { c with held := c.held.erase g })
  else (false, w)

namespace Act

/-- The engine lets go of a copy of an origin that a store holds. -/
def collect (s g : Nat) : Act κ σ Unit := do
  if ← make (·.surrender s g) then releaseOrigin g

/-- The engine lets go of copies of origins in order, each given with its store. -/
def collectAll : List (Nat × Nat) → Act κ σ Unit
  | [] => pure ()
  | (s, g) :: rest => do
    collect s g
    collectAll rest

end Act

/-- Programs of an embedder at their start, and what collectors will let go of while they run. -/
def Embedder.startCollected {κ : Type} (embedder : Embedder κ) (depth : Nat)
    (programs : List (Program κ Unit)) (collections : List (List (Nat × Nat))) : Threads κ :=
  let t := embedder.start depth programs
  { t with rest := t.rest ++ collections.map Act.collectAll }

end WasmHost.Host
