import WasmHost.Proofs.Effects
import WasmHost.Proofs.Interleavings
import WasmHost.Proofs.ProgramChanges

/-!
# The effects of programs

Whatever a program asks for, each step of it has one effect of those that were listed. So this is all
that threads ever do to host objects, definitions and logs, and what every effect keeps, no run of
threads changes.

There is nothing to assume of programs here: a change that is asked for has an effect as well, so
*all* changes have one. The restriction to routine effects is of use for single operations only, of
which one wants to know that they define nothing and log nothing.
-/

namespace WasmHost.Host

variable {κ : Type}

/-- Every effect. -/
abbrev Effect.Any : Effect → Prop := fun _ => True

instance {σ : Type} : Change.Permissive (Effect.Only Effect.Any : (World κ σ → World κ σ) → Prop) where
  all c := by
    obtain ⟨e, -, h⟩ := c.exists_effect
    exact ⟨e, trivial, h⟩

namespace Threads

variable {t : Threads κ}

/-- Every step that any thread may yet take has one of the known effects. -/
def Confined (t : Threads κ) : Prop := ∀ m ∈ t.rest, m.Confined Effect.Any

theorem confined_iff : t.Confined ↔ t.Every (Effect.Only Effect.Any) :=
  forall₂_congr fun _ _ => Act.confined_iff

/-- A step of any thread has one of the known effects. -/
theorem Confined.step (h : t.Confined) (i : Nat) :
    (t.step i).Confined ∧ ∃ e : Effect, (e.apply t.world).Apart (t.step i).world := by
  obtain ⟨hstep, g, ⟨e, -, he⟩, hworld⟩ := (confined_iff.mp h).step i
  exact ⟨confined_iff.mpr hstep, e, hworld ▸ he t.world⟩

theorem Confined.run (h : t.Confined) (order : List Nat) : (t.run order).Confined :=
  confined_iff.mpr ((confined_iff.mp h).run order)

end Threads

namespace Embedder

variable (embedder : Embedder κ) (depth : Nat) (programs : List (Program κ Unit))

theorem confined_start : (embedder.start depth programs).Confined :=
  Threads.confined_iff.mpr (embedder.every_start depth programs)

theorem confined_startCollected (collections : List (List (Nat × Nat))) :
    (embedder.startCollected depth programs collections).Confined :=
  Threads.confined_iff.mpr (embedder.every_startCollected depth programs collections)

end Embedder

end WasmHost.Host
