import WasmHost.Proofs.OperationChanges
import WasmHost.Proofs.Steps

/-!
# What a step can do

Most steps have nothing to do with host objects, with what linkers define, or with logs. This module
lists those that have, as the effects of steps. `Act.Confined` says of an action that each of its steps
has one of certain effects and no other, whatever the world is that the step is taken in; so what those
effects never do to a world, no run of the action does. Every change has one effect at most, so what is
known of the changes of an action is enough to tell its effects.

A change is a function on worlds, and most changes are of no concern to someone who wants to know
about host objects. An effect is a change seen from there: the same name for all changes that do the
same to objects, origins, definitions and logs, and `nothing` for those that do nothing to them. Of
forty changes a dozen effects remain.

That a step has an effect "and no other, whatever the world is" is a strong thing to say, and it is
needed in this strength. `Covering` applies a step to worlds that nobody reaches; a fact about steps
in reached worlds would be of no use there.
-/

namespace WasmHost.Host

open Act

variable {κ σ α β : Type}

/-! ## Effects

`Apart` is an equivalence between worlds that differ in nothing that effects are about. Shares of
linkers are excepted, as they change whenever a linker is borrowed. -/

/-- What a step does to host objects, origins, definitions and logs. -/
inductive Effect where
  | nothing
  | retainObject (o : ObjectId)
  | retainObjectOf (g : Nat)
  | dismissObject (o : ObjectId)
  | newOrigin (o : ObjectId)
  | hold (s g : Nat)
  | copyHeld (s g : Nat)
  | dismissOrigin (g : Nat)
  | newObject (data : HostData) (captures : List Wrapper)
  | define (l : Nat) (module name : String) (item : Item)
  | allowShadowing (l : Nat) (allow : Bool)
  | newLog
  | logLine (sink : Nat) (entry : LogEntry)

namespace Effect

/-- The world after a step that has an effect and no other. -/
def apply (w : World κ σ) : Effect → World κ σ
  | nothing => w
  | retainObject o => w.retainObject o
  | retainObjectOf g => (w.retainObjectOf g).2
  | dismissObject o => (w.dismissObject o).2
  | newOrigin o => (w.newOrigin o).2
  | hold s g => w.hold s g
  | copyHeld s g => (w.copyHeld s g).2
  | dismissOrigin g => (w.dismissOrigin g).2
  | newObject data captures => (w.newObject data captures).2
  | define l module name item => (w.define l module name item).2
  | allowShadowing l allow =>
    { w with linkers := w.linkers.modify l fun c => { c with shadowing := allow } }
  | newLog => w.newLog.2
  | logLine sink entry => w.logLine sink entry

/-- An effect that comes with the passing of values. -/
def Routine : Effect → Prop
  | newObject .. | define .. | allowShadowing .. | newLog | logLine .. => False
  | _ => True

/-- Some effects are allowed, among them those that come with the passing of values. -/
class Lenient (P : Effect → Prop) : Prop where
  routine : ∀ e : Effect, e.Routine → P e

end Effect

namespace World

variable {w w' w'' : World κ σ}

/-- Host objects, origins and logs are the same, and linkers define the same. -/
structure Apart (w w' : World κ σ) : Prop where
  objects : w'.objects = w.objects
  origins : w'.origins = w.origins
  logs : w'.logs = w.logs
  linkers : ∀ (l : Nat) c, w.linkers[l]? = some c → ∃ c', w'.linkers[l]? = some c' ∧
    c'.definitions = c.definitions ∧ c'.shadowing = c.shadowing

namespace Apart

theorem of_eq (hobjects : w'.objects = w.objects) (horigins : w'.origins = w.origins)
    (hlogs : w'.logs = w.logs) (hlinkers : w'.linkers = w.linkers) : w.Apart w' :=
  ⟨hobjects, horigins, hlogs, fun _ c h => ⟨c, hlinkers ▸ h, rfl, rfl⟩⟩

theorem refl (w : World κ σ) : w.Apart w := of_eq rfl rfl rfl rfl

theorem trans (h : w.Apart w') (h' : w'.Apart w'') : w.Apart w'' where
  objects := h'.objects.trans h.objects
  origins := h'.origins.trans h.origins
  logs := h'.logs.trans h.logs
  linkers l c hc := by
    obtain ⟨c', hc', hd, hs⟩ := h.linkers l c hc
    obtain ⟨c'', hc'', hd', hs'⟩ := h'.linkers l c' hc'
    exact ⟨c'', hc'', hd'.trans hd, hs'.trans hs⟩

/-- The shares of a linker change. -/
theorem modifyLinker (w : World κ σ) (l : Nat) (f : Nat → Nat) :
    w.Apart { w with linkers := w.linkers.modify l fun c => { c with shares := f c.shares } } where
  objects := rfl
  origins := rfl
  logs := rfl
  linkers i c hc := by
    by_cases hi : i = l
    · subst hi
      exact ⟨{ c with shares := f c.shares }, getElem?_modify_self _ hc, rfl, rfl⟩
    · exact ⟨c, (getElem?_modify_of_ne _ _ i hi).trans hc, rfl, rfl⟩

end Apart

/-! ### Steps that have no effect

One for each change that is more than a replacement of fields which nobody asks for here. -/

theorem reclaim_apart (w : World κ σ) (h : Handle) : w.Apart (w.reclaim h) := by
  unfold reclaim
  split <;> exact .of_eq rfl rfl rfl rfl

theorem beginDrain_apart (w : World κ σ) (s : Nat) : w.Apart (w.beginDrain s).2 := by
  rw [beginDrain_eq]
  exact .of_eq rfl rfl rfl rfl

theorem reclaimNext_apart (w : World κ σ) (s : Nat) : w.Apart (w.reclaimNext s) := by
  unfold reclaimNext
  split
  · exact .refl w
  · refine .trans ?_ (reclaim_apart _ _)
    exact .of_eq rfl rfl rfl rfl

theorem drain_apart (w : World κ σ) (s : Nat) : w.Apart (w.drain s) :=
  drain_induction s (w.beginDrain_apart s) fun w' h => h.trans (w'.reclaimNext_apart s)

theorem releaseEngine_apart (w : World κ σ) (e : Nat) : w.Apart (w.releaseEngine e) := by
  unfold releaseEngine
  split
  · exact .refl w
  · dsimp only
    split <;> exact .of_eq rfl rfl rfl rfl

theorem dismissStore_apart (w : World κ σ) (s : Nat) : w.Apart (w.dismissStore s).2 := by
  unfold dismissStore
  split
  · exact .refl w
  · have hmodify : ∀ (w : World κ σ) (f : StoreCell → StoreCell), w.Apart (w.modifyStore s f) :=
      fun w f => .of_eq rfl rfl rfl rfl
    refine .trans ?_ (hmodify _ _)
    split
    · exact w.drain_apart s
    · exact .refl w

theorem retire_apart (w : World κ σ) (h : Handle) : w.Apart (w.retire h).2 := by
  have henqueue : ∀ (w : World κ σ) (s : Nat), w.Apart (w.enqueue s h) := by
    intro w s
    unfold enqueue
    split <;> exact .of_eq rfl rfl rfl rfl
  unfold retire
  split
  · exact .of_eq rfl rfl rfl rfl
  · split
    · exact .of_eq rfl rfl rfl rfl
    · dsimp only
      split
      · refine .trans ?_ (henqueue _ _)
        exact .of_eq rfl rfl rfl rfl
      · exact .of_eq rfl rfl rfl rfl

theorem reclaimSole_apart (w : World κ σ) (h : Handle) : w.Apart (w.reclaimSole h).2 := by
  unfold reclaimSole
  split
  · exact .refl w
  · split
    · exact w.reclaim_apart h
    · exact .refl w

theorem dismissModule_apart (w : World κ σ) (m : Nat) : w.Apart (w.dismissModule m).2 := by
  unfold dismissModule
  split <;> exact .of_eq rfl rfl rfl rfl

theorem dismissLinker_apart (w : World κ σ) (l : Nat) : w.Apart (w.dismissLinker l).2 := by
  unfold dismissLinker
  split
  · exact .refl w
  · exact .modifyLinker w l (· - 1)

theorem unregister_apart (w : World κ σ) (key : Nat) : w.Apart (w.unregister key).2 := by
  unfold unregister
  split <;> exact .of_eq rfl rfl rfl rfl

theorem vacate_apart (w : World κ σ) (s : Nat) : w.Apart (w.vacate s).2 := by
  unfold vacate
  split <;> exact .of_eq rfl rfl rfl rfl

theorem onGuest_apart (w : World κ σ) (s : Nat) (f : Guest.Store → α × Guest.Store) :
    w.Apart (w.onGuest s f).2 := by
  unfold onGuest
  split <;> exact .of_eq rfl rfl rfl rfl

theorem allot_apart (w : World κ σ) (s : Nat)
    (f : Guest.Store → Except EngineFault (Guest.Place × Guest.Store)) :
    w.Apart (w.allot s f).2 := by
  unfold allot
  split <;> exact .of_eq rfl rfl rfl rfl

theorem newExport_apart (w : World κ σ) (s : Nat) (place : Guest.Place) :
    w.Apart (w.newExport s place).2 := by
  unfold newExport
  split <;> exact .of_eq rfl rfl rfl rfl

theorem newHostFunction_apart (w : World κ σ) (s key : Nat) (type : Signature)
    (r : Registration κ) : w.Apart (w.newHostFunction s key type r).2 := by
  unfold newHostFunction
  split <;> exact .of_eq rfl rfl rfl rfl

theorem newLinker_apart (w : World κ σ) (engine : Nat) : w.Apart (w.newLinker engine).2 where
  objects := rfl
  origins := rfl
  logs := rfl
  linkers l c hc := by
    have hlt := (Array.getElem?_eq_some_iff.mp hc).1
    exact ⟨c, (getElem?_push_of_ne _ _ l (Nat.ne_of_lt hlt)).trans hc, rfl, rfl⟩

theorem stashPanic_apart (w : World κ σ) (s : Nat) (p : Payload) : w.Apart (w.stashPanic s p) := by
  unfold stashPanic
  split <;> exact .of_eq rfl rfl rfl rfl

theorem retainItems_apart (w : World κ σ) (items : List Item) : w.Apart (w.retainItems items) := by
  induction items generalizing w with
  | nil => exact .refl w
  | cons item items ih =>
    have hretain : w.Apart (w.retainHandle item.handle) := .of_eq rfl rfl rfl rfl
    exact hretain.trans (ih _)

theorem takeItems_apart (w : World κ σ) (l : Nat)
    (choose : Definitions → Except Error (List Item)) : w.Apart (w.takeItems l choose).2 := by
  unfold takeItems
  split
  · exact .refl w
  · exact .refl w
  · exact w.retainItems_apart _

theorem surrender_apart (w : World κ σ) (s g : Nat) : w.Apart (w.surrender s g).2 := by
  unfold surrender
  split <;> exact .of_eq rfl rfl rfl rfl

end World

/-- A step has one of certain effects, and no other. -/
def Effect.Only (P : Effect → Prop) (g : World κ σ → World κ σ) : Prop :=
  ∃ e, P e ∧ ∀ w, (e.apply w).Apart (g w)

/-- A change has one effect, and one that any operation may come with has none but those that come with
the passing of values. -/
theorem Change.exists_effect (c : Change κ σ) :
    Effect.Only (fun e => c.Routine → e.Routine) c.apply := by
  have apart {g : World κ σ → World κ σ} (h : ∀ w : World κ σ, w.Apart (g w)) :
      Effect.Only (fun e => c.Routine → e.Routine) g := ⟨.nothing, fun _ => trivial, h⟩
  have effect {g : World κ σ → World κ σ} (e : Effect) (he : c.Routine → e.Routine)
      (h : ∀ w, e.apply w = g w) : Effect.Only (fun e => c.Routine → e.Routine) g :=
    ⟨e, he, fun w => h w ▸ .refl _⟩
  cases c with
  -- These are effects themselves.
  | dismissObject o => exact effect (.dismissObject o) id fun _ => rfl
  | dismissOrigin g => exact effect (.dismissOrigin g) id fun _ => rfl
  | retainObjectOf g => exact effect (.retainObjectOf g) id fun _ => rfl
  | hold s g => exact effect (.hold s g) id fun _ => rfl
  | copyHeld s g => exact effect (.copyHeld s g) id fun _ => rfl
  | newObject data captures => exact effect (.newObject data captures) id fun _ => rfl
  | newOrigin o => exact effect (.newOrigin o) id fun _ => rfl
  | newLog => exact effect .newLog id fun _ => rfl
  | allowShadowing l allow => exact effect (.allowShadowing l allow) id fun _ => rfl
  | define l module name item => exact effect (.define l module name item) id fun _ => rfl
  | logLine sink entry => exact effect (.logLine sink entry) id fun _ => rfl
  | retainCapture c =>
    cases c with
    | object o => exact effect (.retainObject o) id fun _ => rfl
    | linker l => exact apart fun w => .modifyLinker w l (· + 1)
    | _ => exact apart fun w => .of_eq rfl rfl rfl rfl
  -- The others are apart from all effects.
  | beginDrain s => exact apart fun w => w.beginDrain_apart s
  | reclaimNext s => exact apart fun w => w.reclaimNext_apart s
  | reclaimSole h => exact apart fun w => w.reclaimSole_apart h
  | retire h => exact apart fun w => w.retire_apart h
  | releaseEngine e => exact apart fun w => w.releaseEngine_apart e
  | dismissStore s => exact apart fun w => w.dismissStore_apart s
  | dismissModule m => exact apart fun w => w.dismissModule_apart m
  | dismissLinker l => exact apart fun w => w.dismissLinker_apart l
  | vacate s => exact apart fun w => w.vacate_apart s
  | surrender s g => exact apart fun w => w.surrender_apart s g
  | takeItems l choose => exact apart fun w => w.takeItems_apart l choose
  | newLinker e => exact apart fun w => w.newLinker_apart e
  | newExport s place => exact apart fun w => w.newExport_apart s place
  | newHostFunction s key type r => exact apart fun w => w.newHostFunction_apart s key type r
  | allot s f => exact apart fun w => w.allot_apart s f
  | unregister key => exact apart fun w => w.unregister_apart key
  | stashPanic s p => exact apart fun w => w.stashPanic_apart s p
  | onGuest s f => exact apart fun w => w.onGuest_apart s _
  | _ => exact apart fun w => .of_eq rfl rfl rfl rfl

instance {P : Effect → Prop} [Effect.Lenient P] :
    Change.Lenient (Effect.Only P : (World κ σ → World κ σ) → Prop) where
  routine c hc := by
    obtain ⟨e, he, h⟩ := c.exists_effect
    exact ⟨e, Effect.Lenient.routine e (he hc), h⟩

/-! ## Actions

`Confined` is `Every` of having one of certain effects; that the two are the same is `confined_iff`.
It has a name of its own because it is what statements are made with. -/

/-- Each step of an action has one of certain effects, and no other. -/
def Act.Confined (P : Effect → Prop) : Act κ σ α → Prop
  | .done _ => True
  | .step f next =>
    (∃ e, P e ∧ ∀ w, (e.apply w).Apart (f w).2) ∧ ∀ b, (next b).Confined P

/-- The closures of a host have certain effects only. -/
def Confined (P : Effect → Prop) (host : Runner κ σ) : Prop :=
  ∀ code captures caller args, (host code captures caller args).Confined P

namespace Act.Confined

variable {P : Effect → Prop} {m : Act κ σ α}

theorem pure {a : α} : (Pure.pure a : Act κ σ α).Confined P := trivial

/-- What every effect of a step does to worlds, a run does if it can be done again and again. By
induction on the action. -/
theorem run {R : World κ σ → World κ σ → Prop} (hm : m.Confined P) (hrefl : ∀ w, R w w)
    (htrans : ∀ {w w' w''}, R w w' → R w' w'' → R w w'')
    (hstep : ∀ e, P e → ∀ w w' : World κ σ, (e.apply w).Apart w' → R w w') (w : World κ σ) :
    R w (m.run w).2 := by
  -- A run does what its first step does, and then what a run of the rest does.
  induction m generalizing w with
  | done r => exact hrefl w
  | step f next ih =>
    obtain ⟨e, he, hf⟩ := hm.1
    exact htrans (hstep e he w _ (hf w)) (ih _ (hm.2 _) _)

end Act.Confined

variable {P : Effect → Prop}

theorem Act.confined_iff {m : Act κ σ α} : m.Confined P ↔ m.Every (Effect.Only P) := by
  induction m with
  | done r => exact .rfl
  | step f next ih => exact and_congr .rfl (forall_congr' ih)

theorem Act.Confined.of_every {m : Act κ σ α} (h : m.Every (Effect.Only P)) : m.Confined P :=
  confined_iff.mpr h

/-- So it is with the closures of a host. -/
theorem Confined.every {host : Runner κ σ} (h : Confined P host) : Every (Effect.Only P) host :=
  fun code captures caller args => Act.confined_iff.mp (h code captures caller args)

/-! ### Operations

From the lists of their changes. -/

section Operations

variable [Effect.Lenient P]

theorem releaseHandle_confined (h : Handle) : (releaseHandle h : Act κ σ Unit).Confined P :=
  .of_every (releaseHandle_every h)

theorem releaseItems_confined (items : List Item) :
    (releaseItems items : Act κ σ Unit).Confined P := .of_every (releaseItems_every items)

theorem handOut_confined (s : Nat) (place : Guest.Place) :
    (handOut s place : Act κ σ (Option Item)).Confined P := .of_every (handOut_every s place)

theorem Func.create_confined (s : Nat) (type : Signature) (code : κ) (captures : List Capture) :
    (Func.create s type code captures : Act κ σ Handle).Confined P :=
  .of_every (Func.create_every s type code captures)

theorem Instance.exports_confined (s : Nat) (i : Handle) :
    (Instance.exports s i : Act κ σ (List (String × Item))).Confined P :=
  .of_every (Instance.exports_every s i)

theorem Linker.get?_confined (l : Nat) (module name : String) :
    (Linker.get? l module name : Act κ σ (Option Item)).Confined P :=
  .of_every (Linker.get?_every l module name)

theorem Linker.instantiate_confined {host : Runner κ σ} (hhost : Confined P host) (s l module : Nat) :
    (Linker.instantiate host s l module).Confined P :=
  .of_every (Linker.instantiate_every (Confined.every hhost) s l module)

end Operations

end WasmHost.Host
