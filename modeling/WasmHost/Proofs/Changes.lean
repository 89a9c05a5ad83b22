import WasmHost.Host.Collector

/-!
# What a step changes

There are only so many ways in which the library changes the world, and each step that it takes is one of
them. This module lists them. `Act.Every` says of an action that each of its steps does something of a
certain sort to the world. That is said of each operation once, of any sort that the changes on the list
are of; so what is true of every change on the list is true of every step that any thread takes.

Several things are proved of all runs which no contract of the logic speaks of: that histories only
grow, that log lines stay in their order, that objects are used only while they are there, and more.
For each of them one could go through all operations and all requests. The operations are many, and
each of these properties depends on a few of the changes only. So the two are separated. Going
through the operations is done once (`OperationChanges`, `ProgramChanges`), with the property `S`
left open, and whoever has a property goes through the list of changes.

An action is a tree whose nodes are functions on worlds, and two functions are equal when they do
the same. This is why `Act.Every` asks `S` of a function and not of an element of the list: the list
is a way of proving it.
-/

namespace WasmHost.Host

variable {κ σ α β : Type}

/-! ## Changes

A change here is what remains of a step when its answer is disregarded. -/

/-- The ways in which a step may change the world. -/
inductive Change (κ σ : Type) where
  | nothing
  | fault (f : Fault)
  | user (f : σ → σ)
  -- what is let go of
  | beginDrain (s : Nat)
  | reclaimNext (s : Nat)
  | reclaimSole (h : Handle)
  | retire (h : Handle)
  | releaseEngine (e : Nat)
  | dismissStore (s : Nat)
  | dismissModule (m : Nat)
  | dismissLinker (l : Nat)
  | dismissObject (o : ObjectId)
  | dismissOrigin (g : Nat)
  | vacate (s : Nat)
  | surrender (s g : Nat)
  -- what is retained
  | retainCapture (c : Capture)
  | retainObjectOf (g : Nat)
  | hold (s g : Nat)
  | copyHeld (s g : Nat)
  | takeItems (l : Nat) (choose : Definitions → Except Error (List Item))
  -- what is made
  | newEngine (config : EngineConfig)
  | newStore (e : Nat)
  | newModule (e : Nat) (compiled : CompiledModule)
  | newLinker (e : Nat)
  | newObject (data : HostData) (captures : List Wrapper)
  | newOrigin (o : ObjectId)
  | newLog
  | newHandle (s : Nat) (target : Target)
  | newExport (s : Nat) (place : Guest.Place)
  | newHostFunction (s key : Nat) (type : Signature) (r : Registration κ)
  | allot (s : Nat) (f : Guest.Store → Except EngineFault (Guest.Place × Guest.Store))
  -- closures and their panics
  | register (s : Nat) (type : Signature) (code : κ) (captures : List Capture)
  | lookup (s key : Nat) (kinds : List Kind)
  | unregister (key : Nat)
  | stashPanic (s : Nat) (p : Payload)
  | takePanic (s : Nat)
  -- guest parts, engines, linkers and logs
  | onGuest (s : Nat) (f : Guest.Store → Guest.Store)
  | leaveGuest (s : Nat) (f : Guest.Store → Guest.Store)
  | incrementEpoch (e : Nat)
  | allowShadowing (l : Nat) (allow : Bool)
  | define (l : Nat) (module name : String) (item : Item)
  | logLine (sink : Nat) (entry : LogEntry)

namespace Change

/-- The world after a change. -/
def apply : Change κ σ → World κ σ → World κ σ
  | nothing, w => w
  | fault f, w => w.fault f
  | user f, w => { w with user := f w.user }
  | beginDrain s, w => (w.beginDrain s).2
  | reclaimNext s, w => w.reclaimNext s
  | reclaimSole h, w => (w.reclaimSole h).2
  | retire h, w => (w.retire h).2
  | releaseEngine e, w => w.releaseEngine e
  | dismissStore s, w => (w.dismissStore s).2
  | dismissModule m, w => (w.dismissModule m).2
  | dismissLinker l, w => (w.dismissLinker l).2
  | dismissObject o, w => (w.dismissObject o).2
  | dismissOrigin g, w => (w.dismissOrigin g).2
  | vacate s, w => (w.vacate s).2
  | surrender s g, w => (w.surrender s g).2
  | retainCapture c, w => w.retainCapture c
  | retainObjectOf g, w => (w.retainObjectOf g).2
  | hold s g, w => w.hold s g
  | copyHeld s g, w => (w.copyHeld s g).2
  | takeItems l choose, w => (w.takeItems l choose).2
  | newEngine config, w => (w.newEngine config).2
  | newStore e, w => (w.newStore e).2
  | newModule e compiled, w => (w.newModule e compiled).2
  | newLinker e, w => (w.newLinker e).2
  | newObject data captures, w => (w.newObject data captures).2
  | newOrigin o, w => (w.newOrigin o).2
  | newLog, w => w.newLog.2
  | newHandle s target, w => (w.newHandle s target).2
  | newExport s place, w => (w.newExport s place).2
  | newHostFunction s key type r, w => (w.newHostFunction s key type r).2
  | allot s f, w => (w.allot s f).2
  | register s type code captures, w => (w.register s type code captures).2
  | lookup s key kinds, w => (w.lookup s key kinds).2
  | unregister key, w => (w.unregister key).2
  | stashPanic s p, w => w.stashPanic s p
  | takePanic s, w => (w.takePanic s).2
  | onGuest s f, w => (w.onGuest s fun g => ((), f g)).2
  | leaveGuest s f, w => w.modifyStore s fun c => { c with guest := c.guest.map f }
  | incrementEpoch e, w =>
    { w with engines := w.engines.modify e fun c => { c with epoch := c.epoch + 1 } }
  | allowShadowing l allow, w =>
    { w with linkers := w.linkers.modify l fun c => { c with shadowing := allow } }
  | define l module name item, w => (w.define l module name item).2
  | logLine sink entry, w => w.logLine sink entry

/-- The changes that any operation may come with: all but those that are asked for, of host objects,
definitions and logs. A property that these few do not have can still be one of all operations but
the few that come with them. -/
def Routine : Change κ σ → Prop
  | newObject .. | define .. | allowShadowing .. | newLog | logLine .. => False
  | _ => True

/-- The changes that any operation may come with are of a sort. -/
class Lenient (S : (World κ σ → World κ σ) → Prop) : Prop where
  routine : ∀ c : Change κ σ, c.Routine → S c.apply

/-- All changes are of a sort. -/
class Permissive (S : (World κ σ → World κ σ) → Prop) : Prop where
  all : ∀ c : Change κ σ, S c.apply

instance {S : (World κ σ → World κ σ) → Prop} [Permissive S] : Lenient S :=
  ⟨fun c _ => Permissive.all c⟩

theorem onGuest_apply (w : World κ σ) (s : Nat) (f : Guest.Store → α × Guest.Store) :
    (onGuest s fun g => (f g).2 : Change κ σ).apply w = (w.onGuest s f).2 := by
  simp only [apply, World.onGuest]
  cases w.guest? s <;> rfl

end Change

/-! ## Actions

`Every` is defined along the tree. So it composes as actions do, with a lemma for each way of
composing them. -/

/-- Whatever an action does to the world in a step is of a sort. -/
def Act.Every (S : (World κ σ → World κ σ) → Prop) : Act κ σ α → Prop
  | .done _ => True
  | .step f next => S (fun w => (f w).2) ∧ ∀ b, (next b).Every S

/-- Whatever the closures of a host do to the world in a step is of a sort. -/
def Every (S : (World κ σ → World κ σ) → Prop) (host : Runner κ σ) : Prop :=
  ∀ code captures caller args, (host code captures caller args).Every S

namespace Act.Every

variable {S : (World κ σ → World κ σ) → Prop} {m : Act κ σ α} {cleanup : Act κ σ Unit}

theorem done {r : Outcome α} : (Act.done r : Act κ σ α).Every S := trivial

theorem pure {a : α} : (Pure.pure a : Act κ σ α).Every S := trivial

theorem fail {e : Error} : (Act.fail e : Act κ σ α).Every S := trivial

theorem panic {p : Payload} : (Act.panic p : Act κ σ α).Every S := trivial

theorem exhaust : (Act.exhaust : Act κ σ α).Every S := trivial

theorem ofExcept {r : Except Error α} : (Act.ofExcept r : Act κ σ α).Every S := by
  cases r <;> trivial

theorem after {k : Outcome α → Act κ σ β} (hm : m.Every S) (hk : ∀ r, (k r).Every S) :
    (m.after k).Every S := by
  induction m with
  | done r => exact hk r
  -- What comes after an action comes after each of the ways in which it may end.
  | step f next ih => exact ⟨hm.1, fun b => ih b (hm.2 b)⟩

theorem bind {k : α → Act κ σ β} (hm : m.Every S) (hk : ∀ a, (k a).Every S) :
    (m >>= k).Every S := by
  refine hm.after fun r => ?_
  cases r with
  | value a => exact hk a
  | _ => exact done

theorem attempt (hm : m.Every S) : (Act.attempt m).Every S := by
  refine hm.after fun r => ?_
  cases r <;> exact done

theorem catchPanic (hm : m.Every S) : (Act.catchPanic m).Every S := by
  refine hm.after fun r => ?_
  cases r <;> exact done

theorem ensuring (hc : cleanup.Every S) (hm : m.Every S) : (Act.ensuring cleanup m).Every S := by
  refine hm.after fun r => ?_
  split
  · exact hc.bind fun _ => done
  · exact done

theorem onUnwind (hc : cleanup.Every S) (hm : m.Every S) : (Act.onUnwind cleanup m).Every S := by
  refine hm.after fun r => ?_
  cases r with
  | failure e => exact hc.bind fun _ => done
  | panic p => exact hc.bind fun _ => done
  | _ => exact done

/-- Something is refused, or else the action goes on. -/
theorem guard {c : Prop} {_ : Decidable c} {e : Error} {k : Unit → Act κ σ α}
    (hk : (k ()).Every S) : (if c then (Act.fail e >>= k) else k ()).Every S := by
  split
  · exact bind fail fun _ => hk
  · exact hk

/-- A single step. -/
theorem make {f : World κ σ → α × World κ σ} {c : Change κ σ} (hc : S c.apply)
    (hf : ∀ w, (f w).2 = c.apply w) : (Act.make f).Every S :=
  ⟨(funext hf : (fun w => (f w).2) = c.apply) ▸ hc, fun _ => pure⟩

section Routine

variable [Change.Lenient S]

/-- A single step with a change that any operation may come with. -/
theorem routine {f : World κ σ → α × World κ σ} (c : Change κ σ) (hc : c.Routine)
    (hf : ∀ w, (f w).2 = c.apply w) : (Act.make f).Every S :=
  make (Change.Lenient.routine c hc) hf

theorem world : (Act.world : Act κ σ (World κ σ)).Every S := routine .nothing trivial fun _ => rfl

theorem abort {f : Fault} : (Act.abort f : Act κ σ α).Every S :=
  ⟨Change.Lenient.routine (.fault f) trivial, fun _ => done⟩

theorem orAbort {f : Fault} {o : Option α} : (Act.orAbort f o : Act κ σ α).Every S := by
  cases o with
  | none => exact abort
  | some a => exact pure

end Routine

/-- A single step with any change. -/
theorem change [Change.Permissive S] {f : World κ σ → α × World κ σ} (c : Change κ σ)
    (hf : ∀ w, (f w).2 = c.apply w) : (Act.make f).Every S := make (Change.Permissive.all c) hf

end Act.Every

end WasmHost.Host
