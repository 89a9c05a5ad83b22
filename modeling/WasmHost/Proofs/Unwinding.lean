import WasmHost.Proofs.Library

/-!
# Calls through which panics unwind

Guest code cannot be unwound, so a panic of a closure waits with the store while a trap takes its
place. This module has the calls as they would be if panics did unwind through guest code: there is
no trap that takes the place of a panic, and stores keep no payloads. `Relayed` is how the two kinds
of calls correspond while guest code runs, and whoever called the guest cannot tell them apart.

Why write the calls down a second time? Because what is to be proved has no other reference. That a
panic "arrives" at the caller, with its own payload, once, and not mixed up with an earlier one, is
a statement about the whole way from the closure to whoever entered the guest, through any number of
calls inside one another. It could be stated as a property of runs; but it would be hard to see that
such a property leaves nothing out. The calls of this module leave nothing to be seen. In them a
panic is a panic all the way, there is no place where a payload could be forgotten or found by
somebody else, and apart from this they are the same calls, step for step. That the calls which
relay panics cannot be told apart from these is the whole claim.

"Cannot be told apart" is `Act.Agrees`: the same outcome *and the same world*, from every world that
agrees with the ledger. Between the closure and the caller of the guest it cannot hold, because a
payload lies with the store and a trap is on its way. There the two are `Relayed`: either they
agree, or one has panicked, and the other has a value that stands for the panic and differs in its
world by the payload and nothing else.

What is done on the way out, while a payload is kept (releasing what was packed, for the most part),
must not depend on the payload, nor overwrite or lose it. This is what it means to stand `Aside`,
and it takes a lemma for every step that releases something.
-/

namespace WasmHost.Host

open Act

variable {κ σ α β : Type}

/-! ## The calls -/

namespace Unwinding

/-- What the engine does to call a host function. A panic of the closure unwinds. -/
def callHost (host : Runner κ σ) (s key : Nat) (instance_ : Option Nat) (args : List Guest.Value) :
    Act κ σ (Except Guest.Reason (List Guest.Value)) := do
  match ← exposeAll s args with
  | .error fault => return .error (.refusal fault)
  | .ok packed =>
    ensuring (releasePackedAll packed) do
      match ← make (·.lookup s key (packed.map Packed.kind)) with
      | none => abort (.unregistered key)
      | some r =>
        match ← runClosure host r instance_ packed with
        | .error message => return .error (.hostTrap message)
        | .ok results =>
          ensuring (releasePackedAll results) do
            return .ok (← adoptAll s results)

/-- Runs a thread to its end, or until a closure panics. -/
def runThread (host : Runner κ σ) (s : Nat) (default : Option Nat) :
    Nat → (Guest.Store → Guest.Progress) → Act κ σ (Except Guest.Failure (List Guest.Value))
  | 0, _ => exhaust
  | fuel + 1, start => do
    let now ← epoch s
    let event ← onGuest s fun g =>
      let (g, event) := Guest.advance now workBound (start g)
      (event, g)
    match event with
    | .finished results => return .ok results
    | .trapped cause frames => return .error ⟨.trap cause, frames⟩
    | .stuck => abort .stuck
    | .timeout => exhaust
    | .called key _ args caller thread => do
      let active ← onGuest s fun g =>
        let active := activeFrames g thread
        (active, { g with exited := active, stackUsed := g.stackUsed + hostStackCost })
      let outcome ← callHost host s key (caller.or default) args
      match outcome with
      | .error reason =>
        let g ← guest s
        return .error ⟨reason, g.backtrace active⟩
      | .ok results =>
        runThread host s default fuel fun g =>
          Guest.resume { g with stackUsed := g.stackUsed - hostStackCost } thread results

/-- Calls the function at a place of a store. -/
def callPlace (host : Runner κ σ) (s place : Nat) (default : Option Nat)
    (args : List Guest.Value) : Act κ σ (Except Guest.Failure (List Guest.Value)) := do
  let now ← epoch s
  entering s (runThread host s default workBound fun g => Guest.enter now none g [] place args)

/-- Calls a function. -/
def call (host : Runner κ σ) (s : Nat) (f : Handle) (args : List Val) : Act κ σ (List Val) := do
  context s
  let place ← funcPlace s f
  ofExcept (checkParams (← Func.typeAt s place) args)
  let packed ← packAll s args
  ensuring (releasePackedAll packed) do
    match ← callPlace host s place none (← adoptAll s packed) with
    | .error failure => fail failure.toError
    | .ok results =>
      match ← exposeAll s results with
      | .error fault => fail (.engine fault)
      | .ok packed =>
        ensuring (releasePackedAll packed) (unpackAll s packed)

/-- Calls the start function of a new instance, if it has one. -/
def callStart (host : Runner κ σ) (s : Nat) (started : Guest.Started) :
    Act κ σ (Except Guest.Failure Unit) := do
  match started.start with
  | none => return .ok ()
  | some place => return (← callPlace host s place (some started.instance_) []).map fun _ => ()

/-- Makes an instance and runs its start function. -/
def create (host : Runner κ σ) (s : Nat) (module : Nat) (imports : List Item) :
    Act κ σ Handle := do
  context s
  let w ← world
  let cell ← orAbort .stuck w.modules[module]?
  let store ← orAbort .stuck w.stores[s]?
  if store.engine ≠ cell.engine then fail (.engine .foreignEngine)
  let expected := cell.compiled.code.imports.size
  if imports.length ≠ expected then fail (.importCount expected imports.length)
  Instance.checkAll s imports
  let bulk :=
    ((w.engines[store.engine]?).map fun e => e.config.features.features.bulkMemory).getD true
  let places ← Instance.places s imports
  match ← onGuest s fun g => Guest.instantiate g bulk cell.compiled.code places with
  | .error failure => fail failure.toError
  | .ok started =>
    match ← callStart host s started with
    | .error failure => fail failure.toError
    | .ok () => make (·.newHandle s (.instance_ s started.instance_))

/-- Makes an instance whose imports are found by name. -/
def instantiate (host : Runner κ σ) (s l : Nat) (module : Nat) : Act κ σ Handle := do
  let m ← orAbort .stuck (← world).modules[module]?
  let items ← Linker.take l (Definitions.resolve · m.compiled.imports)
  ensuring (releaseItems items) (create host s module items)

/-- Makes an instance and defines its exports as the names of a module. -/
def defineModule (host : Runner κ σ) (s l : Nat) (name : String) (module : Nat) :
    Act κ σ Unit := do
  let i ← instantiate host s l module
  ensuring (releaseHandle i) (Linker.defineInstance s l name i)

end Unwinding

/-! ## Stores that keep a payload

`World.keep` puts a payload into a store, or takes it out. Every step that may be taken while a
payload is kept commutes with it. -/

namespace World

variable {w : World κ σ} {s : Nat} {p : Option Payload}

/-- The payload that a store keeps. -/
def kept? (w : World κ σ) (s : Nat) : Option Payload := (w.stores[s]?).bind (·.panic)

/-- A store keeps a payload, or none. -/
def keep (w : World κ σ) (s : Nat) (p : Option Payload) : World κ σ :=
  w.modifyStore s fun c => { c with panic := p }

theorem keep_same (h : w.kept? s = none) : w.keep s none = w := by
  refine modifyStore_same fun c hc => ?_
  have hp : c.panic = none := by simpa [kept?, hc] using h
  cases c
  simp_all

theorem keep_keep (w : World κ σ) (s : Nat) (p q : Option Payload) :
    (w.keep s p).keep s q = w.keep s q := by
  simp only [keep, modifyStore, World.mk.injEq, true_and, and_true]
  refine Array.ext_getElem? fun i => ?_
  simp only [Array.getElem?_modify]
  split
  · cases w.stores[i]? <;> rfl
  · rfl

theorem stashPanic_eq (h : w.kept? s = none) (q : Payload) :
    w.stashPanic s q = w.keep s (some q) := by
  rw [stashPanic, ← kept?, h]
  rfl

theorem getElem?_keep (t : Nat) : ∃ q : StoreCell → Option Payload, (w.keep s p).stores[t]? =
    (w.stores[t]?).map fun c => { c with panic := q c } := by
  simp only [keep, modifyStore, Array.getElem?_modify]
  split
  · exact ⟨fun _ => p, rfl⟩
  · exact ⟨StoreCell.panic, by cases w.stores[t]? <;> rfl⟩

/-- What does not depend on the payload of a store is found as it was. -/
theorem bind_keep (t : Nat) {f : StoreCell → Option β} (hf : ∀ c q, f { c with panic := q } = f c) :
    ((w.keep s p).stores[t]?).bind f = (w.stores[t]?).bind f := by
  obtain ⟨q, hq⟩ := getElem?_keep (w := w) (s := s) (p := p) t
  rw [hq]
  cases w.stores[t]? <;> simp [hf]

/-- What does not depend on the payload of a store is changed as it was. -/
theorem modifyStore_keep (t : Nat) {f : StoreCell → StoreCell}
    (hf : ∀ c q, f { c with panic := q } = { f c with panic := q }) :
    (w.keep s p).modifyStore t f = (w.modifyStore t f).keep s p := by
  simp only [keep, modifyStore, World.mk.injEq, true_and, and_true]
  refine Array.ext_getElem? fun i => ?_
  simp only [Array.getElem?_modify]
  cases w.stores[i]? with
  | none => simp
  | some c =>
    split <;> split
    · exact congrArg some (hf c p)
    · rfl
    · rfl
    · rfl

theorem guest?_keep (t : Nat) : (w.keep s p).guest? t = w.guest? t := bind_keep t fun _ _ => rfl

/-! ## Releasing while a payload is kept -/

theorem beginDrain_keep (t : Nat) :
    (w.keep s p).beginDrain t = ((w.beginDrain t).1, (w.beginDrain t).2.keep s p) := by
  obtain ⟨q, hq⟩ := getElem?_keep (w := w) (s := s) (p := p) t
  unfold beginDrain
  rw [hq]
  cases w.stores[t]? with
  | none => rfl
  | some c => exact Prod.ext rfl (modifyStore_keep t fun _ _ => rfl)

theorem reclaim_keep (a : Handle) : (w.keep s p).reclaim a = (w.reclaim a).keep s p := by
  unfold reclaim keep modifyStore
  dsimp only
  obtain ⟨_ | _, heap⟩ := w.heap.remove a <;> rfl

theorem reclaimNext_keep (t : Nat) : (w.keep s p).reclaimNext t = (w.reclaimNext t).keep s p := by
  unfold reclaimNext
  rw [bind_keep t fun _ _ => rfl]
  split
  · rfl
  · rw [modifyStore_keep t fun _ _ => rfl, reclaim_keep]

theorem reclaimBatch_keep (t n : Nat) :
    (w.keep s p).reclaimBatch t n = (w.reclaimBatch t n).keep s p := by
  induction n generalizing w with
  | zero => rfl
  | succ n ih => rw [reclaimBatch, reclaimNext_keep, ih, reclaimBatch]

theorem drain_keep (t : Nat) : (w.keep s p).drain t = (w.drain t).keep s p := by
  simp only [drain, beginDrain_keep, reclaimBatch_keep]

theorem dismissStore_keep (t : Nat) :
    (w.keep s p).dismissStore t = ((w.dismissStore t).1, (w.dismissStore t).2.keep s p) := by
  obtain ⟨q, hq⟩ := getElem?_keep (w := w) (s := s) (p := p) t
  unfold dismissStore
  rw [hq]
  cases w.stores[t]? with
  | none => rfl
  | some c =>
    refine Prod.ext rfl ?_
    by_cases hs : c.shares = 1
    · simp only [Option.map_some, hs, if_true, drain_keep]
      exact modifyStore_keep t fun _ _ => rfl
    · simp only [Option.map_some, hs, if_false]
      exact modifyStore_keep t fun _ _ => rfl

theorem enqueue_keep (t : Nat) (a : Handle) :
    (w.keep s p).enqueue t a = (w.enqueue t a).keep s p := by
  unfold enqueue
  rw [bind_keep t fun _ _ => rfl]
  split
  · exact modifyStore_keep t fun _ _ => rfl
  · rfl

theorem retire_keep (a : Handle) :
    (w.keep s p).retire a = ((w.retire a).1, (w.retire a).2.keep s p) := by
  unfold retire
  rw [show (w.keep s p).heap = w.heap from rfl]
  cases w.heap.get? a with
  | none => rfl
  | some cell =>
    dsimp only
    split
    · rfl
    · split
      · let u : World κ σ :=
          { w with heap := w.heap.modify a fun c => { c with shares := c.shares - 1 } }
        exact Prod.ext rfl (enqueue_keep (w := u) cell.store a)
      · rfl

theorem releaseEngine_keep (e : Nat) :
    (w.keep s p).releaseEngine e = (w.releaseEngine e).keep s p := by
  unfold releaseEngine
  rw [show (w.keep s p).engines = w.engines from rfl]
  cases w.engines[e]? with
  | none => rfl
  | some cell => by_cases hs : cell.shares = 1 <;> simp only [hs, if_true, if_false] <;> rfl

theorem dismissOrigin_keep (g : Nat) :
    (w.keep s p).dismissOrigin g = ((w.dismissOrigin g).1, (w.dismissOrigin g).2.keep s p) := by
  unfold dismissOrigin reduceObject
  rw [show (w.keep s p).origins = w.origins from rfl, show (w.keep s p).objects = w.objects from rfl]
  cases w.origins[g]? with
  | none => rfl
  | some cell =>
    dsimp only
    split
    · cases w.objects[cell.object]? <;> rfl
    · rfl

end World

/-! ## Running actions -/

namespace Act

variable {w : World κ σ}

theorem run_guest {s : Nat} {g : Guest.Store} (h : w.guest? s = some g) :
    (guest s : Act κ σ Guest.Store).run w = (.value g, w) := by
  show (orAbort .stuck (w.guest? s)).run w = _
  rw [h]
  rfl

/-- An error of the guest behind which there is no panic. -/
theorem run_raise_of_none {s : Nat} (h : w.kept? s = none) (f : Guest.Failure) :
    (raise s f : Act κ σ α).run w = (.failure f.toError, w) := by
  unfold raise
  split
  · rename_i fault hf
    rw [hf]
    rfl
  · have hrun : (make (·.takePanic s) : Act κ σ (Option Payload)).run w = (.value none, w) :=
      congrArg₂ (fun o w => (Outcome.value o, w)) h (World.keep_same h)
    exact run_bind_value (run_bind_value hrun)

/-- A trap that took the place of a panic. -/
theorem run_raise_of_some {s : Nat} {c : StoreCell} (hc : w.stores[s]? = some c)
    (h : w.kept? s = none) (message : String) (frames : List Frame) (p : Payload) :
    (raise s ⟨.hostTrap message, frames⟩ : Act κ σ α).run (w.keep s (some p)) = (.panic p, w) := by
  have hkept : (w.keep s (some p)).kept? s = some p := by
    simp [World.keep, World.kept?, World.modifyStore, Array.getElem?_modify, hc]
  have hrun : (make (·.takePanic s) : Act κ σ (Option Payload)).run (w.keep s (some p)) =
      (.value (some p), w) := by
    refine congrArg₂ (fun o w => (Outcome.value o, w)) hkept ?_
    exact (World.keep_keep w s (some p) none).trans (World.keep_same h)
  exact run_bind_panic (run_bind_value hrun)

end Act

variable {s : Nat}

/-! ## Actions that stand aside -/

/-- An action always gives a value, and does the same whether or not a store keeps a payload. -/
def Act.Aside (s : Nat) (m : Act κ σ Unit) : Prop :=
  ∀ w, ∃ w', m.run w = (.value (), w') ∧ ∀ p, m.run (w.keep s p) = (.value (), w'.keep s p)

namespace Act.Aside

theorem pure : Aside s (Pure.pure () : Act κ σ Unit) := fun w => ⟨w, rfl, fun _ => rfl⟩

theorem bind {m : Act κ σ Unit} {k : Unit → Act κ σ Unit} (hm : Aside s m) (hk : Aside s (k ())) :
    Aside s (m >>= k) := by
  intro w
  obtain ⟨w₁, h₁, hp₁⟩ := hm w
  obtain ⟨w₂, h₂, hp₂⟩ := hk w₁
  exact ⟨w₂, (run_bind_value h₁).trans h₂, fun p => (run_bind_value (hp₁ p)).trans (hp₂ p)⟩

theorem make {f : World κ σ → β × World κ σ} {k : β → Act κ σ Unit}
    (hf : ∀ w p, f (w.keep s p) = ((f w).1, (f w).2.keep s p)) (hk : ∀ b, Aside s (k b)) :
    Aside s (Act.make f >>= k) := by
  intro w
  obtain ⟨w', h, hp⟩ := hk (f w).1 (f w).2
  refine ⟨w', h, fun p => ?_⟩
  have hrun : (Act.make f).run (w.keep s p) = (.value (f w).1, (f w).2.keep s p) := by
    show (Outcome.value (f (w.keep s p)).1, (f (w.keep s p)).2) = _
    rw [hf]
  exact (run_bind_value hrun).trans (hp p)

theorem update {f : World κ σ → World κ σ} (hf : ∀ w p, f (w.keep s p) = (f w).keep s p) :
    Aside s (Act.update f) := fun w =>
  ⟨f w, rfl, fun p => congrArg (Prod.mk (Outcome.value ())) (hf w p)⟩

end Act.Aside

theorem releaseEngine?_aside (o : Option Nat) : Aside s (releaseEngine? o : Act κ σ Unit) := by
  cases o with
  | none => exact .pure
  | some e => exact .update fun _ _ => World.releaseEngine_keep e

theorem releaseStore?_aside (o : Option Nat) : Aside s (releaseStore? o : Act κ σ Unit) := by
  cases o with
  | none => exact .pure
  | some t => exact .make (fun _ _ => World.dismissStore_keep t) releaseEngine?_aside

theorem releaseWrappers_aside (xs : List Wrapper) :
    Aside s (releaseWrappers xs : Act κ σ Unit) := by
  induction xs with
  | nil => exact .pure
  | cons x xs ih =>
    exact .bind (.make (fun _ _ => World.retire_keep x.handle) releaseStore?_aside) ih

theorem releasePackedAll_aside {t : Nat} (ps : List (Packed t)) :
    Aside s (releasePackedAll ps : Act κ σ Unit) := by
  induction ps with
  | nil => exact .pure
  | cons p ps ih =>
    refine .bind ?_ ih
    unfold releasePacked
    split
    · exact .make (fun _ _ => World.dismissOrigin_keep _) releaseWrappers_aside
    · exact .pure

section Logic

variable [Keeper κ σ] {L rest : Ledger κ}

/-! ## Actions that do the same

Agreement is asked for only in worlds that agree with a ledger. The two actions may well differ
elsewhere, for instance in a world where a store already keeps a payload. -/

/-- Two actions do the same in every world that agrees with a ledger. -/
def Act.Agrees (L : Ledger κ) (m m' : Act κ σ α) : Prop :=
  ∀ R w, Invariant (R + L) w → m.run w = m'.run w

namespace Act.Agrees

variable {m m' : Act κ σ α}

theorem refl (m : Act κ σ α) : Agrees L m m := fun _ _ _ => rfl

/-- What comes after is the same. -/
theorem after (h : Agrees L m m') (k : Outcome α → Act κ σ β) :
    Agrees L (m.after k) (m'.after k) := by
  intro R w hw
  rw [run_after, run_after, h R w hw]

theorem ensuring (h : Agrees L m m') (cleanup : Act κ σ Unit) :
    Agrees L (Act.ensuring cleanup m) (Act.ensuring cleanup m') := h.after _

theorem bind {k k' : α → Act κ σ β} {M : α → Ledger κ → Prop} {E : Ledger κ} (h : Agrees L m m')
    (hm : m.Meets L M E) (hk : ∀ a N, M a N → Agrees N (k a) (k' a)) :
    Agrees L (m >>= k) (m' >>= k') := by
  intro R w hw
  obtain ⟨N, hN, hM⟩ := Safe.run hm hw
  show (m.after (·.go k)).run w = (m'.after (·.go k')).run w
  rw [run_after, run_after, ← h R w hw]
  cases hr : (m.run w).1 with
  | value a =>
    rw [hr] at hM
    exact hk a N (hM rfl) R _ hN
  | _ => rfl

theorem world {k k' : World κ σ → Act κ σ α} (hk : ∀ w, Agrees L (k w) (k' w)) :
    Agrees L (Act.world >>= k) (Act.world >>= k') := fun R w hw => hk w R w hw

theorem orAbort {o : Option β} {k k' : β → Act κ σ α} (hk : ∀ b, Agrees L (k b) (k' b)) :
    Agrees L (Act.orAbort .stuck o >>= k) (Act.orAbort .stuck o >>= k') := by
  cases o with
  | none => exact .refl _
  | some b => exact hk b

/-- Something is refused, or else the actions go on. -/
theorem guard {c : Prop} {_ : Decidable c} {e : Error} {k k' : Unit → Act κ σ α}
    (hk : Agrees L (k ()) (k' ())) :
    Agrees L (if c then (Act.fail e >>= k) else k ()) (if c then (Act.fail e >>= k') else k' ()) := by
  split
  · exact .refl _
  · exact hk

end Act.Agrees

/-! ## Calls that relay panics

Correspondence goes from the inside out. It begins where a panic is caught (`catchPanic`), passes
through what lets it pass (`first`, `bind`, `ensuring`), and ends with whoever takes the payload
(`raise`), where `Relays` becomes `Agrees` again. -/

/-- How an end of a call that relays panics corresponds to one of a call through which they unwind:
they are the same, or a value stands for the panic, and the store keeps the payload. -/
def Relayed (s : Nat) (stands : α → Prop) (x y : Outcome α × World κ σ) : Prop :=
  x = y ∨ ∃ a p, stands a ∧ y.1 = .panic p ∧ x = (.value a, y.2.keep s (some p))

/-- Every run of one action corresponds to that of the other. -/
def Act.Relays (s : Nat) (stands : α → Prop) (L : Ledger κ) (m m' : Act κ σ α) : Prop :=
  ∀ R w, Invariant (R + L) w → Relayed s stands (m.run w) (m'.run w)

namespace Act.Relays

variable {stands : α → Prop} {m m' : Act κ σ α}

theorem agree (h : Agrees L m m') : Relays s stands L m m' := fun R w hw => .inl (h R w hw)

theorem refl (m : Act κ σ α) : Relays s stands L m m := agree (.refl m)

/-- First the same is done. -/
theorem first {m : Act κ σ β} {k k' : β → Act κ σ α} {M : β → Ledger κ → Prop} {E : Ledger κ}
    (hm : m.Meets L M E) (hk : ∀ b N, M b N → Relays s stands N (k b) (k' b)) :
    Relays s stands L (m >>= k) (m >>= k') := by
  intro R w hw
  obtain ⟨N, hN, hM⟩ := Safe.run hm hw
  show Relayed s stands ((m.after (·.go k)).run w) ((m.after (·.go k')).run w)
  rw [run_after, run_after]
  cases hr : (m.run w).1 with
  | value b =>
    rw [hr] at hM
    exact hk b N (hM rfl) R _ hN
  | _ => exact .inl rfl

/-- What comes after lets what stands for a panic pass. -/
theorem bind {m m' : Act κ σ β} {k k' : β → Act κ σ α} {stands' : β → Prop}
    {M : β → Ledger κ → Prop} (h : Relays s stands' L m m') (hm : m'.Meets L M rest)
    (hk : ∀ b N, M b N → Relays s stands N (k b) (k' b))
    (hp : ∀ b, stands' b → ∀ R w, Invariant (R + rest) w → ∃ a, stands a ∧
      ∀ p, (k b).run (w.keep s p) = (.value a, w.keep s p)) :
    Relays s stands L (m >>= k) (m' >>= k') := by
  intro R w hw
  obtain ⟨N, hN, hM⟩ := Safe.run hm hw
  show Relayed s stands ((m.after (·.go k)).run w) ((m'.after (·.go k')).run w)
  rw [run_after, run_after]
  rcases h R w hw with heq | ⟨b, p, hb, hpanic, heq⟩
  · rw [heq]
    cases hr : (m'.run w).1 with
    | value b =>
      rw [hr] at hM
      exact hk b N (hM rfl) R _ hN
    | _ => exact .inl rfl
  · -- One has panicked. What comes after is skipped there, and lets the trap pass here.
    rw [hpanic] at hM
    obtain rfl : N = rest := hM rfl
    obtain ⟨a, ha, hrun⟩ := hp b hb R _ hN
    rw [heq, hpanic]
    exact .inr ⟨a, p, ha, rfl, hrun (some p)⟩

theorem ensuring {cleanup : Act κ σ Unit} (hc : Aside s cleanup) (h : Relays s stands L m m') :
    Relays s stands L (Act.ensuring cleanup m) (Act.ensuring cleanup m') := by
  intro R w hw
  unfold Act.ensuring
  rw [run_after, run_after]
  rcases h R w hw with heq | ⟨a, p, ha, hpanic, heq⟩
  · rw [heq]
    exact .inl rfl
  · obtain ⟨w', hrun, hkeep⟩ := hc (m'.run w).2
    refine .inr ⟨a, p, ha, ?_⟩
    simp only [heq, hpanic, Outcome.ends, if_true, run_after, hrun, hkeep]
    exact ⟨rfl, rfl⟩

/-- A panic that is caught leaves its payload with the store. -/
theorem catchPanic {m m' : Act κ σ β} {k : Except Payload β → Act κ σ α} {k' : β → Act κ σ α}
    {M : β → Ledger κ → Prop} (h : Agrees L m m') (hm : m.Meets L M rest)
    (hk : ∀ b N, M b N → Relays s stands N (k (.ok b)) (k' b))
    (hp : ∀ p R w, Invariant (R + rest) w → ∃ a, stands a ∧
      (k (.error p)).run w = (.value a, w.keep s (some p))) :
    Relays s stands L (Act.catchPanic m >>= k) (m' >>= k') := by
  intro R w hw
  obtain ⟨N, hN, hM⟩ := Safe.run hm hw
  show Relayed s stands (((Act.catchPanic m).after (·.go k)).run w) ((m'.after (·.go k')).run w)
  rw [Act.catchPanic, run_after, run_after, run_after, ← h R w hw]
  cases hr : (m.run w).1 with
  | value b =>
    rw [hr] at hM
    exact hk b N (hM rfl) R _ hN
  | panic p =>
    rw [hr] at hM
    obtain rfl : N = rest := hM rfl
    obtain ⟨a, ha, hrun⟩ := hp p R _ hN
    exact .inr ⟨a, p, ha, rfl, hrun⟩
  | _ => exact .inl rfl

/-- Whoever called the guest takes the payload and panics with it. -/
theorem raise {m m' : Act κ σ β} {k k' : β → Act κ σ α} {stands' : β → Prop}
    {M : β → Ledger κ → Prop} (h : Relays s stands' L m m') (hm : m'.Meets L M rest)
    (hk : ∀ b N, M b N → Agrees N (k b) (k' b))
    (hp : ∀ b, stands' b → ∀ R w, Invariant (R + rest) w →
      ∀ p, (k b).run (w.keep s (some p)) = (.panic p, w)) : Agrees L (m >>= k) (m' >>= k') := by
  intro R w hw
  obtain ⟨N, hN, hM⟩ := Safe.run hm hw
  show (m.after (·.go k)).run w = (m'.after (·.go k')).run w
  rw [run_after, run_after]
  rcases h R w hw with heq | ⟨b, p, hb, hpanic, heq⟩
  · rw [heq]
    cases hr : (m'.run w).1 with
    | value b =>
      rw [hr] at hM
      exact hk b N (hM rfl) R _ hN
    | _ => rfl
  · -- One has panicked, and the other takes the payload out of the store and panics with it.
    rw [hpanic] at hM
    obtain rfl : N = rest := hM rfl
    rw [heq, hpanic]
    exact hp b hb R _ hN p

end Act.Relays

end Logic

end WasmHost.Host
