import WasmHost.Proofs.Senses
import WasmHost.Proofs.GuestObjects
import WasmHost.Proofs.InstanceTyping

/-!
# Typed and orderly worlds

A world is typed if its stores are, if its handles lead to items that are there, if every host
function has the type of the closure that was registered for it, and if closures were only given what
their types declare.

Worlds evolve: stores stay, and the guest part of a store evolves until the store is deleted. What is
said of the guest part of a store (`World.In`) is void from then on, so it stays true whatever happens
to the store.

Whatever host objects a guest part refers to, its store holds copies of their origins (`World.Rooted`).
A typed world of which this is true as well is orderly, and each single step on an orderly world leads to
an orderly world.

Typing must be known when a closure is called: its arguments are what guest code has on its stack,
and the closure was promised values of certain kinds. It cannot be part of the invariant of the
accounts, because it depends on more than that (on validation, for instance) and nothing in the
accounts depends on it. So it is a second invariant, about the same steps, that *uses* the first one
where something has to be there.

Why `In`, with its "as long as"? A promise that is made of a store has to survive whatever other
threads do, and a thread may delete its own store. What is said of a store that is gone is void, and
stays so, since numbers of stores are not used again. The same goes for origins that a store holds.

Steps are of two sorts. The greater part of them have nothing to do with typing, and it is enough to
see that they stand *aside*: the guest parts of stores are untouched or gone, handles stand for what
they stood for. For the few others there is a lemma each, in the last section.
-/

namespace WasmHost.Guest

/-- An item stays at its place. -/
theorem Store.Evolves.isSome_declaredType? {s s' : Store} (h : s.Evolves s') {place : Place}
    (hplace : (s.declaredType? place).isSome) : (s'.declaredType? place).isSome := by
  obtain ⟨type, htype⟩ := Option.isSome_iff_exists.mp hplace
  cases place with
  | func i =>
    obtain ⟨f, hf, -⟩ := Option.map_eq_some_iff.mp htype
    simp only [Store.declaredType?, h.funcs i f hf, Option.map_some, Option.isSome_some]
  | global i =>
    obtain ⟨g, hg, -⟩ := Option.map_eq_some_iff.mp htype
    obtain ⟨g', hg', -⟩ := h.globals i g hg
    simp only [Store.declaredType?, hg', Option.map_some, Option.isSome_some]
  | memory i =>
    obtain ⟨m, hm, -⟩ := Option.map_eq_some_iff.mp htype
    obtain ⟨m', hm', -⟩ := h.memories i m hm
    simp only [Store.declaredType?, hm', Option.map_some, Option.isSome_some]
  | table i =>
    obtain ⟨t, ht, -⟩ := Option.map_eq_some_iff.mp htype
    obtain ⟨t', ht', -⟩ := h.tables i t ht
    simp only [Store.declaredType?, ht', Option.map_some, Option.isSome_some]

end WasmHost.Guest

namespace WasmHost.Host

variable {κ σ α : Type}

/-! ## Typed worlds -/

namespace World

/-- Something is true of the guest part of a store, as long as the store is not deleted. -/
def In (w : World κ σ) (s : Nat) (P : Guest.Store → Prop) : Prop :=
  s < w.stores.size ∧ ∀ g, w.guest? s = some g → P g

/-- A store holds a copy of an origin, as long as the store is not deleted. -/
def Keeps (w : World κ σ) (s origin : Nat) : Prop :=
  s < w.stores.size ∧ ∀ c, w.stores[s]? = some c → c.guest.isSome → origin ∈ c.held

/-- Stores stay, and their guest parts evolve until they are deleted; until then, they keep what they
hold. Host functions stay on record. -/
structure Evolves (w w' : World κ σ) : Prop where
  size : w.stores.size ≤ w'.stores.size
  guests : ∀ s < w.stores.size, ∀ g', w'.guest? s = some g' →
    ∃ g, w.guest? s = some g ∧ g.Evolves g'
  functions : ∀ f ∈ w.chronicle.functions, f ∈ w'.chronicle.functions
  kept : ∀ s origin, w.Keeps s origin → w'.Keeps s origin

end World

/-- The item or the instance that a handle stands for is there. -/
def Target.Declared (w : World κ σ) : Target → Prop
  | .item s place => w.In s fun g => (g.declaredType? place).isSome
  | .instance_ s n => w.In s fun g => n < g.instances.size
  | .unsupported _ => True

/-- A host function has the type of its closure. -/
def HostFunction.Typed (w : World κ σ) (f : HostFunction κ) : Prop :=
  w.In f.store fun g => g.funcs[f.place]? = some (.host f.key f.closure.type)

namespace World

/-- What a world holds is of the kinds that were declared. -/
structure Typed (w : World κ σ) : Prop where
  guests : ∀ s g, w.guest? s = some g → g.Typed
  targets : ∀ a c, w.heap.get? a = some c → c.target.Declared w
  functions : ∀ f ∈ w.chronicle.functions, f.Typed w
  /-- Closures were given values of the kinds that their types declare. -/
  passed : ∀ p ∈ w.chronicle.passed, p.2 = p.1.type.params

/-- Stores hold copies of the origins that their guest parts refer to. -/
def Rooted (w : World κ σ) : Prop := ∀ s g, w.guest? s = some g → g.Rooted (w.Keeps s)

/-- A typed world in which nothing that guest code refers to is missing. -/
structure Orderly (w : World κ σ) : Prop extends w.Typed where
  rooted : w.Rooted

/-- A world evolves into an orderly one. -/
structure Leads (w w' : World κ σ) : Prop where
  evolves : w.Evolves w'
  orderly : w'.Orderly

variable {w w' w'' : World κ σ} {s : Nat} {P : Guest.Store → Prop}

namespace Evolves

theorem refl (w : World κ σ) : w.Evolves w :=
  ⟨Nat.le_refl _, fun _ _ g hg => ⟨g, hg, .refl g⟩, fun _ hf => hf, fun _ _ h => h⟩

theorem trans (h : w.Evolves w') (h' : w'.Evolves w'') : w.Evolves w'' where
  size := Nat.le_trans h.size h'.size
  guests s hs g'' hg'' := by
    obtain ⟨g', hg', he'⟩ := h'.guests s (Nat.lt_of_lt_of_le hs h.size) g'' hg''
    obtain ⟨g, hg, he⟩ := h.guests s hs g' hg'
    exact ⟨g, hg, he.trans he'⟩
  functions f hf := h'.functions f (h.functions f hf)
  kept s o ho := h'.kept s o (h.kept s o ho)

end Evolves

/-- What stays true while a guest part evolves stays true of a store. -/
theorem In.evolve (h : w.In s P) (hw : w.Evolves w') (hP : ∀ g g', g.Evolves g' → P g → P g') :
    w'.In s P := by
  refine ⟨Nat.lt_of_lt_of_le h.1 hw.size, fun g' hg' => ?_⟩
  obtain ⟨g, hg, he⟩ := hw.guests s h.1 g' hg'
  exact hP g g' he (h.2 g hg)

/-- The same, where it matters that guest parts are typed. -/
theorem In.lead (h : w.In s P) (hw : w.Leads w') (hP : ∀ g g', g.Leads g' → P g → P g') :
    w'.In s P := by
  refine ⟨Nat.lt_of_lt_of_le h.1 hw.evolves.size, fun g' hg' => ?_⟩
  obtain ⟨g, hg, he⟩ := hw.evolves.guests s h.1 g' hg'
  exact hP g g' ⟨he, hw.orderly.guests s g' hg'⟩ (h.2 g hg)

theorem lt_size_of_guest? {g : Guest.Store} (hg : w.guest? s = some g) : s < w.stores.size := by
  obtain ⟨c, hc, -⟩ := Option.bind_eq_some_iff.mp hg
  exact (Array.getElem?_eq_some_iff.mp hc).1

/-- Something is true of a guest part that is there. -/
theorem In.of_guest? {g : Guest.Store} (hg : w.guest? s = some g) (h : P g) : w.In s P := by
  refine ⟨lt_size_of_guest? hg, fun g' hg' => ?_⟩
  obtain rfl : g = g' := Option.some.inj (hg.symm.trans hg')
  exact h

end World

theorem Target.Declared.evolve {w w' : World κ σ} {t : Target} (h : t.Declared w)
    (hw : w.Evolves w') : t.Declared w' := by
  cases t with
  | item s place => exact World.In.evolve h hw fun _ _ he => he.isSome_declaredType?
  | instance_ s n =>
    refine World.In.evolve h hw fun _ _ he hn => ?_
    obtain ⟨i, hi, -⟩ := he.instances n _ (Array.getElem?_eq_getElem hn)
    exact (Array.getElem?_eq_some_iff.mp hi).1
  | unsupported s => trivial

theorem HostFunction.Typed.evolve {w w' : World κ σ} {f : HostFunction κ} (h : f.Typed w)
    (hw : w.Evolves w') : f.Typed w' := World.In.evolve h hw fun _ _ he => he.funcs _ _

namespace World

variable {w w' w'' : World κ σ} {s : Nat}

namespace Leads

theorem typed (h : w.Leads w') : w'.Typed := h.orderly.toTyped

theorem refl (h : w.Orderly) : w.Leads w := ⟨.refl w, h⟩

theorem trans (h : w.Leads w') (h' : w'.Leads w'') : w.Leads w'' :=
  ⟨h.evolves.trans h'.evolves, h'.orderly⟩

/-- What was there before stays typed; what is new is looked at. -/
theorem of_evolves (hw : w.Orderly) (he : w.Evolves w')
    (hguests : ∀ s g', w'.guest? s = some g' → g'.Typed ∧ g'.Rooted (w'.Keeps s))
    (htargets : ∀ a c', w'.heap.get? a = some c' →
      (∃ c, w.heap.get? a = some c ∧ c'.target = c.target) ∨ c'.target.Declared w')
    (hfunctions : ∀ f ∈ w'.chronicle.functions, f ∈ w.chronicle.functions ∨ f.Typed w')
    (hpassed : ∀ p ∈ w'.chronicle.passed, p ∈ w.chronicle.passed ∨ p.2 = p.1.type.params) :
    w.Leads w' where
  evolves := he
  orderly :=
    { guests := fun s g' hg' => (hguests s g' hg').1
      rooted := fun s g' hg' => (hguests s g' hg').2
      targets := fun a c' hc' => by
        rcases htargets a c' hc' with ⟨c, hc, ht⟩ | h
        · exact ht ▸ (hw.targets a c hc).evolve he
        · exact h
      functions := fun f hf => by
        rcases hfunctions f hf with hf | h
        · exact (hw.functions f hf).evolve he
        · exact h
      passed := fun p hp => by
        rcases hpassed p hp with hp | h
        · exact hw.passed p hp
        · exact h }

end Leads

/-! ## Steps aside from what is typed

All of these lemmas say the same, and one lemma, `Aside.leads`, draws the conclusion from it. -/

/-- Stores are deleted and handles reclaimed at most, and the record of closures stays. -/
structure Aside (w w' : World κ σ) : Prop where
  size : w'.stores.size = w.stores.size
  guests : ∀ s g, w'.guest? s = some g → w.guest? s = some g
  kept : ∀ s origin, w.Keeps s origin → w'.Keeps s origin
  targets : ∀ a c', w'.heap.get? a = some c' → ∃ c, w.heap.get? a = some c ∧ c'.target = c.target
  functions : w'.chronicle.functions = w.chronicle.functions
  passed : w'.chronicle.passed = w.chronicle.passed

namespace Aside

theorem refl (w : World κ σ) : w.Aside w :=
  ⟨rfl, fun _ _ h => h, fun _ _ h => h, fun _ c h => ⟨c, h, rfl⟩, rfl, rfl⟩

theorem trans (h : w.Aside w') (h' : w'.Aside w'') : w.Aside w'' where
  size := h'.size.trans h.size
  guests s g hg := h.guests s g (h'.guests s g hg)
  kept s o ho := h'.kept s o (h.kept s o ho)
  targets a c'' hc'' := by
    obtain ⟨c', hc', ht'⟩ := h'.targets a c'' hc''
    obtain ⟨c, hc, ht⟩ := h.targets a c' hc'
    exact ⟨c, hc, ht'.trans ht⟩
  functions := h'.functions.trans h.functions
  passed := h'.passed.trans h.passed

theorem leads (h : w.Aside w') (hw : w.Orderly) : w.Leads w' := by
  refine .of_evolves hw
    ⟨h.size.ge, fun s _ g hg => ⟨g, h.guests s g hg, .refl g⟩, ?_, h.kept⟩ ?_ ?_ ?_ ?_
  · exact fun f hf => h.functions ▸ hf
  · exact fun s g hg => ⟨hw.guests s g (h.guests s g hg),
      (hw.rooted s g (h.guests s g hg)).mono (h.kept s)⟩
  · exact fun a c hc => .inl (h.targets a c hc)
  · exact fun f hf => .inl (h.functions ▸ hf)
  · exact fun p hp => .inl (h.passed ▸ hp)

/-- Neither stores nor handles are changed. -/
theorem of_eq (hstores : w'.stores = w.stores) (hheap : w'.heap = w.heap)
    (hfunctions : w'.chronicle.functions = w.chronicle.functions)
    (hpassed : w'.chronicle.passed = w.chronicle.passed) : w.Aside w' where
  size := by rw [hstores]
  guests s g hg := by
    rw [guest?, hstores] at hg
    exact hg
  kept s o ho := by rwa [Keeps, hstores]
  targets a c hc := ⟨c, hheap ▸ hc, rfl⟩
  functions := hfunctions
  passed := hpassed

/-- A store is deleted at most, and keeps what it holds otherwise. -/
theorem modifyStore (w : World κ σ) (s : Nat) {f : StoreCell → StoreCell}
    (hf : ∀ c g, (f c).guest = some g → c.guest = some g ∧ ∀ o ∈ c.held, o ∈ (f c).held) :
    w.Aside (w.modifyStore s f) where
  size := Array.size_modify
  guests t g hg := by
    have hg : guestAt (w.stores.modify s f) t = some g := hg
    rw [guestAt_modify] at hg
    split at hg
    · rename_i ht
      obtain ⟨c, hc, hcg⟩ := Option.bind_eq_some_iff.mp hg
      rw [ht]
      exact (guestAt_eq hc).trans (hf c g hcg).1
    · exact hg
  kept t o ho := by
    refine ⟨ho.1.trans_eq Array.size_modify.symm, fun c' hc' hg => ?_⟩
    have hc' : (w.stores.modify s f)[t]? = some c' := hc'
    rw [Array.getElem?_modify] at hc'
    split at hc'
    · obtain ⟨c, hc, rfl⟩ := Option.map_eq_some_iff.mp hc'
      obtain ⟨g, hg⟩ := Option.isSome_iff_exists.mp hg
      obtain ⟨hg, hheld⟩ := hf c g hg
      exact hheld o (ho.2 c hc (hg ▸ rfl))
    · exact ho.2 c' hc' hg
  targets _ c h := ⟨c, h, rfl⟩
  functions := rfl
  passed := rfl

theorem modifyHandle (w : World κ σ) (a : Handle) {f : HandleCell → HandleCell}
    (hf : ∀ c, (f c).target = c.target) : w.Aside { w with heap := w.heap.modify a f } where
  size := rfl
  guests _ _ h := h
  kept _ _ h := h
  targets b c' h := by
    obtain ⟨rfl, c, hc, rfl⟩ | ⟨-, hc⟩ := Slab.get?_modify_cases h
    · exact ⟨c, hc, hf c⟩
    · exact ⟨c', hc, rfl⟩
  functions := rfl
  passed := rfl

end Aside

/-! ### Reclaiming and releasing -/

theorem fault_aside (w : World κ σ) (f : Fault) : w.Aside (w.fault f) := .of_eq rfl rfl rfl rfl

theorem reclaim_aside (w : World κ σ) (a : Handle) : w.Aside (w.reclaim a) := by
  cases h : w.heap.get? a with
  | none =>
    rw [reclaim, Slab.remove_of_get?_none h]
    exact fault_aside w _
  | some cell =>
    rw [reclaim_eq h]
    exact ⟨rfl, fun _ _ h => h, fun _ _ h => h, fun _ c hc => ⟨c, Slab.get?_of_remove h hc, rfl⟩,
      rfl, rfl⟩

theorem beginDrain_aside (w : World κ σ) (s : Nat) : w.Aside (w.beginDrain s).2 := by
  rw [beginDrain_eq]
  exact .modifyStore w s fun _ _ h => ⟨h, fun _ ho => ho⟩

theorem reclaimNext_aside (w : World κ σ) (s : Nat) : w.Aside (w.reclaimNext s) := by
  unfold reclaimNext
  split
  · exact .refl w
  · refine .trans ?_ (reclaim_aside _ _)
    exact .modifyStore w s fun _ _ h => ⟨h, fun _ ho => ho⟩

theorem drain_aside (w : World κ σ) (s : Nat) : w.Aside (w.drain s) :=
  drain_induction s (w.beginDrain_aside s) fun w' h => h.trans (w'.reclaimNext_aside s)

theorem releaseEngine_aside (w : World κ σ) (e : Nat) : w.Aside (w.releaseEngine e) := by
  unfold releaseEngine
  split
  · exact .refl w
  · dsimp only
    split <;> exact .of_eq rfl rfl rfl rfl

theorem dismissStore_aside (w : World κ σ) (s : Nat) : w.Aside (w.dismissStore s).2 := by
  unfold dismissStore
  split
  · exact .refl w
  · refine .trans ?_ (.modifyStore _ s fun _ _ h => ⟨h, fun _ ho => ho⟩)
    split
    · exact drain_aside w s
    · exact .refl w

theorem retire_aside (w : World κ σ) (a : Handle) : w.Aside (w.retire a).2 := by
  have henqueue : ∀ (w : World κ σ) (s : Nat), w.Aside (w.enqueue s a) := by
    intro w s
    unfold enqueue
    split
    · exact .modifyStore w s fun _ _ h => ⟨h, fun _ ho => ho⟩
    · exact fault_aside w _
  unfold retire
  split
  · exact fault_aside w _
  · split
    · exact fault_aside w _
    · have hmodify : w.Aside { w with
          heap := w.heap.modify a fun c => { c with shares := c.shares - 1 } } :=
        .modifyHandle w a fun _ => rfl
      dsimp only
      split
      · exact hmodify.trans (henqueue _ _)
      · exact hmodify

theorem reclaimSole_aside (w : World κ σ) (a : Handle) : w.Aside (w.reclaimSole a).2 := by
  unfold reclaimSole
  split
  · exact .refl w
  · split
    · exact reclaim_aside w a
    · exact .refl w

theorem dismissModule_aside (w : World κ σ) (m : Nat) : w.Aside (w.dismissModule m).2 := by
  unfold dismissModule
  split <;> exact .of_eq rfl rfl rfl rfl

theorem dismissLinker_aside (w : World κ σ) (l : Nat) : w.Aside (w.dismissLinker l).2 := by
  unfold dismissLinker
  split <;> exact .of_eq rfl rfl rfl rfl

theorem reduceObject_aside (w : World κ σ) (o : ObjectId) (f : ObjectCell → ObjectCell) :
    w.Aside (w.reduceObject o f).2 := by
  obtain ⟨objects, h⟩ := reduceObject_eq w o f
  exact h ▸ .of_eq rfl rfl rfl rfl

theorem dismissOrigin_aside (w : World κ σ) (g : Nat) : w.Aside (w.dismissOrigin g).2 := by
  obtain ⟨objects, origins, h⟩ := dismissOrigin_eq w g
  exact h ▸ .of_eq rfl rfl rfl rfl

theorem unregister_aside (w : World κ σ) (key : Nat) : w.Aside (w.unregister key).2 := by
  unfold unregister
  split <;> exact .of_eq rfl rfl rfl rfl

/-- A store is deleted. -/
theorem vacate_aside (w : World κ σ) (s : Nat) : w.Aside (w.vacate s).2 := by
  unfold vacate
  split
  · exact .refl w
  · exact .modifyStore w s fun _ _ h => by cases h

/-! ### Retaining -/

theorem retainStore_aside (w : World κ σ) (s : Nat) : w.Aside (w.retainStore s) :=
  .modifyStore w s fun _ _ h => ⟨h, fun _ ho => ho⟩

theorem retainHandle_aside (w : World κ σ) (a : Handle) : w.Aside (w.retainHandle a) :=
  .modifyHandle w a fun _ => rfl

theorem retainCapture_aside (w : World κ σ) (c : Capture) : w.Aside (w.retainCapture c) := by
  cases c with
  | wrapper x => exact retainHandle_aside w x.handle
  | _ => exact .of_eq rfl rfl rfl rfl

theorem retainObjectOf_aside (w : World κ σ) (g : Nat) : w.Aside (w.retainObjectOf g).2 := by
  unfold retainObjectOf
  split <;> exact .of_eq rfl rfl rfl rfl

theorem retainItems_aside (w : World κ σ) (items : List Item) : w.Aside (w.retainItems items) := by
  induction items generalizing w with
  | nil => exact .refl w
  | cons i items ih => exact (retainHandle_aside w i.handle).trans (ih _)

theorem takeItems_aside (w : World κ σ) (l : Nat)
    (choose : Definitions → Except Error (List Item)) : w.Aside (w.takeItems l choose).2 := by
  unfold takeItems
  split
  · exact .refl w
  · exact .refl w
  · exact retainItems_aside w _

theorem define_aside (w : World κ σ) (l : Nat) (module name : String) (item : Item) :
    w.Aside (w.define l module name item).2 := by
  unfold define
  split
  · exact .refl w
  · dsimp only
    split <;> exact .of_eq rfl rfl rfl rfl

/-! ### What stores hold and keep -/

theorem hold_aside (w : World κ σ) (s g : Nat) : w.Aside (w.hold s g) := by
  have horigin : w.Aside (w.retainOrigin g) := .of_eq rfl rfl rfl rfl
  refine horigin.trans (.modifyStore _ s ?_)
  exact fun _ _ h => ⟨h, fun _ ho => List.mem_append_left _ ho⟩

theorem copyHeld_aside (w : World κ σ) (s g : Nat) : w.Aside (w.copyHeld s g).2 := by
  unfold copyHeld
  split <;> exact .of_eq rfl rfl rfl rfl

theorem takePanic_aside (w : World κ σ) (s : Nat) : w.Aside (w.takePanic s).2 :=
  .modifyStore w s fun _ _ h => ⟨h, fun _ ho => ho⟩

theorem stashPanic_aside (w : World κ σ) (s : Nat) (p : Payload) : w.Aside (w.stashPanic s p) := by
  refine .trans ?_ (.modifyStore _ s fun _ _ h => ⟨h, fun _ ho => ho⟩)
  split
  · exact fault_aside w _
  · exact .refl w

theorem register_aside (w : World κ σ) (s : Nat) (type : Signature) (code : κ)
    (captures : List Capture) : w.Aside (w.register s type code captures).2 := by
  refine .trans ?_ (retainStore_aside _ s)
  exact .of_eq rfl rfl rfl rfl

/-! ## Steps that lead on

These are the steps by which something new comes into a world, or a guest part is replaced. -/

/-- While the guest part of a store is changed, all stores keep what they hold. -/
theorem Keeps.setGuest {g : Guest.Store} (hg : w.guest? s = some g) (g' : Guest.Store) {t o : Nat}
    (h : w.Keeps t o) : (w.setGuest s g').Keeps t o := by
  refine ⟨h.1.trans_eq Array.size_modify.symm, fun c' hc' hsome => ?_⟩
  have hc' : (w.stores.modify s fun c => { c with guest := some g' })[t]? = some c' := hc'
  rw [Array.getElem?_modify] at hc'
  split at hc'
  · rename_i hst
    obtain ⟨c, hc, rfl⟩ := Option.map_eq_some_iff.mp hc'
    have hsome : c.guest = some g := (guestAt_eq (hst ▸ hc)).symm.trans hg
    exact h.2 c hc (hsome ▸ rfl)
  · exact h.2 c' hc' hsome

/-- The guest part of a store leads to another one, and refers to nothing that the store does not
hold. -/
theorem setGuest_leads (hw : w.Orderly) {g g' : Guest.Store} (hg : w.guest? s = some g)
    (h : g.Leads g') (hr : g'.Rooted (w.Keeps s)) : w.Leads (w.setGuest s g') := by
  have hguests : ∀ t x, (w.setGuest s g').guest? t = some x →
      (t = s ∧ x = g') ∨ w.guest? t = some x := by
    intro t x hx
    by_cases ht : t = s
    · subst ht
      exact .inl ⟨rfl, Option.some.inj (hx.symm.trans (guestAt_setGuest hg g'))⟩
    · refine .inr ?_
      have hx : guestAt (w.stores.modify s fun c => { c with guest := some g' }) t = some x := hx
      rwa [guestAt_modify, if_neg ht] at hx
  refine .of_evolves hw ⟨Array.size_modify.ge, fun t _ x hx => ?_, fun _ hf => hf,
    fun _ _ ho => ho.setGuest hg g'⟩ (fun t x hx => ?_) (fun _ c hc => .inl ⟨c, hc, rfl⟩)
    (fun _ hf => .inl hf) fun _ hp => .inl hp
  · rcases hguests t x hx with ⟨rfl, rfl⟩ | hx
    · exact ⟨g, hg, h.evolves⟩
    · exact ⟨x, hx, .refl x⟩
  · rcases hguests t x hx with ⟨rfl, rfl⟩ | hx
    · exact ⟨h.typed, hr.mono fun _ ho => ho.setGuest hg x⟩
    · exact ⟨hw.guests t x hx, (hw.rooted t x hx).mono fun _ ho => ho.setGuest hg g'⟩

/-- The guest part of a store, if it is there, leads to another one. -/
theorem mapGuest_leads (hw : w.Orderly) (s : Nat) {f : Guest.Store → Guest.Store}
    (hf : ∀ g : Guest.Store, g.Typed → g.Leads (f g))
    (hr : ∀ (g : Guest.Store) (held : Nat → Prop), g.Rooted held → (f g).Rooted held) :
    w.Leads (w.modifyStore s fun c => { c with guest := c.guest.map f }) := by
  cases hg : w.guest? s with
  | none =>
    have hsame : (w.modifyStore s fun c => { c with guest := c.guest.map f }) = w := by
      refine modifyStore_same fun c hc => ?_
      have hnone : c.guest = none := (guestAt_eq hc).symm.trans hg
      rw [hnone, Option.map_none, ← hnone]
    rw [hsame]
    exact .refl hw
  | some g =>
    have hset : (w.modifyStore s fun c => { c with guest := c.guest.map f }) =
        w.setGuest s (f g) := by
      refine modifyStore_congr fun c hc => ?_
      have hsome : c.guest = some g := (guestAt_eq hc).symm.trans hg
      rw [hsome, Option.map_some]
    rw [hset]
    exact setGuest_leads hw hg (hf g (hw.guests s g hg)) (hr g _ (hw.rooted s g hg))

/-- A handle is allocated for something that is there. -/
theorem newHandle_leads (hw : w.Orderly) (s : Nat) {target : Target} (h : target.Declared w) :
    w.Leads (w.newHandle s target).2 := by
  have hstores : w.Aside (w.retainStore s) := retainStore_aside w s
  have hkept : ∀ t o, w.Keeps t o → (w.newHandle s target).2.Keeps t o := hstores.kept
  have he : w.Evolves (w.newHandle s target).2 :=
    ⟨hstores.size.ge, fun t _ g hg => ⟨g, hstores.guests t g hg, .refl g⟩, fun _ hf => hf, hkept⟩
  refine .of_evolves hw he (fun t g hg => ?_) (fun a c hc => ?_) (fun _ hf => .inl hf)
    fun _ hp => .inl hp
  · have hg := hstores.guests t g hg
    exact ⟨hw.guests t g hg, (hw.rooted t g hg).mono (hkept t)⟩
  · have hc := (Slab.get?_insert w.heap _ a).symm.trans hc
    split at hc
    · cases hc
      exact .inr (h.evolve he)
    · exact .inl ⟨c, hc, rfl⟩

/-- A new store has an empty guest part. -/
theorem newStore_leads (hw : w.Orderly) (e : Nat) : w.Leads (w.newStore e).2 := by
  have hguests : ∀ t g, (w.newStore e).2.guest? t = some g →
      (∃ meters, g = .empty meters) ∨ w.guest? t = some g := by
    intro t g hg
    have hg : (((w.stores.push _)[t]?).bind (·.guest)) = some g := hg
    rw [Array.getElem?_push] at hg
    split at hg
    · exact .inl ⟨_, (Option.some.inj hg).symm⟩
    · exact .inr hg
  have hsame : ∀ t < w.stores.size, (w.newStore e).2.stores[t]? = w.stores[t]? := by
    intro t ht
    show (w.stores.push _)[t]? = _
    rw [Array.getElem?_push_lt ht, ← Array.getElem?_eq_getElem ht]
  have hold : ∀ t < w.stores.size, (w.newStore e).2.guest? t = w.guest? t := fun t ht =>
    congrArg (·.bind (·.guest)) (hsame t ht)
  have hsize : w.stores.size ≤ (w.newStore e).2.stores.size := by
    show w.stores.size ≤ (w.stores.push _).size
    simp
  have hkept : ∀ t o, w.Keeps t o → (w.newStore e).2.Keeps t o := fun t o ho =>
    ⟨Nat.lt_of_lt_of_le ho.1 hsize, fun c hc => ho.2 c (hsame t ho.1 ▸ hc)⟩
  refine .of_evolves hw ⟨hsize, fun t ht g hg => ⟨g, hold t ht ▸ hg, .refl g⟩, fun _ hf => hf,
    hkept⟩ (fun t g hg => ?_) (fun _ c hc => .inl ⟨c, hc, rfl⟩) (fun _ hf => .inl hf)
    fun _ hp => .inl hp
  rcases hguests t g hg with ⟨meters, rfl⟩ | hg
  · exact ⟨.empty meters, .empty meters⟩
  · exact ⟨hw.guests t g hg, (hw.rooted t g hg).mono (hkept t)⟩

/-- A host function is made, of the type of its closure. -/
theorem newHostFunction_leads (hw : w.Orderly) (s key : Nat) {type : Signature}
    {r : Registration κ} (hr : r.type = type) : w.Leads (w.newHostFunction s key type r).2 := by
  unfold newHostFunction
  split
  · exact .refl hw
  · rename_i g hg
    subst hr
    have hadd := (hw.guests s g hg).addHost key r.type
    have hset := setGuest_leads hw hg hadd ((hw.rooted s g hg).of_items rfl rfl)
    have hguest : (w.setGuest s (g.addFunc (.host key r.type)).2).guest? s =
        some (g.addFunc (.host key r.type)).2 := guestAt_setGuest hg _
    have hplace : (g.addFunc (.host key r.type)).2.funcs[g.funcs.size]? =
        some (.host key r.type) := by simp [Guest.Store.addFunc]
    -- The function is on record before there is a handle for it.
    let w₁ := { w with chronicle := { w.chronicle with functions :=
      ⟨s, g.funcs.size, key, r⟩ :: w.chronicle.functions } }.setGuest s
        (g.addFunc (.host key r.type)).2
    have hw₁ : w.Leads w₁ := by
      refine .of_evolves hw
        ⟨hset.evolves.size, hset.evolves.guests, fun f hf => ?_, hset.evolves.kept⟩
        (fun t x hx => ⟨hset.typed.guests t x hx, hset.orderly.rooted t x hx⟩)
        (fun _ c hc => .inl ⟨c, hc, rfl⟩) (fun f hf => ?_) fun _ hp => .inl hp
      · exact List.mem_cons_of_mem _ hf
      · rcases List.mem_cons.mp hf with rfl | hf
        · exact .inr (In.of_guest? (w := w₁) hguest hplace)
        · exact .inl hf
    refine hw₁.trans (newHandle_leads hw₁.orderly s (In.of_guest? (w := w₁) hguest ?_))
    simp [Guest.Store.declaredType?, Guest.Store.addFunc]

end World

end WasmHost.Host
