import WasmHost.Proofs.Closures
import WasmHost.Proofs.Handles

/-!
# Nothing is left behind

What belongs to a store goes in several waves: some handles when the store is deleted, more when its
closures are finalised and let go of what they keep alive, others later, when there is no store any
more that could drain them. In whatever order an embedder drops what it has, once a store and the
wrappers of its objects are gone, every handle of it has been reclaimed once, and none of its closures
is left. An engine is deleted once, when the last thing that refers to it goes; nothing that was made
from it is there any more by then.

That everything is released "in the end" is not something that one step could be blamed for. A store
is deleted when its last share goes, and with it go its functions; their closures are finalised and
let go of wrappers, perhaps of the same store, whose handles join the queue of a store that is no
more; and the last of *these* is what drains that queue. One could try to follow this cascade and to
find a measure for it. It is not necessary. The accounts say in every world that whatever exists is
referred to by somebody. When all threads are over there is nobody left but the pool and the world
itself, so a handle that nobody wraps has no reason to exist, whatever the order was in which it
lost its reasons.

For engines it is the other way round: they must not go too early. Here too the accounts answer at
once, in every world and not only at the end, since a module, a linker or a store that is there
refers to its engine.
-/

namespace WasmHost.Host

variable {κ σ : Type}

/-! ## What refers to stores and engines

The sum of all references is a sum over many arrays; it has to be found out which of them may
contain a given share. -/

theorem Wrapper.share_ne_store (x : Wrapper) (s : Nat) : x.share ≠ .store s := by
  simp [share]

theorem Capture.share_ne_store (c : Capture) (s : Nat) : c.share ≠ .store s := by
  cases c <;> simp [share, Wrapper.share]

namespace World

variable {w : World κ σ}

/-- What the world refers to a store for: its guest part, its handles, and its closures. -/
theorem of_store_mem_refs {s : Nat} (h : .store s ∈ w.refs) :
    (∃ c, w.stores[s]? = some c ∧ c.guest.isSome) ∨
    (∃ a c, w.heap.get? a = some c ∧ 0 < c.shares ∧ c.store = s) ∨
    ∃ key r, w.registry.get? key = some r ∧ r.store = s := by
  simp only [refs, Multiset.mem_add, mem_total, Slab.mem_total] at h
  rcases h with (((((⟨_, c, -, h⟩ | ⟨t, c, hc, h⟩) | ⟨_, c, -, h⟩) | ⟨_, c, -, h⟩) | ⟨_, c, -, h⟩) |
    ⟨a, c, hc, h⟩) | ⟨key, r, hr, h⟩
  · -- Modules refer to engines,
    unfold moduleRefs at h
    split at h <;> simp at h
  · simp only [storeRefs, Multiset.mem_add] at h
    rcases h with (h | h) | h
    · split at h <;> simp at h
    · split at h
      · rename_i hg
        obtain rfl : s = t := by simpa using h
        exact .inl ⟨c, hc, hg⟩
      · simp at h
    · simp at h
  · -- linkers to engines and wrappers,
    unfold linkerRefs at h
    split at h
    · simp only [Multiset.mem_cons, Multiset.mem_coe, List.mem_map] at h
      obtain h | ⟨d, -, h⟩ := h
      · cases h
      · exact absurd h (Wrapper.share_ne_store _ s)
    · simp at h
  · -- and host objects to wrappers.
    unfold objectRefs at h
    split at h
    · simp at h
    · obtain ⟨x, -, h⟩ := List.mem_map.mp (Multiset.mem_coe.mp h)
      exact absurd h (Wrapper.share_ne_store x s)
  · unfold originRefs at h
    split at h <;> simp at h
  · unfold handleRefs at h
    split at h
    · rename_i hpos
      exact .inr (.inl ⟨a, c, hc, hpos, by simpa [eq_comm] using h⟩)
    · simp at h
  · simp only [registrationRefs, Multiset.mem_cons, Multiset.mem_coe, List.mem_map] at h
    obtain h | ⟨c, -, h⟩ := h
    · exact .inr (.inr ⟨key, r, hr, by simpa [eq_comm] using h⟩)
    · exact absurd h (Capture.share_ne_store c s)

theorem engine_mem_refs_of_store {s : Nat} {c : StoreCell} (hc : w.stores[s]? = some c)
    (hpos : 0 < c.shares) : .engine c.engine ∈ w.refs := by
  have h : .engine c.engine ∈ total w.stores storeRefs :=
    mem_total.mpr ⟨s, c, hc, by simp [storeRefs, hpos]⟩
  simp [refs, h]

theorem engine_mem_refs_of_module {m : Nat} {c : ModuleCell} (hc : w.modules[m]? = some c)
    (hpos : 0 < c.shares) : .engine c.engine ∈ w.refs := by
  have h : .engine c.engine ∈ total w.modules moduleRefs :=
    mem_total.mpr ⟨m, c, hc, by simp [moduleRefs, hpos]⟩
  simp [refs, h]

theorem engine_mem_refs_of_linker {l : Nat} {c : LinkerCell} (hc : w.linkers[l]? = some c)
    (hpos : 0 < c.shares) : .engine c.engine ∈ w.refs := by
  have h : .engine c.engine ∈ total w.linkers linkerRefs :=
    mem_total.mpr ⟨l, c, hc, by simp [linkerRefs, hpos]⟩
  simp [refs, h]

theorem store_mem_refs_of_handle {a : Handle} {c : HandleCell} (hc : w.heap.get? a = some c)
    (hpos : 0 < c.shares) : .store c.store ∈ w.refs := by
  have h : .store c.store ∈ w.heap.total handleRefs :=
    Slab.mem_total.mpr ⟨a, c, hc, by simp [handleRefs, hpos]⟩
  simp [refs, h]

theorem store_mem_refs_of_guest {s : Nat} {c : StoreCell} (hc : w.stores[s]? = some c)
    (hg : c.guest.isSome) : .store s ∈ w.refs := by
  have h : .store s ∈ total w.stores storeRefs :=
    mem_total.mpr ⟨s, c, hc, by simp [storeRefs, hg]⟩
  simp [refs, h]

end World

/-! ## Engines

That a store is gone means more than that it has been deleted: it may be deleted and still have
handles that wait. -/

/-- A store is gone: nothing shares it, it is deleted, and nothing waits in it. -/
structure StoreCell.Gone (c : StoreCell) : Prop where
  shares : c.shares = 0
  guest : c.guest = none
  queue : c.queue.toList = []
  held : c.held = []

/-- Engines are deleted when nothing refers to them, and not before. -/
structure World.EnginesInPlace (w : World κ σ) : Prop where
  /-- An engine that is shared has not been deleted, and every other one has been, once. -/
  once : ∀ e c, w.engines[e]? = some c →
    w.chronicle.engines.count e = if c.shares = 0 then 1 else 0
  /-- What the world refers to an engine for is shared at least as often. -/
  referred : ∀ e, w.refs.count (.engine e) ≤ w.recorded (.engine e)
  /-- When an engine is deleted, its stores are gone, -/
  stores : ∀ e ∈ w.chronicle.engines, ∀ (s : Nat) (c : StoreCell), w.stores[s]? = some c →
    c.engine = e → c.Gone
  /-- its modules and linkers are gone, -/
  modules : ∀ e ∈ w.chronicle.engines, ∀ (m : Nat) (c : ModuleCell), w.modules[m]? = some c →
    c.engine = e → c.shares = 0
  linkers : ∀ e ∈ w.chronicle.engines, ∀ (l : Nat) (c : LinkerCell), w.linkers[l]? = some c →
    c.engine = e → c.shares = 0
  /-- and there are no handles of them any more, not even ones that wait. -/
  handles : ∀ e ∈ w.chronicle.engines, ∀ a c, w.heap.get? a = some c →
    ∃ d : StoreCell, w.stores[c.store]? = some d ∧ d.engine ≠ e

namespace Sound

variable {T : Ledger κ} {w : World κ σ}

/-- What the world refers to is shared. -/
theorem pos_of_mem_refs (h : Sound T w) {x : Share} (hx : x ∈ w.refs) : 0 < w.recorded x := by
  have hcount := Multiset.count_pos.mpr hx
  have hbalanced := h.balanced x
  omega

/-- A store that nothing shares is gone. -/
theorem gone (h : Sound T w) {s : Nat} {c : StoreCell} (hc : w.stores[s]? = some c)
    (hzero : c.shares = 0) : c.Gone := by
  have hguest : c.guest = none := by
    by_contra hg
    have hpos := h.pos_of_mem_refs (World.store_mem_refs_of_guest hc (Option.isSome_iff_ne_none.mpr hg))
    simp [World.recorded, hc, hzero] at hpos
  exact ⟨hzero, hguest, h.queued.settled s c hc hzero, (h.hosted.vacant s c hc hguest).2⟩

/-- The stores of handles that are shared are shared. -/
theorem pos_of_handle (h : Sound T w) {a : Handle} {c : HandleCell} (hc : w.heap.get? a = some c)
    (hpos : 0 < c.shares) : ∃ d, w.stores[c.store]? = some d ∧ 0 < d.shares :=
  elim_pos.mp (h.pos_of_mem_refs (World.store_mem_refs_of_handle hc hpos))

/-- Nothing refers to an engine that is deleted. -/
theorem engine_notMem_refs (h : Sound T w) {e : Nat} (he : e ∈ w.chronicle.engines) :
    .engine e ∉ w.refs := by
  intro hmem
  obtain ⟨c, hc, hpos⟩ := elim_pos.mp (h.pos_of_mem_refs hmem)
  have hcount := h.engines e
  rw [hc, Option.elim_some, if_neg hpos.ne'] at hcount
  exact List.count_eq_zero.mp hcount he

theorem enginesInPlace (h : Sound T w) : w.EnginesInPlace where
  once e c hc := by rw [h.engines e, hc, Option.elim_some]
  referred e := by
    have hbalanced := h.balanced (.engine e)
    omega
  stores e he s c hc hce := by
    subst hce
    refine h.gone hc (Nat.eq_zero_of_not_pos fun hpos => ?_)
    exact h.engine_notMem_refs he (World.engine_mem_refs_of_store hc hpos)
  modules e he m c hc hce := by
    subst hce
    refine Nat.eq_zero_of_not_pos fun hpos => ?_
    exact h.engine_notMem_refs he (World.engine_mem_refs_of_module hc hpos)
  linkers e he l c hc hce := by
    subst hce
    refine Nat.eq_zero_of_not_pos fun hpos => ?_
    exact h.engine_notMem_refs he (World.engine_mem_refs_of_linker hc hpos)
  handles e he a c hc := by
    have hlt := h.queued.placed a c hc
    have hd : w.stores[c.store]? = some w.stores[c.store] := Array.getElem?_eq_getElem hlt
    refine ⟨_, hd, fun hce => ?_⟩
    have hzero : w.stores[c.store].shares = 0 := by
      refine Nat.eq_zero_of_not_pos fun hpos => ?_
      exact h.engine_notMem_refs he (hce ▸ World.engine_mem_refs_of_store hd hpos)
    -- Nothing waits in a store that is gone, and nothing is shared there.
    rcases Nat.eq_zero_or_pos c.shares with hshares | hshares
    · have hmem := (h.queued.waiting _ _ hd a).mpr ⟨c, hc, rfl, hshares⟩
      rw [h.queued.settled _ _ hd hzero] at hmem
      cases hmem
    · obtain ⟨d, hd', hpos⟩ := h.pos_of_handle hc hshares
      obtain rfl := Option.some.inj (hd.symm.trans hd')
      omega

end Sound

/-! ## Stores

A wrapper holds a share of a handle. So a handle of which there is no wrapper is shared by
nobody. -/

/-- No wrapper of an object of a store is left, neither in the pool nor in what the world keeps. -/
def World.Unwrapped (w : World (Code κ) Pool) (s : Nat) : Prop :=
  ∀ a c, w.heap.get? a = some c → c.store = s → w.references (.handle a c.target.sort) = 0

/-- Nothing of a store is left. -/
structure World.TornDown (w : World κ σ) (s : Nat) : Prop where
  /-- Every handle that was ever allocated has been reclaimed once. -/
  handles : ∀ n, w.chronicle.allocated[n]? = some s → w.Reclaimed n
  /-- No closure is registered. -/
  closures : ∀ key r, w.registry.get? key = some r → r.store ≠ s
  /-- Nobody shares it. -/
  gone : ∀ c, w.stores[s]? = some c → c.Gone

/-- Nothing is left of what an embedder has dropped. -/
structure World.TeardownComplete (w : World (Code κ) Pool) : Prop where
  /-- A store that is deleted, and of whose objects no wrapper is left, is torn down. -/
  stores : ∀ s c, w.stores[s]? = some c → c.guest = none → w.Unwrapped s → w.TornDown s
  /-- An engine has been deleted once if nothing refers to it, and not at all if something does. -/
  engines : ∀ e < w.engines.size,
    w.chronicle.engines.count e = if w.references (.engine e) = 0 then 1 else 0

namespace Invariant

variable {w : World (Code κ) Pool}

/-- No store is in the pool under a share. -/
theorem store_notMem_kept (s : Nat) : .store s ∉ (Pool.kept w.user : Ledger (Code κ)).shares := by
  intro h
  obtain ⟨i, o, -, ho⟩ := mem_total.mp (Ledger.mem_shares.mp h)
  obtain _ | ⟨⟨c⟩ | ⟨t⟩, n⟩ := o
  · cases ho
  · have hc : c.share = .store s := by
      simpa [Pool.placeTokens, Thing.token, eq_comm] using ho
    exact Capture.share_ne_store c s hc
  · simp [Pool.placeTokens, Thing.token] at ho

theorem tornDown (hw : Invariant (0 : Ledger (Code κ)) w) {s : Nat} {c : StoreCell}
    (hc : w.stores[s]? = some c) (hguest : c.guest = none) (hu : w.Unwrapped s) : w.TornDown s := by
  have hmaking : w.user.making = 0 := hw.lent.making.symm
  have hvacant : w.guest? s = none := by simp [World.guest?, hc, hguest]
  -- Whoever owned a closure of the store is gone.
  have hclosures : ∀ key r, w.registry.get? key = some r → r.store ≠ s := by
    rintro key r hr rfl
    obtain ⟨f, hf, hg, -, rfl⟩ := hw.sound.hosted.exists_function (hw.pins_eq_zero hmaking) hr
    obtain ⟨g, hg⟩ := Option.isSome_iff_exists.mp hg
    rw [(hw.sound.hosted.registry_get? hf hg).2] at hvacant
    exact absurd (hvacant.symm.trans hg) (by simp)
  have hunshared : ∀ a d, w.heap.get? a = some d → d.store = s → d.shares = 0 := by
    intro a d hd hs
    have hrecorded := hw.references_eq (.handle a d.target.sort)
    rw [hu a d hd hs] at hrecorded
    simpa [World.recorded, hd] using hrecorded.symm
  -- So nothing refers to the store, and what waited in it has been reclaimed.
  have hzero : c.shares = 0 := by
    have hrecorded := hw.references_eq (.store s)
    have hrefs : .store s ∉ w.refs := fun hmem => by
      rcases World.of_store_mem_refs hmem with ⟨d, hd, hsome⟩ | ⟨a, d, hd, hpos, hs⟩ | ⟨key, r, hr, hs⟩
      · obtain rfl := Option.some.inj (hc.symm.trans hd)
        simp [hguest] at hsome
      · exact hpos.ne' (hunshared a d hd hs)
      · exact hclosures key r hr hs
    rw [World.references, Multiset.count_eq_zero_of_notMem hrefs,
      Multiset.count_eq_zero_of_notMem (store_notMem_kept s)] at hrecorded
    simpa [World.recorded, hc] using hrecorded.symm
  have hgone := hw.sound.gone hc hzero
  refine ⟨fun n hn => ?_, hclosures, fun d hd => Option.some.inj (hc.symm.trans hd) ▸ hgone⟩
  -- A handle that was allocated is owned, or waits, or has been reclaimed. The first two are
  -- excluded.
  rcases hw.sound.handle_cases (Array.getElem?_eq_some_iff.mp hn).1 with h | h | h
  · obtain ⟨a, d, ha, hpos, -⟩ := h
    exact absurd (hunshared a d ha.found (Option.some.inj (ha.store.symm.trans hn))) hpos.ne'
  · obtain ⟨a, d, ha, -, ⟨d', hd', hcount⟩, -⟩ := h
    obtain rfl : d.store = s := Option.some.inj (ha.store.symm.trans hn)
    obtain rfl := Option.some.inj (hc.symm.trans hd')
    simp [hgone.queue] at hcount
  · exact h

theorem teardownComplete (hw : Invariant (0 : Ledger (Code κ)) w) : w.TeardownComplete where
  stores _ _ hc hguest hu := hw.tornDown hc hguest hu
  engines e he := by
    have hc : w.engines[e]? = some w.engines[e] := Array.getElem?_eq_getElem he
    rw [hw.sound.enginesInPlace.once e _ hc, hw.references_eq]
    simp [World.recorded, hc]

end Invariant

/-- In every world that an embedder reaches, no engine has been deleted before everything that was
made from it. Once the threads are over, nothing is left of stores and engines that have been let go
of, in whatever order that was. -/
theorem Embedder.teardown_complete (embedder : Embedder κ) (depth : Nat)
    (programs : List (Program κ Unit)) (order : List Nat) :
    ((embedder.start depth programs).run order).world.EnginesInPlace ∧
    (((embedder.start depth programs).run order).Over →
      ((embedder.start depth programs).run order).world.TeardownComplete) := by
  have hsafe := (embedder.safe_start depth programs).run order
  obtain ⟨Ls, -, hw⟩ := id hsafe
  exact ⟨hw.sound.enginesInPlace, fun hover => (hsafe.over hover).teardownComplete⟩

end WasmHost.Host
