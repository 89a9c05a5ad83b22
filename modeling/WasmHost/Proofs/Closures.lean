import Mathlib.Algebra.BigOperators.Group.Finset.Piecewise
import WasmHost.Proofs.Interleavings

/-!
# Closures are where guests look for them

All stores share one registry, and a key that becomes free is the first to be used again. So it must
never be free while a host function has it, whatever became of other stores in the meantime. Here is
what that comes to in every world that an embedder can reach, in the middle of any requests of any
threads: a call of a host function finds the closure that was registered for that very function, and
every closure is finalised once. Between requests that make closures or take them away, the registry
holds the closures of the host functions that exist, and nothing else.

The danger in sharing a registry is a mistake across stores. Suppose that a store is deleted, and
the closures of its functions are finalised. If another store had a function with one of these keys,
a call of it would run into a closure that is gone, or into a later one that has got the key.
Nothing in the types prevents it, since a key is a number that guest code carries around as a part
of its function.

What prevents it is a count. In the part of the invariant that is about host functions
(`Hosted.keyed`) every key in the registry is owned exactly once, by a function of a living store or
by a request that is just making one. From this everything here is derived, without another look at
any step.

While a function is being made there is a moment in which its closure is registered and the function
is not yet there. The last two of the statements are therefore about worlds in which nobody is
making one; the others hold in all worlds.
-/

namespace WasmHost

/-- The length of a slab is the number of keys that are in use. -/
theorem Slab.Sized.len_eq {α : Type} {s : Slab α} (h : s.Sized) :
    s.len = ((Finset.range s.slots.size).filter fun key => (s.get? key).isSome).card := by
  rw [h, total, WasmHost.total, Finset.card_filter]
  refine Finset.sum_congr rfl fun key _ => ?_
  unfold get?
  cases s.slots[key]? with
  | none => rfl
  | some slot => cases slot <;> rfl

namespace Host

variable {κ σ : Type}

/-- The host functions that have been made and have not been destroyed. -/
def World.living (w : World κ σ) : List (HostFunction κ) :=
  w.chronicle.functions.filter fun f => (w.guest? f.store).isSome

/-- Closures are where guests look for them. -/
structure World.ClosuresInPlace (w : World (Code κ) Pool) : Prop where
  /-- Every call of a host function has come to the closure that was registered for it. -/
  calls : ∀ e ∈ w.chronicle.entries, ∃ f ∈ w.chronicle.functions,
    f.store = e.store ∧ f.key = e.key ∧ e.closure = some f.closure
  /-- A store and a key belong to one host function only. -/
  functions : ∀ f ∈ w.chronicle.functions, ∀ f' ∈ w.chronicle.functions,
    f.store = f'.store → f.key = f'.key → f = f'
  /-- Under the key of every host function of a store is the closure that was registered for it. -/
  found : ∀ s g place key type, w.guest? s = some g → g.funcs[place]? = some (.host key type) →
    ∃ r, ⟨s, place, key, r⟩ ∈ w.chronicle.functions ∧ w.registry.get? key = some r ∧ r.store = s
  /-- A closure that was registered is under one key and has not been finalised, or it is under none
  and has been finalised once. -/
  once : ∀ n < w.chronicle.registered,
    (∃! key, ∃ r, w.registry.get? key = some r ∧ r.number = n) ∧ w.chronicle.finalized.count n = 0 ∨
    (∀ key r, w.registry.get? key = some r → r.number ≠ n) ∧ w.chronicle.finalized.count n = 1
  /-- No closure was missing when it was called, or when it was to be finalised. -/
  present : ∀ key, .unregistered key ∉ w.faults ∧ .finalizedTwice key ∉ w.faults
  /-- While no request makes closures or takes them away, those in the registry are those of the host
  functions that exist. -/
  owned : w.user.making = 0 → ∀ key r, w.registry.get? key = some r →
    ∃ f ∈ w.living, f.key = key ∧ f.closure = r
  /-- While no request makes closures or takes them away, there are as many of them as there are host
  functions. -/
  len : w.user.making = 0 → w.registry.len = w.living.length

/-! ## Host functions and closures

In both directions: from a function to its closure, and from a closure to its function. -/

section Registry

variable {C T L : Ledger κ} {stores : Array StoreCell} {registry : Slab (Registration κ)}
  {functions : List (HostFunction κ)} {registered : Nat} {finalized : List Nat}

namespace Hosted

variable (h : Hosted C stores registry functions registered finalized)

include h

/-- Under the key of a host function that exists is the closure that was registered for it. -/
theorem registry_get? {f : HostFunction κ} (hf : f ∈ functions) {g : Guest.Store}
    (hg : guestAt stores f.store = some g) :
    registry.get? f.key = some f.closure ∧ f.closure.store = f.store := by
  obtain ⟨type, hplace⟩ := (h.sited f hf).2 g hg
  obtain ⟨r, hmem, hr, hs⟩ := h.bound f.store g f.place f.key type hg hplace
  obtain rfl : r = f.closure :=
    congrArg HostFunction.closure (List.inj_on_of_nodup_map h.made hmem hf rfl)
  exact ⟨hr, hs⟩

/-- A key belongs to one host function that exists, in whatever store. -/
theorem function_unique {f f' : HostFunction κ} (hf : f ∈ functions) (hf' : f' ∈ functions)
    {g g' : Guest.Store} (hg : guestAt stores f.store = some g)
    (hg' : guestAt stores f'.store = some g') (hkey : f.key = f'.key) : f = f' := by
  obtain ⟨hr, hs⟩ := h.registry_get? hf hg
  obtain ⟨hr', hs'⟩ := h.registry_get? hf' hg'
  have hclosure : f.closure = f'.closure := by
    rw [hkey, hr'] at hr
    exact (Option.some.inj hr).symm
  have hstore : f.store = f'.store := by rw [← hs, ← hs', hclosure]
  exact List.inj_on_of_nodup_map h.made hf hf' (Prod.ext hstore hkey)

/-- If no closure is without a function, every closure is that of a host function that exists. -/
theorem exists_function (hp : C.pins = 0) {key : Nat} {r : Registration κ}
    (hr : registry.get? key = some r) :
    ∃ f ∈ functions, (guestAt stores f.store).isSome ∧ f.key = key ∧ f.closure = r := by
  have hk := h.keyed key
  rw [hr, hp, Multiset.count_zero, add_zero, Option.elim_some] at hk
  -- The key is owned, and by nobody who is making a function.
  obtain ⟨s, c, hc, hmem⟩ := mem_total.mp (Multiset.count_pos.mp (hk ▸ Nat.one_pos))
  obtain ⟨g, hg⟩ : ∃ g, c.guest = some g := by
    cases hg : c.guest with
    | none => simp [storeKeys, hg] at hmem
    | some g => exact ⟨g, rfl⟩
  have hat : guestAt stores s = some g := (guestAt_eq hc).trans hg
  obtain ⟨place, type, hf⟩ := World.mem_hostKeys.mp (by simpa [storeKeys, hg] using hmem)
  obtain ⟨r', hmem, hr', -⟩ := h.bound s g place key type hat hf
  exact ⟨_, hmem, by simp [hat], rfl, by rw [hr] at hr'; exact (Option.some.inj hr').symm⟩

/-- Every closure that was registered is in the registry, or has been finalised once. -/
theorem numbered_cases {n : Nat} (hn : n < registered) :
    (∃! key, ∃ r, registry.get? key = some r ∧ r.number = n) ∧ finalized.count n = 0 ∨
      (∀ key r, registry.get? key = some r → r.number ≠ n) ∧ finalized.count n = 1 := by
  obtain ⟨⟨key, r, hr, rfl⟩, hcount⟩ | h := Slab.numbered_cases h.numbered hn
  · refine .inl ⟨⟨key, ⟨r, hr, rfl⟩, ?_⟩, hcount⟩
    rintro key' ⟨r', hr', hn'⟩
    exact Slab.eq_of_numbered h.numbered hr hr' hn'
  · exact .inr h

/-- If no closure is without a function, there are as many closures as host functions. -/
theorem len_eq (hp : C.pins = 0) :
    registry.len = (functions.filter fun f => (guestAt stores f.store).isSome).length := by
  -- Both sides are the number of the same keys.
  have hliving : ∀ f ∈ functions.filter fun f => (guestAt stores f.store).isSome,
      f ∈ functions ∧ ∃ g, guestAt stores f.store = some g := fun f hf =>
    (List.mem_filter.mp hf).imp_right Option.isSome_iff_exists.mp
  have hnodup : ((functions.filter fun f => (guestAt stores f.store).isSome).map
      HostFunction.key).Nodup := by
    refine List.Nodup.map_on (fun f hf f' hf' hkey => ?_) ((h.made.of_map _).filter _)
    obtain ⟨hf, g, hg⟩ := hliving f hf
    obtain ⟨hf', g', hg'⟩ := hliving f' hf'
    exact h.function_unique hf hf' hg hg' hkey
  rw [h.sized.len_eq, ← List.length_map HostFunction.key, ← List.toFinset_card_of_nodup hnodup]
  congr 1
  ext key
  simp only [Finset.mem_filter, Finset.mem_range, List.mem_toFinset, List.mem_map]
  constructor
  · rintro ⟨-, hsome⟩
    obtain ⟨r, hr⟩ := Option.isSome_iff_exists.mp hsome
    obtain ⟨f, hf, hg, hkey, -⟩ := h.exists_function hp hr
    exact ⟨f, List.mem_filter.mpr ⟨hf, hg⟩, hkey⟩
  · rintro ⟨f, hf, rfl⟩
    obtain ⟨hf, g, hg⟩ := hliving f hf
    have hr := (h.registry_get? hf hg).1
    exact ⟨(Array.getElem?_eq_some_iff.mp (Slab.slots_of_get? hr)).1, by simp [hr]⟩

end Hosted

end Registry

namespace Invariant

variable {L : Ledger (Code κ)} {w : World (Code κ) Pool}

/-- While no request makes closures or takes them away, every closure has a function. -/
theorem pins_eq_zero (hw : Invariant L w) (h : w.user.making = 0) :
    (L + Keeper.kept w.user).claims.pins = 0 := by
  refine Multiset.eq_zero_of_forall_notMem fun key hkey => ?_
  obtain ⟨t, ht, hpins⟩ := Multiset.mem_bind.mp hkey
  cases t with
  | making pins =>
    -- Such a token is held by a request that is making a function. There is none, and the pool
    -- never holds one.
    rcases Multiset.mem_add.mp (Multiset.mem_of_mem_filter ht) with hL | hkept
    · have hmakings : L.makings = 0 := hw.lent.making.trans h
      exact Multiset.countP_eq_zero.mp hmakings _ hL rfl
    · obtain ⟨x, hx⟩ | ⟨s, hs⟩ := Keeper.plain hkept <;> contradiction
  | _ => exact Multiset.notMem_zero _ hpins

theorem closuresInPlace (hw : Invariant L w) : w.ClosuresInPlace where
  calls := hw.sound.blameless.calls
  functions f hf f' hf' hs hk :=
    List.inj_on_of_nodup_map hw.sound.hosted.made hf hf' (Prod.ext hs hk)
  found := hw.sound.hosted.bound
  once n hn := hw.sound.hosted.numbered_cases hn
  present key := by
    constructor <;> intro hf <;> cases hw.sound.blameless.faultless _ hf
  owned h key r hr := by
    obtain ⟨f, hf, hg, hkey, hclosure⟩ := hw.sound.hosted.exists_function (hw.pins_eq_zero h) hr
    exact ⟨f, List.mem_filter.mpr ⟨hf, hg⟩, hkey, hclosure⟩
  len h := hw.sound.hosted.len_eq (hw.pins_eq_zero h)

end Invariant

/-- In every world that an embedder reaches, whatever its programs are and in whatever order its
threads take their steps, closures are where guests look for them. -/
theorem Embedder.closures_in_place (embedder : Embedder κ) (depth : Nat)
    (programs : List (Program κ Unit)) (order : List Nat) :
    ((embedder.start depth programs).run order).world.ClosuresInPlace := by
  obtain ⟨Ls, -, hw⟩ := (embedder.safe_start depth programs).run order
  exact hw.closuresInPlace

end Host

end WasmHost
