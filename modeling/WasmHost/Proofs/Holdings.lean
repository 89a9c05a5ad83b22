import WasmHost.Proofs.Handles

/-!
# Where clones and copies are

The world and the pool refer to a host object in two ways. There are clones of it, which lie in the pool
or are kept alive by closures; and there are origins of it, of which stores hold copies.

In the accounts the two ways are counted together with everything else that is referred to, in one
sum over the whole world. A statement about host objects should not mention that sum; it should say
how many clones there are and where. So the sum is taken apart here, share by share, and each part
is found to be zero or one of the two numbers `copiesHeld` and `clonesHeld`, which are defined
without ledgers.
-/

namespace WasmHost.Host

open Act

variable {κ σ : Type}

/-- The shares of ledgers, taken together. -/
def Ledger.sharesHom : Ledger κ →+ Multiset Share where
  toFun := shares
  map_zero' := shares_zero
  map_add' := shares_add

namespace World

/-- An origin with copies stands for its host object. -/
def standsFor (o : ObjectId) (_ : Nat) (c : OriginCell) : Nat :=
  if c.object = o ∧ 0 < c.copies then 1 else 0

/-- How many origins of a host object have not been released. -/
def standingFor (w : World κ σ) (o : ObjectId) : Nat := total w.origins (standsFor o)

theorem standingFor_pos (w : World κ σ) {o : ObjectId} : 0 < w.standingFor o ↔
    ∃ (g : Nat) (d : OriginCell), w.origins[g]? = some d ∧ d.object = o ∧ 0 < d.copies := by
  have hcell : ∀ (g : Nat) (d : OriginCell),
      0 < standsFor o g d ↔ d.object = o ∧ 0 < d.copies := fun g d => by
    unfold standsFor
    split <;> simp_all
  rw [standingFor, total_pos]
  simp only [hcell]

/-- How many copies of an origin stores hold. -/
def copiesHeld (w : World κ σ) (g : Nat) : Nat := total w.stores fun _ c => c.held.count g

/-- How many clones of a host object lie in the pool, or are kept alive by closures. -/
def clonesHeld (w : World (Code κ) Pool) (o : ObjectId) : Nat :=
  (total w.user.places fun _ p => if p.any (·.thing = .capture (.object o)) then 1 else 0) +
    w.registry.total fun _ r => r.captures.count (.object o)

/-- What is neither an engine, a store, a handle nor a tie, the world refers to for the copies that
stores hold and for what closures keep alive. -/
theorem count_refs (w : World κ σ) {x : Share} (hengine : ∀ e, x ≠ .engine e)
    (hstore : ∀ s, x ≠ .store s) (hhandle : ∀ h sort, x ≠ .handle h sort) (htie : ∀ o, x ≠ .tie o) :
    w.refs.count x = (total w.stores fun _ c => (c.held.map Share.origin).count x) +
      w.registry.total fun _ r => (r.captures.map Capture.share).count x := by
  -- Modules, linkers, objects, origins and handles refer to nothing of this sort.
  have hwrappers : ∀ xs : List Wrapper, (xs.map Wrapper.share).count x = 0 := fun xs => by
    refine List.count_eq_zero.mpr fun h => ?_
    obtain ⟨y, -, hy⟩ := List.mem_map.mp h
    exact hhandle _ _ hy.symm
  have hmodules : (total w.modules fun m c => (moduleRefs m c).count x) = 0 :=
    total_eq_zero _ fun m c => by unfold moduleRefs; split <;> simp [hengine]
  have hstores : (total w.stores fun s c => (storeRefs s c).count x) =
      total w.stores fun _ c => (c.held.map Share.origin).count x :=
    congrArg (total w.stores) (funext₂ fun s c => by
      have hown : Multiset.count x ((if 0 < c.shares then {.engine c.engine} else 0) +
          if c.guest.isSome then {.store s} else 0) = 0 := by
        split <;> split <;> simp [hengine, hstore]
      rw [storeRefs, Multiset.count_add, hown, zero_add, Multiset.coe_count])
  have hlinkers : (total w.linkers fun l c => (linkerRefs l c).count x) = 0 :=
    total_eq_zero _ fun l c => by
      have hdefinitions := hwrappers (c.definitions.map (·.2.wrapper))
      rw [List.map_map] at hdefinitions
      unfold linkerRefs
      split
      · rw [Multiset.count_cons_of_ne (hengine _)]
        exact (Multiset.coe_count _ _).trans hdefinitions
      · rfl
  have hobjects : (total w.objects fun o c => (objectRefs o c).count x) = 0 :=
    total_eq_zero _ fun o c => by
      unfold objectRefs
      split
      · rfl
      · exact (Multiset.coe_count _ _).trans (hwrappers c.captures)
  have horigins : (total w.origins fun g c => (originRefs g c).count x) = 0 :=
    total_eq_zero _ fun g c => by unfold originRefs; split <;> simp [htie]
  have hheap : (w.heap.total fun h c => (handleRefs h c).count x) = 0 :=
    Slab.total_eq_zero _ fun h c => by unfold handleRefs; split <;> simp [hstore]
  have hregistry : (w.registry.total fun key r => (registrationRefs key r).count x) =
      w.registry.total fun _ r => (r.captures.map Capture.share).count x :=
    congrArg w.registry.total (funext₂ fun key r =>
      (Multiset.count_cons_of_ne (hstore _) _).trans (Multiset.coe_count _ _))
  simp only [refs, Multiset.count_add, count_total, Slab.count_total, hmodules, hstores, hlinkers,
    hobjects, horigins, hheap, hregistry, zero_add, add_zero]

/-- The world and the pool refer to an origin for the copies that stores hold. -/
theorem references_origin (w : World (Code κ) Pool) (g : Nat) :
    w.references (.origin g) = w.copiesHeld g := by
  have hregistry : (w.registry.total fun _ r =>
      (r.captures.map Capture.share).count (.origin g)) = 0 :=
    Slab.total_eq_zero _ fun key r => List.count_eq_zero.mpr fun h => by
      obtain ⟨c, -, hc⟩ := List.mem_map.mp h
      cases c <;> cases hc
  have hkept : (Pool.kept w.user : Ledger (Code κ)).shares.count (.origin g) = 0 :=
    Multiset.count_eq_zero_of_notMem fun h => by
      obtain ⟨i, p, -, hp⟩ := mem_total.mp (Ledger.mem_shares.mp h)
      obtain _ | ⟨⟨c⟩ | ⟨s⟩, n⟩ := p
      · cases hp
      · cases c <;> simp [Pool.placeTokens, Thing.token, Capture.share, Wrapper.share] at hp
      · simp [Pool.placeTokens, Thing.token] at hp
  have hheld : ∀ gs : List Nat, (gs.map Share.origin).count (.origin g) = gs.count g :=
    fun gs => List.count_map_of_injective _ _ (fun _ _ h => Share.origin.inj h) _
  rw [references, w.count_refs (by simp) (by simp) (by simp) (by simp), hregistry, hkept]
  simp only [hheld, add_zero]
  rfl

/-- The world and the pool refer to a host object for the clones in the pool and in closures. -/
theorem references_object (w : World (Code κ) Pool) (o : ObjectId) :
    w.references (.object o) = w.clonesHeld o := by
  have hstores : (total w.stores fun _ c => (c.held.map Share.origin).count (.object o)) = 0 :=
    total_eq_zero _ fun s c => List.count_eq_zero.mpr fun h => by
      obtain ⟨g, -, hg⟩ := List.mem_map.mp h
      cases hg
  have hcaptures : ∀ cs : List Capture,
      (cs.map Capture.share).count (.object o) = cs.count (.object o) := fun cs => by
    induction cs with
    | nil => rfl
    | cons c cs ih =>
      rw [List.map_cons, List.count_cons, List.count_cons, ih]
      cases c <;> simp [Capture.share, Wrapper.share]
  have hkept : (Pool.kept w.user : Ledger (Code κ)).shares.count (.object o) =
      total w.user.places fun _ p => if p.any (·.thing = .capture (.object o)) then 1 else 0 := by
    refine (total_hom ((Multiset.countAddMonoidHom (.object o)).comp Ledger.sharesHom)
      w.user.places Pool.placeTokens).trans (congrArg (total w.user.places) (funext₂ fun i p => ?_))
    show Multiset.count _ (Ledger.shares (Pool.placeTokens i p)) = _
    obtain _ | ⟨⟨c⟩ | ⟨s⟩, n⟩ := p
    · rfl
    · -- A capture in the pool is a clone of the object, or it is something else.
      by_cases hc : c = .object o
      · subst hc
        simp [Pool.placeTokens, Thing.token, Capture.share, ← Multiset.cons_zero]
      · have hne : Share.object o ≠ c.share := by
          cases c <;> simp_all [Capture.share, Wrapper.share, eq_comm]
        simp [Pool.placeTokens, Thing.token, ← Multiset.cons_zero, hne, hc]
    · rfl
  rw [references, w.count_refs (by simp) (by simp) (by simp) (by simp), hstores, hkept]
  simp only [hcaptures, zero_add]
  exact add_comm _ _

end World

end WasmHost.Host
