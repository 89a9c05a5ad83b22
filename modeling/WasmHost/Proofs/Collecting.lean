import WasmHost.Host.Collector
import WasmHost.Proofs.ConfinedPrograms

/-!
# Collectors keep to the rules

A copy that a store gives up comes into the hands of the collector, which lets go of it at once. So a
collector is a thread like any other, and keeps to a ledger. Whatever collectors let go of, and whenever
they do it, the invariant holds.

When a store gives up a copy of an origin is up to its collector, about which nothing is known. It
may never do so, or do so at the worst moment. Therefore a collector is not modelled by what it
does, but is given as a list of copies that it gives up if it can, and everything is proved for all
lists, for any number of collectors and for all interleavings. The invariant has nothing to say
about which copies are reachable. It counts them, and giving one up is allowed at any time.

`surrender` is the one step that is new here. It takes a copy from a store and puts it into
somebody's hands, and all that follows is releasing, which is known.
-/

namespace WasmHost.Host

open Act

variable {κ σ : Type}

/-! ## Giving up a copy

The store refers to one copy less, and the share of it is what the collector holds from now on. -/

/-- The copy that a store gives up is in somebody's hands. -/
theorem Balanced.surrender {S : Multiset Share} {w : World κ σ} {s g : Nat} {c : StoreCell}
    (h : Balanced S w) (hc : w.stores[s]? = some c) (hg : g ∈ c.held) :
    Balanced (.origin g ::ₘ S) (w.modifyStore s fun c => { c with held := c.held.erase g }) := by
  have ht := total_modify World.storeRefs (fun c => { c with held := c.held.erase g }) hc
  have hheld : (c.held.map Share.origin : Multiset Share) =
      .origin g ::ₘ (c.held.erase g).map Share.origin :=
    Multiset.coe_eq_coe.mpr ((List.perm_cons_erase hg).map Share.origin)
  refine h.transfer (A := {.origin g}) (B := 0) (D := 0) (U := 0) ?_ (fun x => ?_) ?_
  · simp only [World.modifyStore, World.refs]
    ext y
    have hy := congrArg (Multiset.count y) ht
    simp only [World.storeRefs, hheld, Multiset.count_add, Multiset.count_cons,
      Multiset.count_singleton, Multiset.count_zero] at hy ⊢
    omega
  · rw [Balanced.recorded_modifyStore hc rfl]
  · simp only [← Multiset.singleton_add]
    ac_rfl

theorem Sound.surrender {T : Ledger κ} {w : World κ σ} (h : Sound T w) (s g : Nat) :
    Sound (Ledger.owns (if (w.surrender s g).1 then [.origin g] else []) + T)
      (w.surrender s g).2 := by
  unfold World.surrender
  split
  · rename_i hany
    obtain ⟨c, hc, hmem⟩ := (Option.any_eq_true _ _).mp hany
    have hg := List.contains_iff_mem.mp hmem
    have hb := h.balanced.surrender hc hg
    have hq := h.queued.modifyStore (f := fun c => { c with held := c.held.erase g })
      (fun _ => rfl) (fun c hc hz => h.queued.settled s c hc hz) fun _ _ g hg => ⟨g, hg, .refl g⟩
    have hh := h.hosted.modifyStore (f := fun c => { c with held := c.held.erase g })
      (fun _ => rfl) (fun _ => rfl) fun d hd hnone => by
        obtain rfl : c = d := Option.some.inj (hc.symm.trans hd)
        -- A store that is deleted holds nothing that it could give up.
        rw [(h.hosted.vacant s c hc hnone).2] at hg
        cases hg
    have hshares : Balanced (([.origin g] : List Share) + T.shares)
        (w.modifyStore s fun c => { c with held := c.held.erase g }) := by simpa using hb
    exact .leave hshares hq hh h.engines h.blameless
  · simpa using h

@[simp] theorem World.user_surrender (w : World κ σ) (s g : Nat) :
    (w.surrender s g).2.user = w.user := by
  unfold World.surrender
  split <;> rfl

/-! ## Collectors

They hold nothing between two of their steps but the copy that they are about to release. -/

namespace Act

theorem collect_leaves [Keeper κ σ] {L rest : Ledger κ} (s g : Nat) :
    (collect s g : Act κ σ Unit).Leaves L (fun _ => L) rest := by
  refine Leaves.bind (M := fun b => Ledger.owns (if b then [.origin g] else []) + L) ?_
    fun b => ?_
  · refine Leaves.make (by simp) (by simp [Ledger.Alike.refl]) fun _ _ h _ => ?_
    exact (h.surrender s g).cast (add_assoc _ _ _).symm
  · cases b with
    | true => exact (releaseOrigin_leaves g).cast (by simp)
    | false => exact Leaves.pure (by simp)

theorem collectAll_leaves [Keeper κ σ] {L rest : Ledger κ} (copies : List (Nat × Nat)) :
    (collectAll copies : Act κ σ Unit).Leaves L (fun _ => L) rest := by
  induction copies with
  | nil => exact Leaves.pure rfl
  | cons copy copies ih => exact Leaves.bind (collect_leaves copy.1 copy.2) fun _ => ih

end Act

/-- Threads that hold nothing join others. -/
theorem Threads.Safe.append {κ : Type} {t : Threads κ} (h : t.Safe) {ms : List (Job κ Unit)}
    (hms : ∀ m ∈ ms, m.Leaves (0 : Ledger (Code κ)) (fun _ => 0) 0) :
    Threads.Safe { t with rest := t.rest ++ ms } := by
  obtain ⟨Ls, hthreads, hinv⟩ := h
  refine ⟨Ls ++ ms.map fun _ => 0, List.rel_append hthreads ?_, ?_⟩
  · exact List.forall₂_map_right_iff.mpr (List.forall₂_same.mpr hms)
  · simpa using hinv

namespace Embedder

variable {κ : Type} (embedder : Embedder κ) (depth : Nat) (programs : List (Program κ Unit))
  (collections : List (List (Nat × Nat)))

/-- Programs and collectors keep to the rules when they start. -/
theorem safe_startCollected :
    (embedder.startCollected depth programs collections).Safe := by
  refine (embedder.safe_start depth programs).append fun m hm => ?_
  obtain ⟨copies, -, rfl⟩ := List.mem_map.mp hm
  exact collectAll_leaves copies

end Embedder

end WasmHost.Host
