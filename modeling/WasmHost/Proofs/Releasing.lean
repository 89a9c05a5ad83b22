import WasmHost.Proofs.Logic

/-!
# What releasing leaves

Each release takes a share out of the ledger and leaves the rest, with everything that it lets go of
released as well. None of them fails.

Releasing is a chain: the last share of a linker leaves its definitions, the last share of each of
these handles leaves its store, the last share of the store leaves its engine. The chain is followed
by the action, share by share, and in between other threads may take the last share of something
first; so how far the chain goes cannot be known beforehand. It need not be. Each lemma says that
*all* of what the first share leads to is released, whether or not there is anything, and those on
what comes later in the chain are used for what comes earlier.

That none of them fails matters, too. Releasing is what is done on the way out, after an error or
during a panic, and an operation that failed there would lose the shares that it had not come to
yet. It shows in the ledger `rest`, which is arbitrary: there is no error or panic that could leave
it.
-/

namespace WasmHost.Host

variable {κ σ : Type}

namespace World

/-! ## The embedder's state

No step that releases something touches what the embedder keeps. -/

variable (w : World κ σ)

@[simp] theorem user_fault (f : Fault) : (w.fault f).user = w.user := rfl

@[simp] theorem user_modifyStore (s : Nat) (f : StoreCell → StoreCell) :
    (w.modifyStore s f).user = w.user := rfl

@[simp] theorem user_reclaim (h : Handle) : (w.reclaim h).user = w.user := by
  unfold reclaim
  split <;> rfl

@[simp] theorem user_beginDrain (s : Nat) : (w.beginDrain s).2.user = w.user := by
  rw [beginDrain_eq, user_modifyStore]

@[simp] theorem user_reclaimNext (s : Nat) : (w.reclaimNext s).user = w.user := by
  unfold reclaimNext
  split <;> simp

@[simp] theorem user_reclaimBatch (s n : Nat) : (w.reclaimBatch s n).user = w.user := by
  induction n generalizing w with
  | zero => rfl
  | succ n ih => exact (ih _).trans (user_reclaimNext w s)

@[simp] theorem user_drain (s : Nat) : (w.drain s).user = w.user := by simp [drain]

@[simp] theorem user_releaseEngine (e : Nat) : (w.releaseEngine e).user = w.user := by
  unfold releaseEngine
  split
  · rfl
  · simp only
    split <;> rfl

@[simp] theorem user_dismissStore (s : Nat) : (w.dismissStore s).2.user = w.user := by
  unfold dismissStore
  split
  · rfl
  · simp only [user_modifyStore]
    split <;> simp

@[simp] theorem user_dismissModule (m : Nat) : (w.dismissModule m).2.user = w.user := by
  unfold dismissModule
  split <;> rfl

@[simp] theorem user_dismissLinker (l : Nat) : (w.dismissLinker l).2.user = w.user := by
  unfold dismissLinker
  split <;> rfl

@[simp] theorem user_dismissObject (o : ObjectId) : (w.dismissObject o).2.user = w.user := by
  obtain ⟨_, h⟩ := w.reduceObject_eq o fun c => { c with clones := c.clones - 1 }
  simp [dismissObject, h]

@[simp] theorem user_dismissOrigin (g : Nat) : (w.dismissOrigin g).2.user = w.user := by
  obtain ⟨_, _, h⟩ := w.dismissOrigin_eq g
  simp [h]

@[simp] theorem user_enqueue (s : Nat) (h : Handle) : (w.enqueue s h).user = w.user := by
  unfold enqueue
  split <;> rfl

@[simp] theorem user_retire (h : Handle) : (w.retire h).2.user = w.user := by
  unfold retire
  split
  · rfl
  · split
    · rfl
    · simp only
      split <;> simp

@[simp] theorem user_reclaimSole (h : Handle) : (w.reclaimSole h).2.user = w.user := by
  unfold reclaimSole
  split
  · rfl
  · split <;> simp

@[simp] theorem user_unregister (key : Nat) : (w.unregister key).2.user = w.user := by
  unfold unregister
  split <;> rfl

@[simp] theorem user_vacate (s : Nat) : (w.vacate s).2.user = w.user := by
  unfold vacate
  split <;> rfl

@[simp] theorem user_retainItems (items : List Item) : (w.retainItems items).user = w.user := by
  induction items generalizing w with
  | nil => rfl
  | cons i items ih => exact ih (w.retainHandle i.handle)

end World

variable [Keeper κ σ] {L rest : Ledger κ}

namespace Act

/-! ## Engines, stores and modules -/

theorem releaseEngine_leaves (e : Nat) :
    (releaseEngine e : Act κ σ Unit).Leaves (.own (.engine e) ::ₘ L) (fun _ => L) rest :=
  Leaves.update (by simp) (by simp [Ledger.Alike.refl]) fun _ _ h _ =>
    (h.cast (Multiset.cons_add _ _ _)).releaseEngine

theorem releaseEngine?_leaves (o : Option Nat) :
    (releaseEngine? o : Act κ σ Unit).Leaves (Ledger.owns (o.map Share.engine).toList + L)
      (fun _ => L) rest := by
  cases o with
  | none => exact Leaves.pure (by simp)
  | some e => exact (releaseEngine_leaves e).cast (by simp)

theorem releaseStore_leaves (s : Nat) :
    (releaseStore s : Act κ σ Unit).Leaves (.own (.store s) ::ₘ L) (fun _ => L) rest := by
  refine Leaves.bind (M := fun o => Ledger.owns (o.map Share.engine).toList + L) ?_
    releaseEngine?_leaves
  refine Leaves.make (by simp) (by simp [Ledger.Alike.refl]) fun _ _ h _ => ?_
  exact (h.cast (Multiset.cons_add _ _ _)).dismissStore.cast (add_assoc _ _ _).symm

theorem releaseStore?_leaves (o : Option Nat) :
    (releaseStore? o : Act κ σ Unit).Leaves (Ledger.owns (o.map Share.store).toList + L)
      (fun _ => L) rest := by
  cases o with
  | none => exact Leaves.pure (by simp)
  | some s => exact (releaseStore_leaves s).cast (by simp)

theorem releaseModule_leaves (m : Nat) :
    (releaseModule m : Act κ σ Unit).Leaves (.own (.module m) ::ₘ L) (fun _ => L) rest := by
  refine Leaves.bind (M := fun o => Ledger.owns (o.map Share.engine).toList + L) ?_
    releaseEngine?_leaves
  refine Leaves.make (by simp) (by simp [Ledger.Alike.refl]) fun _ _ h _ => ?_
  exact (h.cast (Multiset.cons_add _ _ _)).dismissModule.cast (add_assoc _ _ _).symm

/-! ## Handles -/

theorem releaseHandle_leaves (h : Handle) (sort : HandleSort) :
    (releaseHandle h : Act κ σ Unit).Leaves (.own (.handle h sort) ::ₘ L) (fun _ => L) rest := by
  refine Leaves.bind (M := fun o => Ledger.owns (o.map Share.store).toList + L) ?_
    releaseStore?_leaves
  refine Leaves.make (by simp) (by simp [Ledger.Alike.refl]) fun _ _ h _ => ?_
  exact (h.cast (Multiset.cons_add _ _ _)).retire.cast (add_assoc _ _ _).symm

theorem releaseWrappers_leaves (xs : List Wrapper) :
    (releaseWrappers xs : Act κ σ Unit).Leaves (Ledger.owns (xs.map Wrapper.share) + L)
      (fun _ => L) rest := by
  induction xs with
  | nil => exact Leaves.pure (by simp)
  | cons x xs ih =>
    exact (Leaves.bind (releaseHandle_leaves x.handle x.sort) fun _ => ih).cast
      (by simp [Wrapper.share])

theorem releaseItems_leaves (items : List Item) :
    (releaseItems items : Act κ σ Unit).Leaves (Ledger.owns (items.map (·.wrapper.share)) + L)
      (fun _ => L) rest :=
  (releaseWrappers_leaves (items.map Item.wrapper)).cast (by simp [Function.comp_def])

/-! ## Linkers, host objects and values -/

theorem releaseLinker_leaves (l : Nat) :
    (releaseLinker l : Act κ σ Unit).Leaves (.own (.linker l) ::ₘ L) (fun _ => L) rest := by
  refine Leaves.bind (M := fun o => Ledger.owns (o.elim [] fun p =>
    .engine p.1 :: p.2.map Wrapper.share) + L) ?_ fun o => ?_
  · refine Leaves.make (by simp) (by simp [Ledger.Alike.refl]) fun _ _ h _ => ?_
    exact (h.cast (Multiset.cons_add _ _ _)).dismissLinker.cast (add_assoc _ _ _).symm
  · cases o with
    | none => exact Leaves.pure (by simp)
    | some p =>
      exact (Leaves.bind (releaseEngine_leaves p.1) fun _ => releaseWrappers_leaves p.2).cast
        (by simp)

theorem releaseObject_leaves (o : ObjectId) :
    (releaseObject o : Act κ σ Unit).Leaves (.own (.object o) ::ₘ L) (fun _ => L) rest := by
  refine Leaves.bind (M := fun xs => Ledger.owns (xs.map Wrapper.share) + L) ?_
    releaseWrappers_leaves
  refine Leaves.make (by simp) (by simp [Ledger.Alike.refl]) fun _ _ h _ => ?_
  exact (h.cast (Multiset.cons_add _ _ _)).dismissObject.cast (add_assoc _ _ _).symm

theorem releaseOrigin_leaves (g : Nat) :
    (releaseOrigin g : Act κ σ Unit).Leaves (.own (.origin g) ::ₘ L) (fun _ => L) rest := by
  refine Leaves.bind (M := fun xs => Ledger.owns (xs.map Wrapper.share) + L) ?_
    releaseWrappers_leaves
  refine Leaves.make (by simp) (by simp [Ledger.Alike.refl]) fun _ _ h _ => ?_
  exact (h.cast (Multiset.cons_add _ _ _)).dismissOrigin.cast (add_assoc _ _ _).symm

theorem releaseOrigins_leaves (gs : List Nat) :
    (releaseOrigins gs : Act κ σ Unit).Leaves (Ledger.owns (gs.map Share.origin) + L)
      (fun _ => L) rest := by
  induction gs with
  | nil => exact Leaves.pure (by simp)
  | cons g gs ih =>
    exact (Leaves.bind (releaseOrigin_leaves g) fun _ => ih).cast (by simp)

theorem releaseVal_leaves (v : Val) :
    (releaseVal v : Act κ σ Unit).Leaves (Ledger.owns v.shares + L) (fun _ => L) rest := by
  rcases v with _ | _ | _ | _ | (_ | h) | (_ | o)
  case funcref.some => exact releaseHandle_leaves h (.item .func)
  case externref.some => exact releaseObject_leaves o
  all_goals exact Leaves.pure (zero_add _)

theorem releaseVals_leaves (vs : List Val) :
    (releaseVals vs : Act κ σ Unit).Leaves (Ledger.owns (Val.sharesAll vs) + L)
      (fun _ => L) rest := by
  induction vs with
  | nil => exact Leaves.pure (by simp)
  | cons v vs ih =>
    exact (Leaves.bind (releaseVal_leaves v) fun _ => ih).cast (by simp [add_assoc])

/-! ## Closures -/

theorem releaseCapture_leaves (c : Capture) :
    (releaseCapture c : Act κ σ Unit).Leaves (.own c.share ::ₘ L) (fun _ => L) rest := by
  cases c with
  | engine e => exact releaseEngine_leaves e
  | module m => exact releaseModule_leaves m
  | linker l => exact releaseLinker_leaves l
  | wrapper x => exact releaseHandle_leaves x.handle x.sort
  | object o => exact releaseObject_leaves o

theorem releaseCaptures_leaves (cs : List Capture) :
    (releaseCaptures cs : Act κ σ Unit).Leaves (Ledger.owns (cs.map Capture.share) + L)
      (fun _ => L) rest := by
  induction cs with
  | nil => exact Leaves.pure (by simp)
  | cons c cs ih =>
    exact (Leaves.bind (releaseCapture_leaves c) fun _ => ih).cast (by simp)

/-- A closure that has no function is finalised. -/
theorem finalize_leaves (k : Pin κ) (pins : List (Pin κ)) :
    (finalize k.1 : Act κ σ Unit).Leaves (.making (k :: pins) ::ₘ L)
      (fun _ => .making pins ::ₘ L) rest := by
  refine Safe.make (by simp) fun T w h _ => ?_
  -- The entry is gone after this step, and what it kept alive has to be released by whoever has
  -- removed it.
  obtain ⟨hr, hs⟩ := (h.cast (Multiset.cons_add _ _ _)).unregister
  refine ⟨.own (.store k.2.store) ::ₘ (Ledger.owns (k.2.captures.map Capture.share) +
    (.making pins ::ₘ L)), by simp [Ledger.Alike.refl], hs.cast ?_, ?_⟩
  · simp only [Ledger.owns_cons, ← Multiset.singleton_add]
    ac_rfl
  · simp only [hr]
    exact Leaves.bind (releaseStore_leaves _) fun _ => releaseCaptures_leaves _

theorem finalizeAll_leaves (left pins : List (Pin κ)) :
    (finalizeAll (left.map Prod.fst) : Act κ σ Unit).Leaves (.making (left ++ pins) ::ₘ L)
      (fun _ => .making pins ::ₘ L) rest := by
  induction left with
  | nil => exact Leaves.pure rfl
  | cons k left ih => exact Leaves.bind (finalize_leaves k _) fun _ => ih

/-! ## Stores -/

theorem reclaimBatch_leaves (s n : Nat) :
    (reclaimBatch s n : Act κ σ Unit).Leaves L (fun _ => L) rest := by
  induction n with
  | zero => exact Leaves.pure rfl
  | succ n ih =>
    exact Leaves.bind (Leaves.update (P := fun _ => L) (by simp) (.refl _) fun _ _ h _ =>
      h.reclaimNext s) fun _ => ih

theorem context_leaves (s : Nat) : (context s : Act κ σ Unit).Leaves L (fun _ => L) rest :=
  Leaves.bind (Leaves.make (P := fun _ => L) (by simp) (fun _ => .refl _) fun _ _ h _ =>
    h.beginDrain s) fun _ => reclaimBatch_leaves s _

/-- A store that nobody else uses is deleted, and its closures are finalised. -/
theorem deleteStore_leaves (s : Nat) (known pins : List (Pin κ)) :
    (deleteStore s : Act κ σ Unit).Leaves (.tenure s known none ::ₘ .making pins ::ₘ L)
      (fun _ => .making pins ::ₘ L) rest := by
  refine Leaves.bind (context_leaves s) fun _ => Safe.make (by simp) fun T w h _ => ?_
  have h' := h.cast (U := .tenure s known none ::ₘ .making pins ::ₘ (L + T)) (by simp)
  -- Giving up the guest part leaves closures to finalise and copies to release, and then the share
  -- that whoever deletes the store has had of it.
  obtain ⟨left, held, hout, hs⟩ := h'.vacate
  refine ⟨.making (left ++ pins) ::ₘ (Ledger.owns (held.map Share.origin) +
    (.own (.store s) ::ₘ L)), by simp [Ledger.Alike.refl], hs.cast ?_, ?_⟩
  · simp only [Ledger.owns_cons, ← Multiset.singleton_add]
    ac_rfl
  · simp only [hout]
    refine Leaves.bind (finalizeAll_leaves left pins) fun _ => ?_
    refine Leaves.bind ((releaseOrigins_leaves held).cast (Multiset.add_cons _ _ _).symm) fun _ => ?_
    exact (releaseStore_leaves s).cast (Multiset.cons_swap _ _ _)

end Act

end WasmHost.Host
