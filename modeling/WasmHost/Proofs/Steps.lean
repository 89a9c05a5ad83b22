import WasmHost.Proofs.Accounts
import WasmHost.Proofs.Queues
import WasmHost.Proofs.HostFunctions
import WasmHost.Host.Limits
import WasmHost.Host.Logging

/-!
# Steps and the invariant

Every single step on a world keeps `Sound`, for the ledger that the step leaves. The accounts, the
queues and the host functions are each looked after elsewhere; here they are put together, one
statement for each step.

Since no lemma of the three modules below speaks of a whole world, there is something to be done
here: to see which of the arrays a step changes, and to apply one lemma to each. Most steps change
one, and the proof is a record of four or five facts taken over from `h`. The steps that do more are
those in which ownership changes hands across arrays, and their proofs say in what order: retiring a
handle changes its count *and* the queue of its store; deleting a store gives up its guest part, its
origins and its keys; making a host function adds it to the guest, allocates a handle, and takes a
closure over from the request.

What a thread may do depends on its ledger, so a lemma about a step asks for a token: for a share,
if the step gives one up; for a positive count, if it retains something; for the tenure of a store,
if it writes to the store. There is no lemma for a step without its token. Nothing could be said of
it, and nothing has to be: that every action takes only steps it has the tokens for is shown
elsewhere, action by action.
-/

namespace WasmHost.Host

variable {κ σ : Type} {T : Ledger κ} {w : World κ σ}

theorem Balanced.cast {S S' : Multiset Share} (h : Balanced S w) (hS : S = S') : Balanced S' w :=
  hS ▸ h

theorem Hosted.cast {C D : Ledger κ} {stores : Array StoreCell}
    {registry : Slab (Registration κ)} {functions : List (HostFunction κ)} {registered : Nat}
    {finalized : List Nat} (h : Hosted C stores registry functions registered finalized)
    (hC : C = D) : Hosted D stores registry functions registered finalized := hC ▸ h

theorem Sound.cast {U : Ledger κ} (h : Sound T w) (hT : T = U) : Sound U w :=
  hT ▸ h

namespace World

/-- Host objects let go of each other, and of nothing else. -/
theorem reduceObject_eq (w : World κ σ) (o : ObjectId) (f : ObjectCell → ObjectCell) :
    ∃ objects, (w.reduceObject o f).2 = { w with objects } := by
  unfold reduceObject
  split
  · exact ⟨_, rfl⟩
  · exact ⟨_, rfl⟩

theorem dismissOrigin_eq (w : World κ σ) (g : Nat) :
    ∃ objects origins, (w.dismissOrigin g).2 = { w with objects, origins } := by
  unfold dismissOrigin
  split
  · exact ⟨_, _, rfl⟩
  · split
    · obtain ⟨objects, h⟩ := reduceObject_eq { w with origins := w.origins.modify g _ } _ _
      exact ⟨_, _, h⟩
    · exact ⟨_, _, rfl⟩

theorem reclaim_eq {w : World κ σ} {a : Handle} {c : HandleCell} (hc : w.heap.get? a = some c) :
    w.reclaim a = { w with
      heap := (w.heap.remove a).2
      chronicle := { w.chronicle with reclaimed := c.number :: w.chronicle.reclaimed } } := by
  simp [reclaim, Slab.remove_of_get? hc]

theorem modifyStore_congr {w : World κ σ} {s : Nat} {f g : StoreCell → StoreCell}
    (h : ∀ c, w.stores[s]? = some c → f c = g c) : w.modifyStore s f = w.modifyStore s g := by
  have heq : w.stores.modify s f = w.stores.modify s g := by
    refine Array.ext_getElem? fun t => ?_
    rw [Array.getElem?_modify, Array.getElem?_modify]
    split
    · rename_i hst
      subst hst
      cases hc : w.stores[s]? with
      | none => rfl
      | some c => simp [h c hc]
    · rfl
  simp [modifyStore, heq]

theorem modifyStore_same {w : World κ σ} {s : Nat} {f : StoreCell → StoreCell}
    (h : ∀ c, w.stores[s]? = some c → f c = c) : w.modifyStore s f = w := by
  refine (modifyStore_congr (g := fun c => c) h).trans ?_
  have heq : w.stores.modify s (fun c => c) = w.stores := by
    refine Array.ext_getElem? fun t => ?_
    rw [Array.getElem?_modify]
    split <;> simp
  simp [modifyStore, heq]

theorem guestAt_setGuest {w : World κ σ} {s : Nat} {g : Guest.Store}
    (hg : w.guest? s = some g) (g' : Guest.Store) : guestAt (w.setGuest s g').stores s = some g' := by
  obtain ⟨c, hc, -⟩ := Option.bind_eq_some_iff.mp hg
  simp [setGuest, modifyStore, guestAt, Array.getElem?_modify, hc]

theorem recorded_retainHandle {w : World κ σ} {x : Share} (h : 0 < w.recorded x) (a : Handle) :
    0 < (w.retainHandle a).recorded x := by
  rw [retainHandle, recorded_heap _ _ a fun j hj => by simp [Slab.get?_modify, hj]]
  cases x with
  | handle j sort =>
    obtain ⟨c, hc, hsort, hpos⟩ := exists_handle h
    by_cases hj : j = a
    · subst hj
      simp [Slab.get?_modify, hc, hsort]
    · simpa [hj] using h
  | _ => exact h

/-- What a drain has taken stays in the queue until it is reclaimed. -/
theorem beginDrain_eq (w : World κ σ) (s : Nat) :
    (w.beginDrain s).2 = w.modifyStore s fun c => { c with queue := c.queue.beginDrain } := by
  unfold beginDrain
  split
  · rename_i hc
    exact (modifyStore_same fun c h => by simp [hc] at h).symm
  · rename_i c hc
    exact modifyStore_congr fun d hd => by simp_all

/-- A drain takes the first handle out of its batch, if there is one. -/
theorem reclaimNext_cell {w : World κ σ} {s : Nat} {c : StoreCell} (hc : w.stores[s]? = some c) :
    (w.reclaimNext s).stores[s]? =
      some { c with queue := ⟨c.queue.batch.tail, c.queue.pending⟩ } := by
  have hstores : ∀ (w : World κ σ) (a : Handle), (w.reclaim a).stores = w.stores := by
    intro w a
    unfold reclaim
    split <;> rfl
  cases hb : c.queue.batch with
  | nil =>
    obtain ⟨_, _, _, ⟨_, _⟩, _, _⟩ := c
    simp_all [reclaimNext, ReclaimQueue.next?]
  | cons a rest =>
    simp [reclaimNext, hc, ReclaimQueue.next?, hb, hstores, modifyStore, getElem?_modify_self]

theorem reclaimBatch_cell {w : World κ σ} {s : Nat} {c : StoreCell} (hc : w.stores[s]? = some c)
    (n : Nat) :
    (w.reclaimBatch s n).stores[s]? =
      some { c with queue := ⟨c.queue.batch.drop n, c.queue.pending⟩ } := by
  induction n generalizing w c with
  | zero => simpa [reclaimBatch] using hc
  | succ n ih =>
    refine (ih (reclaimNext_cell hc)).trans ?_
    simp

/-- What the beginning of a drain leaves true, and the reclaiming of each handle, is true after it. -/
theorem drain_induction {P : World κ σ → Prop} {w : World κ σ} (s : Nat)
    (hbegin : P (w.beginDrain s).2) (hnext : ∀ w, P w → P (w.reclaimNext s)) : P (w.drain s) := by
  have hbatch : ∀ (n : Nat) (w : World κ σ), P w → P (w.reclaimBatch s n) := by
    intro n
    induction n with
    | zero => exact fun _ h => h
    | succ n ih => exact fun w h => ih _ (hnext w h)
  exact hbatch _ _ hbegin

/-- After a drain nothing waits. -/
theorem drain_cell {w : World κ σ} {s : Nat} {c : StoreCell} (hc : w.stores[s]? = some c) :
    (w.drain s).stores[s]? = some { c with queue := .empty } := by
  have hbegin : w.beginDrain s = (c.queue.beginDrain.batch.length,
      w.modifyStore s fun d => { d with queue := c.queue.beginDrain }) := by simp [beginDrain, hc]
  have hcell : (w.modifyStore s fun d => { d with queue := c.queue.beginDrain }).stores[s]? =
      some { c with queue := c.queue.beginDrain } := getElem?_modify_self _ hc
  simp only [drain, hbegin]
  rw [reclaimBatch_cell hcell]
  simp [ReclaimQueue.beginDrain, ReclaimQueue.empty]

end World

namespace Sound

/-! ## Changes that few accounts see

Fuel, deadlines, limits, logs and the like are in the same cells as what is counted, so that it has
to be said that they do not matter. -/

/-- A share in a ledger is the share of something. -/
theorem pos (h : Sound (.own x ::ₘ T) w) : 0 < w.recorded x := h.balanced.pos (by simp)

theorem balanced_own {x : Share} (h : Sound (.own x ::ₘ T) w) : Balanced (x ::ₘ T.shares) w :=
  h.balanced.cast (by simp)

/-- A store that is not deleted is shared by its guest part. -/
theorem pos_of_guest (h : Sound T w) {s : Nat} (hs : (guestAt w.stores s).isSome) :
    0 < w.recorded (.store s) := by
  obtain ⟨g, hg⟩ := Option.isSome_iff_exists.mp hs
  obtain ⟨c, hc, hcg⟩ := Option.bind_eq_some_iff.mp hg
  refine h.balanced.pos_of_mem_refs ?_
  have hmem : Share.store s ∈ total w.stores World.storeRefs :=
    mem_total.mpr ⟨s, c, hc, by simp [World.storeRefs, hcg]⟩
  simp [World.refs, hmem]

/-- What a closure keeps alive is shared by the closure. -/
theorem pos_of_registration (h : Sound T w) {key : Nat} {r : Registration κ}
    (hr : w.registry.get? key = some r) {x : Share} (hx : x ∈ World.registrationRefs key r) :
    0 < w.recorded x := by
  refine h.balanced.pos_of_mem_refs ?_
  have hmem : x ∈ w.registry.total World.registrationRefs := Slab.mem_total.mpr ⟨key, r, hr, hx⟩
  simp [World.refs, hmem]

/-- Whoever uses a store relies on what is there. -/
theorem pos_of_tenure (h : Sound T w) {s : Nat} {known : List (Pin κ)} {p : Option Payload}
    (hT : .tenure s known p ∈ T) {x : Share} (hx : (Token.tenure s known p).vouches x) :
    0 < w.recorded x := by
  have hC : .tenure s known p ∈ T.claims := Multiset.mem_filter.mpr ⟨hT, rfl⟩
  obtain ⟨c, g, hc, hg, -, hk⟩ := h.hosted.tenured _ _ _ hC
  obtain rfl | ⟨k, hmem, hx⟩ := hx
  · exact h.pos_of_guest (by simp [guestAt, hc, hg])
  · exact h.pos_of_registration (hk k hmem).2 hx

/-- A broken rule of guest code is no broken rule of ownership. -/
theorem stuck (h : Sound T w) : Sound T (w.fault .stuck) where
  balanced := h.balanced
  queued := h.queued
  hosted := h.hosted
  engines := h.engines
  blameless := by
    refine ⟨fun f hf => ?_, h.blameless.calls, h.blameless.quiet, h.blameless.callers⟩
    rcases List.mem_append.mp hf with hf | hf
    · exact h.blameless.faultless f hf
    · simpa using hf

/-- Logs are of no account. -/
theorem setLogs (h : Sound T w) (logs : Array GuestLog) : Sound T { w with logs } :=
  ⟨h.balanced, h.queued, h.hosted, h.engines, h.blameless⟩

/-- A change of a store that no account sees. -/
theorem modifyStore (h : Sound T w) {s : Nat} {f : StoreCell → StoreCell}
    (hr : ∀ c, World.storeRefs s (f c) = World.storeRefs s c) (hs : ∀ c, (f c).shares = c.shares)
    (hq : ∀ c, (f c).queue.toList = c.queue.toList) (hg : ∀ c, (f c).guest = c.guest)
    (hp : ∀ c, (f c).panic = c.panic) (hh : ∀ c, (f c).held = c.held) :
    Sound T (w.modifyStore s f) where
  balanced := h.balanced.modifyStore hr hs
  queued := h.queued.modifyStore hq (fun c hc hz => h.queued.settled s c hc (by rw [← hs, hz]))
    fun c _ g hc => ⟨g, (hg c).symm.trans hc, .refl g⟩
  hosted := h.hosted.modifyStore hg hp fun c _ _ => hh c
  engines := h.engines
  blameless := h.blameless

/-- A change of an engine that no account sees. -/
theorem modifyEngine (h : Sound T w) {e : Nat} {f : EngineCell → EngineCell}
    (hs : ∀ c, (f c).shares = c.shares) :
    Sound T { w with engines := w.engines.modify e f } where
  balanced := h.balanced.modifyEngine hs
  queued := h.queued
  hosted := h.hosted
  engines i := by
    rw [h.engines]
    by_cases hi : e = i <;> cases hc : w.engines[i]? <;>
      simp [Array.getElem?_modify, hi, hc, hs]
  blameless := h.blameless

/-- A change of a linker that no account sees. -/
theorem modifyLinker (h : Sound T w) {l : Nat} {f : LinkerCell → LinkerCell}
    (hr : ∀ c, World.linkerRefs l (f c) = World.linkerRefs l c)
    (hs : ∀ c, (f c).shares = c.shares) :
    Sound T { w with linkers := w.linkers.modify l f } :=
  ⟨h.balanced.modifyLinker hr hs, h.queued, h.hosted, h.engines, h.blameless⟩

/-! ## Retaining -/

/-- One share more in a ledger. -/
theorem gain {w' : World κ σ} {x : Share} (hb : Balanced (x ::ₘ T.shares) w')
    (hq : Queued w'.stores w'.heap w'.chronicle.allocated w'.chronicle.reclaimed)
    (hh : Hosted T.claims w'.stores w'.registry w'.chronicle.functions w'.chronicle.registered
      w'.chronicle.finalized)
    (he : ∀ e, w'.chronicle.engines.count e =
      (w'.engines[e]?).elim 0 fun c => if c.shares = 0 then 1 else 0)
    (hf : Blameless w'.faults w'.chronicle.functions w'.chronicle.entries) :
    Sound (.own x ::ₘ T) w' :=
  ⟨by rwa [Ledger.shares_own], hq, by rwa [Ledger.claims_own], he, hf⟩

theorem retainEngine (h : Sound T w) {e : Nat} (he : 0 < w.recorded (.engine e)) :
    Sound (.own (.engine e) ::ₘ T) (w.retainEngine e) := by
  refine gain (h.balanced.retainEngine he) h.queued h.hosted (fun i => ?_) h.blameless
  obtain ⟨c, hc, hpos⟩ := elim_pos.mp he
  refine (h.engines i).trans ?_
  by_cases hi : i = e
  · subst hi
    have hne : c.shares ≠ 0 := by omega
    simp [World.retainEngine, getElem?_modify_self _ hc, hc, hne]
  · simp [World.retainEngine, getElem?_modify_of_ne _ _ i hi]

theorem retainModule (h : Sound T w) {m : Nat} (hm : 0 < w.recorded (.module m)) :
    Sound (.own (.module m) ::ₘ T) (w.retainModule m) :=
  gain (h.balanced.retainModule hm) h.queued h.hosted h.engines h.blameless

theorem retainLinker (h : Sound T w) {l : Nat} (hl : 0 < w.recorded (.linker l)) :
    Sound (.own (.linker l) ::ₘ T) (w.retainLinker l) :=
  gain (h.balanced.retainLinker hl) h.queued h.hosted h.engines h.blameless

theorem retainObject (h : Sound T w) {o : ObjectId} (ho : 0 < w.recorded (.object o)) :
    Sound (.own (.object o) ::ₘ T) (w.retainObject o) := by
  obtain ⟨c, hc, hpos⟩ := elim_pos.mp ho
  have hgone : c.gone = false := by simp [ObjectCell.gone]; omega
  exact gain (h.balanced.retainObject hc hgone) h.queued h.hosted h.engines h.blameless

theorem retainOrigin (h : Sound T w) {g : Nat} (hg : 0 < w.recorded (.origin g)) :
    Sound (.own (.origin g) ::ₘ T) (w.retainOrigin g) :=
  gain (h.balanced.retainOrigin hg) h.queued h.hosted h.engines h.blameless

theorem retainHandle (h : Sound T w) {a : Handle} {sort : HandleSort}
    (ha : 0 < w.recorded (.handle a sort)) :
    Sound (.own (.handle a sort) ::ₘ T) (w.retainHandle a) := by
  obtain ⟨c, hc, -, hpos⟩ := World.exists_handle ha
  exact gain (h.balanced.retainHandle ha)
    (h.queued.modifyHandle hc hpos rfl rfl rfl (Nat.succ_pos _)) h.hosted h.engines h.blameless

theorem retainCapture (h : Sound T w) {c : Capture} (hc : 0 < w.recorded c.share) :
    Sound (.own c.share ::ₘ T) (w.retainCapture c) := by
  cases c with
  | engine e => exact h.retainEngine hc
  | module m => exact h.retainModule hc
  | linker l => exact h.retainLinker hc
  | wrapper x => exact h.retainHandle hc
  | object o => exact h.retainObject hc

/-- The host object of an origin is there as long as the origin is. -/
theorem retainObjectOf (h : Sound T w) {g : Nat} (hg : 0 < w.recorded (.origin g)) :
    ∃ o, (w.retainObjectOf g).1 = some o ∧
      Sound (.own (.object o) ::ₘ T) (w.retainObjectOf g).2 := by
  obtain ⟨c, hc, hpos⟩ := elim_pos.mp hg
  have hmem : Share.tie c.object ∈ total w.origins World.originRefs :=
    mem_total.mpr ⟨g, c, hc, by simp [World.originRefs, hpos]⟩
  obtain ⟨d, hd, htie⟩ := elim_pos.mp (h.balanced.pos_of_mem_refs (x := .tie c.object)
    (by simp [World.refs, hmem]))
  have hgone : d.gone = false := by simp [ObjectCell.gone]; omega
  simp only [World.retainObjectOf, hc]
  exact ⟨_, rfl, gain (h.balanced.retainObject hd hgone) h.queued h.hosted h.engines h.blameless⟩

/-! ## Engines, modules, linkers and host objects -/

/-- Shares that something leaves in a ledger. -/
theorem leave {w' : World κ σ} {xs : List Share} (hb : Balanced (xs + T.shares) w')
    (hq : Queued w'.stores w'.heap w'.chronicle.allocated w'.chronicle.reclaimed)
    (hh : Hosted T.claims w'.stores w'.registry w'.chronicle.functions w'.chronicle.registered
      w'.chronicle.finalized)
    (he : ∀ e, w'.chronicle.engines.count e =
      (w'.engines[e]?).elim 0 fun c => if c.shares = 0 then 1 else 0)
    (hf : Blameless w'.faults w'.chronicle.functions w'.chronicle.entries) :
    Sound (Ledger.owns xs + T) w' :=
  ⟨by simpa using hb, hq, by simpa using hh, he, hf⟩

/-- With its last share, an engine is deleted. -/
theorem releaseEngine {e : Nat} (h : Sound (.own (.engine e) ::ₘ T) w) :
    Sound T (w.releaseEngine e) := by
  have hb : Balanced T.shares (w.releaseEngine e) := .releaseEngine h.balanced_own
  obtain ⟨c, hc, hpos⟩ := elim_pos.mp h.pos
  have hq := h.queued
  have hh := h.hosted
  have he := h.engines
  have hf := h.blameless
  rw [Ledger.claims_own] at hh
  simp only [World.releaseEngine, hc] at hb ⊢
  -- With the last share the engine is deleted, which is written down; otherwise it is not.
  by_cases hs : c.shares = 1
  · simp only [hs, if_true] at hb ⊢
    refine ⟨hb, hq, hh, fun i => ?_, hf⟩
    have hi := he i
    by_cases hie : i = e
    · subst hie
      simp [hc, hs] at hi
      simp [getElem?_modify_self _ hc, hs, hi]
    · simpa [getElem?_modify_of_ne _ _ i hie, List.count_cons, Ne.symm hie] using hi
  · simp only [hs, if_false] at hb ⊢
    refine ⟨hb, hq, hh, fun i => ?_, hf⟩
    have hi := he i
    by_cases hie : i = e
    · subst hie
      have hne : c.shares ≠ 0 := by omega
      have hne' : c.shares - 1 ≠ 0 := by omega
      simpa [getElem?_modify_self _ hc, hc, hne, hne'] using hi
    · simpa [getElem?_modify_of_ne _ _ i hie] using hi

theorem dismissModule {m : Nat} (h : Sound (.own (.module m) ::ₘ T) w) :
    Sound (Ledger.owns ((w.dismissModule m).1.map Share.engine).toList + T)
      (w.dismissModule m).2 := by
  have hb := Balanced.dismissModule h.balanced_own
  obtain ⟨c, hc, -⟩ := elim_pos.mp h.pos
  simp only [World.dismissModule, hc] at hb ⊢
  exact leave hb h.queued (h.hosted.cast (by simp)) h.engines h.blameless

theorem dismissLinker {l : Nat} (h : Sound (.own (.linker l) ::ₘ T) w) :
    Sound (Ledger.owns ((w.dismissLinker l).1.elim [] fun p =>
      .engine p.1 :: p.2.map Wrapper.share) + T) (w.dismissLinker l).2 := by
  have hb := Balanced.dismissLinker h.balanced_own
  obtain ⟨c, hc, -⟩ := elim_pos.mp h.pos
  simp only [World.dismissLinker, hc] at hb ⊢
  exact leave hb h.queued (h.hosted.cast (by simp)) h.engines h.blameless

theorem dismissObject {o : ObjectId} (h : Sound (.own (.object o) ::ₘ T) w) :
    Sound (Ledger.owns ((w.dismissObject o).1.map Wrapper.share) + T) (w.dismissObject o).2 := by
  have hb := Balanced.dismissObject h.balanced_own
  obtain ⟨objects, hw⟩ := w.reduceObject_eq o fun c => { c with clones := c.clones - 1 }
  simp only [World.dismissObject, hw] at hb ⊢
  exact leave hb h.queued (h.hosted.cast (by simp)) h.engines h.blameless

theorem dismissOrigin {g : Nat} (h : Sound (.own (.origin g) ::ₘ T) w) :
    Sound (Ledger.owns ((w.dismissOrigin g).1.map Wrapper.share) + T) (w.dismissOrigin g).2 := by
  have hb := Balanced.dismissOrigin h.balanced_own
  obtain ⟨objects, origins, hw⟩ := w.dismissOrigin_eq g
  simp only [hw] at hb ⊢
  exact leave hb h.queued (h.hosted.cast (by simp)) h.engines h.blameless

/-! ## Handles -/

theorem newHandle (h : Sound T w) {s : Nat} (hs : 0 < w.recorded (.store s)) {target : Target}
    (ht : target.store = s) (hp : target.Present w.stores) :
    Sound (.own (.handle (w.newHandle s target).1 target.sort) ::ₘ T)
      (w.newHandle s target).2 := by
  obtain ⟨c, hc, hpos⟩ := elim_pos.mp hs
  have hlt : s < w.stores.size := (Array.getElem?_eq_some_iff.mp hc).1
  have hq := h.queued.insert (c := ⟨s, target, 1, w.chronicle.allocated.size⟩) hlt ht hp rfl
    Nat.one_pos
  refine gain (h.balanced.newHandle hs target) ?_ ?_ h.engines h.blameless
  · exact hq.modifyStore (f := fun c => { c with shares := c.shares + 1 }) (fun _ => rfl)
      (fun d _ hz => absurd hz (Nat.succ_ne_zero _)) fun d _ g hd => ⟨g, hd, .refl g⟩
  · exact h.hosted.modifyStore (f := fun c => { c with shares := c.shares + 1 }) (fun _ => rfl)
      (fun _ => rfl) fun _ _ _ => rfl

/-- A handle that nothing else shares is reclaimed at once, and leaves its store. -/
theorem reclaimSole {a : Handle} {sort : HandleSort} (h : Sound (.own (.handle a sort) ::ₘ T) w) :
    Sound (((w.reclaimSole a).1.elim (.own (.handle a sort)) fun s => .own (.store s)) ::ₘ T)
      (w.reclaimSole a).2 := by
  obtain ⟨c, hc, -, hpos⟩ := World.exists_handle h.pos
  simp only [World.reclaimSole, hc]
  split <;> rename_i hs
  · have hb : Balanced (.handle a sort ::ₘ T.shares) w := by simpa using h.balanced
    rw [World.reclaim_eq hc]
    exact gain (hb.removeSole hc hs) (h.queued.removeSole hc hpos) (h.hosted.cast (by simp))
      h.engines h.blameless
  · exact h

/-- With its last share, a handle starts to wait, and leaves its store. -/
theorem retire {a : Handle} {sort : HandleSort} (h : Sound (.own (.handle a sort) ::ₘ T) w) :
    Sound (Ledger.owns ((w.retire a).1.map Share.store).toList + T) (w.retire a).2 := by
  obtain ⟨c, hc, -, hpos⟩ := World.exists_handle h.pos
  have hb := Balanced.reduceHandle h.balanced_own hc
  have hne : c.shares ≠ 0 := by omega
  simp only [World.retire, hc, hne, if_false]
  split <;> rename_i hs
  · -- The handle refers to its store, so the store is there, and the handle does not wait yet.
    have hmem : Share.store c.store ∈ w.heap.total World.handleRefs :=
      Slab.mem_total.mpr ⟨a, c, hc, by simp [World.handleRefs, hpos]⟩
    obtain ⟨d, hd, hdpos⟩ := elim_pos.mp (h.balanced.pos_of_mem_refs (x := .store c.store)
      (by simp [World.refs, hmem]))
    have hfree : a ∉ d.queue.toList := by
      intro hmem
      obtain ⟨c', hc', -, hz⟩ := (h.queued.waiting _ _ hd a).mp hmem
      obtain rfl : c = c' := by simpa [hc] using hc'
      omega
    obtain ⟨q, hq⟩ : ∃ q, d.queue.enqueue? a = some q := by
      have : a ∉ d.queue.pending := fun hp => hfree (List.mem_append_right _ hp)
      exact ⟨_, if_neg (by simpa using this)⟩
    have henq : ({ w with heap := w.heap.modify a fun c => { c with shares := c.shares - 1 } }).enqueue
        c.store a = { w with
          heap := w.heap.modify a fun c => { c with shares := c.shares - 1 }
          stores := w.stores.modify c.store fun d => { d with queue := q } } := by
      simp [World.enqueue, hd, hq, World.modifyStore]
    rw [henq]
    refine leave ?_ (h.queued.retire hc hs hd hdpos (ReclaimQueue.toList_of_enqueue? hq)) ?_
      h.engines h.blameless
    · refine Balanced.modifyStore (w := { w with
        heap := w.heap.modify a fun c => { c with shares := c.shares - 1 } })
        (f := fun d => { d with queue := q }) ?_ (fun _ => rfl) fun _ => rfl
      simpa [hs] using hb
    · rw [← Ledger.claims_own (.handle a sort)]
      exact h.hosted.modifyStore (f := fun d => { d with queue := q }) (fun _ => rfl) (fun _ => rfl)
        fun _ _ _ => rfl
  · refine leave (by simpa [hs] using hb) ?_ (h.hosted.cast (by simp)) h.engines h.blameless
    exact h.queued.modifyHandle hc hpos rfl rfl rfl (by simp only; omega)

/-! ## Drains -/

theorem beginDrain (h : Sound T w) (s : Nat) : Sound T (w.beginDrain s).2 := by
  rw [World.beginDrain_eq]
  exact h.modifyStore (fun _ => rfl) (fun _ => rfl) (fun c => c.queue.toList_beginDrain)
    (fun _ => rfl) (fun _ => rfl) fun _ => rfl

/-- A handle that waits is there, and can be reclaimed. -/
theorem reclaimNext (h : Sound T w) (s : Nat) : Sound T (w.reclaimNext s) := by
  cases hn : (w.stores[s]?).bind (·.queue.next?) with
  | none => simpa [World.reclaimNext, hn] using h
  | some next =>
    obtain ⟨a, q⟩ := next
    obtain ⟨d, hd, hnext⟩ := Option.bind_eq_some_iff.mp hn
    have hq := ReclaimQueue.toList_of_next? hnext
    obtain ⟨c, hc, -, hz⟩ := (h.queued.waiting _ _ hd a).mp (by simp [hq])
    have hw : w.reclaimNext s = (w.modifyStore s fun d => { d with queue := q }).reclaim a := by
      simp [World.reclaimNext, hn]
    rw [hw, World.reclaim_eq (w := w.modifyStore s fun d => { d with queue := q }) hc]
    refine ⟨?_, h.queued.reclaimNext hd hq hc, ?_, h.engines, h.blameless⟩
    · refine Balanced.removeWaiting ?_ hc hz
      exact h.balanced.modifyStore (fun _ => rfl) fun _ => rfl
    · exact h.hosted.modifyStore (f := fun d => { d with queue := q }) (fun _ => rfl)
        (fun _ => rfl) fun _ _ _ => rfl

theorem drain (h : Sound T w) (s : Nat) : Sound T (w.drain s) :=
  World.drain_induction s (h.beginDrain s) fun _ h => h.reclaimNext s

/-! ## Stores -/

/-- With its last share, a store is drained, and leaves its engine. -/
theorem dismissStore {s : Nat} (h : Sound (.own (.store s) ::ₘ T) w) :
    Sound (Ledger.owns ((w.dismissStore s).1.map Share.engine).toList + T)
      (w.dismissStore s).2 := by
  obtain ⟨c, hc, hpos⟩ := elim_pos.mp h.pos
  -- The last share drains the store first, so that nothing waits in it any more when it is gone.
  obtain ⟨w', q, hw, hc', hq, h⟩ : ∃ w' q, (if c.shares = 1 then w.drain s else w) = w' ∧
      w'.stores[s]? = some { c with queue := q } ∧ (c.shares = 1 → q = .empty) ∧
      Sound (.own (.store s) ::ₘ T) w' := by
    split
    · exact ⟨_, _, rfl, World.drain_cell hc, fun _ => rfl, h.drain s⟩
    · rename_i hs
      exact ⟨_, _, rfl, hc, fun hs' => absurd hs' hs, h⟩
  have hb := Balanced.reduceStore h.balanced_own hc'
  simp only [World.dismissStore, hc, hw]
  refine leave ?_ ?_ ?_ h.engines h.blameless
  · by_cases hs : c.shares = 1
    · simpa [hs] using hb
    · simpa [hs] using hb
  · refine h.queued.modifyStore (f := fun c => { c with shares := c.shares - 1 }) (fun _ => rfl)
      (fun d hd hz => ?_) fun d _ g hg => ⟨g, hg, .refl g⟩
    obtain rfl : { c with queue := q } = d := by simpa [hc'] using hd
    have hz' : c.shares - 1 = 0 := hz
    simp [hq (by omega), ReclaimQueue.toList, ReclaimQueue.empty]
  · rw [← Ledger.claims_own (.store s)]
    exact h.hosted.modifyStore (f := fun c => { c with shares := c.shares - 1 }) (fun _ => rfl)
      (fun _ => rfl) fun _ _ _ => rfl

/-- A new store is its maker's to use. -/
theorem newStore (h : Sound T w) {e : Nat} (he : 0 < w.recorded (.engine e)) :
    Sound (.tenure (w.newStore e).1 [] none ::ₘ T) (w.newStore e).2 := by
  refine ⟨?_, ?_, ?_, (h.retainEngine he).engines, h.blameless⟩
  · rw [Ledger.shares_tenure]
    exact h.balanced.newStore he
  · exact h.queued.push rfl
  · rw [Ledger.claims_tenure]
    exact h.hosted.push rfl rfl rfl

/-- Deleting the guest part of a store leaves its closures without functions, and what the guest
part referred to. -/
theorem vacate {s : Nat} {known pins : List (Pin κ)}
    (h : Sound (.tenure s known none ::ₘ .making pins ::ₘ T) w) :
    ∃ left held, (w.vacate s).1 = some (left.map Prod.fst, held) ∧
      Sound (.making (left ++ pins) ::ₘ
        (Ledger.owns (.store s :: held.map Share.origin) + T)) (w.vacate s).2 := by
  have hh := h.hosted
  simp only [Ledger.claims_tenure, Ledger.claims_making] at hh
  obtain ⟨c, g, hc, hg, -⟩ := hh.tenured s known none (Multiset.mem_cons_self _ _)
  obtain ⟨left, hleft, hh'⟩ := hh.vacate (f := fun c => { c with guest := none, held := [] })
    hc hg (fun _ => rfl) (fun _ => rfl) fun _ => rfl
  refine ⟨left, c.held, by simp [World.vacate, hc, hg, hleft], ?_⟩
  have hw : (w.vacate s).2 = w.modifyStore s fun c => { c with guest := none, held := [] } := by
    simp [World.vacate, hc]
  rw [hw]
  refine ⟨?_, ?_, ?_, h.engines, h.blameless⟩
  · have hb := h.balanced.vacate hc hg
    simpa using hb
  · exact h.queued.modifyStore (f := fun c => { c with guest := none, held := [] }) (fun _ => rfl)
      (fun d hd hz => h.queued.settled _ _ hd hz) fun _ _ _ hg => nomatch hg
  · exact hh'.cast (by simp)

/-! ## Closures -/

theorem register {s : Nat} {captures : List Capture} {pins : List (Pin κ)}
    (h : Sound (.making pins ::ₘ (Ledger.owns (captures.map Capture.share) + T)) w)
    (hs : 0 < w.recorded (.store s)) (type : Signature) (code : κ) :
    Sound (.making ((w.register s type code captures).1 :: pins) ::ₘ T)
      (w.register s type code captures).2 := by
  have hb : Balanced (captures.map Capture.share + T.shares) w := by simpa using h.balanced
  refine ⟨?_, ?_, ?_, h.engines, h.blameless⟩
  · rw [Ledger.shares_making]
    exact hb.register hs type code
  · exact h.queued.modifyStore (f := fun c => { c with shares := c.shares + 1 }) (fun _ => rfl)
      (fun _ _ hz => absurd hz (Nat.succ_ne_zero _)) fun _ _ g hg => ⟨g, hg, .refl g⟩
  · have hh := h.hosted.cast (D := .making pins ::ₘ T.claims) (by simp)
    rw [Ledger.claims_making]
    exact (hh.register (r := ⟨s, type, code, captures, w.chronicle.registered⟩) rfl).modifyStore
      (f := fun c => { c with shares := c.shares + 1 }) (fun _ => rfl) (fun _ => rfl)
      fun _ _ _ => rfl

theorem unregister {key : Nat} {r : Registration κ} {pins : List (Pin κ)}
    (h : Sound (.making ((key, r) :: pins) ::ₘ T) w) :
    (w.unregister key).1 = some r ∧
      Sound (.making pins ::ₘ (Ledger.owns (.store r.store :: r.captures.map Capture.share) + T))
        (w.unregister key).2 := by
  have hh := h.hosted
  rw [Ledger.claims_making] at hh
  obtain ⟨hr, hh⟩ := hh.unregister
  have hb := h.balanced.unregister hr
  have hw : w.unregister key = (some r, { w with
      registry := (w.registry.remove key).2
      chronicle := { w.chronicle with finalized := r.number :: w.chronicle.finalized } }) := by
    simp [World.unregister, Slab.remove_of_get? hr]
  rw [hw] at hb ⊢
  exact ⟨rfl, by simpa using hb, h.queued, hh.cast (by simp), h.engines, h.blameless⟩

/-! ## New engines, modules, linkers and host objects -/

theorem newEngine (h : Sound T w) (config : EngineConfig) :
    Sound (.own (.engine (w.newEngine config).1) ::ₘ T) (w.newEngine config).2 := by
  refine gain (h.balanced.newEngine config) h.queued h.hosted (fun e => ?_) h.blameless
  refine (h.engines e).trans ?_
  by_cases he : e = w.engines.size
  · simp [World.newEngine, he]
  · rw [World.newEngine, getElem?_push_of_ne _ _ _ he]

theorem newModule (h : Sound T w) {e : Nat} (he : 0 < w.recorded (.engine e))
    (compiled : CompiledModule) :
    Sound (.own (.module (w.newModule e compiled).1) ::ₘ T) (w.newModule e compiled).2 :=
  gain (h.balanced.newModule he compiled) h.queued h.hosted (h.retainEngine he).engines h.blameless

theorem newLinker (h : Sound T w) {e : Nat} (he : 0 < w.recorded (.engine e)) :
    Sound (.own (.linker (w.newLinker e).1) ::ₘ T) (w.newLinker e).2 :=
  gain (h.balanced.newLinker he) h.queued h.hosted (h.retainEngine he).engines h.blameless

theorem newObject {captures : List Wrapper}
    (h : Sound (Ledger.owns (captures.map Wrapper.share) + T) w) (data : HostData) :
    Sound (.own (.object (w.newObject data captures).1) ::ₘ T) (w.newObject data captures).2 :=
  gain (Balanced.newObject (h.balanced.cast (by simp)) data) h.queued
    (h.hosted.cast (by simp)) h.engines h.blameless

theorem newOrigin (h : Sound T w) {o : ObjectId} (ho : 0 < w.recorded (.object o)) :
    Sound (.own (.origin (w.newOrigin o).1) ::ₘ T) (w.newOrigin o).2 :=
  gain (h.balanced.newOrigin ho) h.queued h.hosted h.engines h.blameless

/-! ## Guest parts -/

/-- A change of the guest part of a store in which host functions stay as they are. -/
theorem mapGuest (h : Sound T w) {s : Nat} {f : Guest.Store → Guest.Store}
    (hf : ∀ g, guestAt w.stores s = some g → g.Extends (f g)) :
    Sound T (w.modifyStore s fun c => { c with guest := c.guest.map f }) := by
  refine ⟨?_, ?_, ?_, h.engines, h.blameless⟩
  · exact h.balanced.modifyStore (fun c => by simp [World.storeRefs]) fun _ => rfl
  · refine h.queued.modifyStore (f := fun c => { c with guest := c.guest.map f }) (fun _ => rfl)
      (fun c hc hz => h.queued.settled s c hc hz) fun c hc g' hg' => ?_
    obtain ⟨g, hg, rfl⟩ := Option.map_eq_some_iff.mp hg'
    exact ⟨g, hg, (hf g (by simp [guestAt, hc, hg])).toGrows⟩
  · cases hg : guestAt w.stores s with
    | none =>
      have heq : (w.modifyStore s fun c => { c with guest := c.guest.map f }) = w :=
        World.modifyStore_same fun c hc => by
          have hnone : c.guest = none := by rw [← guestAt_eq hc, hg]
          obtain ⟨_, _, _, _, _, _⟩ := c
          simp_all
      rw [heq]
      exact h.hosted
    | some g =>
      obtain ⟨c, hc, hcg⟩ := Option.bind_eq_some_iff.mp hg
      exact h.hosted.extend (f := fun c => { c with guest := c.guest.map f }) hc hcg
        (by simp [hcg]) rfl (hf g hg)

theorem setGuest (h : Sound T w) {s : Nat} {g g' : Guest.Store} (hg : w.guest? s = some g)
    (hext : g.Extends g') : Sound T (w.setGuest s g') := by
  obtain ⟨c, hc, hcg⟩ := Option.bind_eq_some_iff.mp hg
  have heq : w.setGuest s g' =
      w.modifyStore s fun c => { c with guest := c.guest.map fun _ => g' } :=
    World.modifyStore_congr fun d hd => by
      obtain rfl : c = d := by simpa [hc] using hd
      simp [hcg]
  rw [heq]
  refine h.mapGuest fun g'' hg'' => ?_
  obtain rfl : g = g'' := by simpa [World.guest?, guestAt] using hg.symm.trans hg''
  exact hext

theorem onGuest {α : Type} (h : Sound T w) {s : Nat} {f : Guest.Store → α × Guest.Store}
    (hf : ∀ g : Guest.Store, g.Extends (f g).2) :
    Sound T (w.onGuest s f).2 := by
  unfold World.onGuest
  split
  · exact h
  · rename_i g hg
    exact h.setGuest hg (hf g)

/-- The shares that an item of a kind leaves when it could be made. -/
def allotted (kind : ItemKind) : Option (Except EngineFault Handle) → List Share
  | some (.ok h) => [.handle h (.item kind)]
  | _ => []

theorem allot (h : Sound T w) {s : Nat} {kind : ItemKind}
    {f : Guest.Store → Except EngineFault (Guest.Place × Guest.Store)}
    (hf : ∀ g p g', f g = .ok (p, g') → g.Extends g' ∧ p.kind = kind ∧ p.Within g') :
    Sound (Ledger.owns (allotted kind (w.allot s f).1) + T) (w.allot s f).2 := by
  unfold World.allot
  split
  · simpa [allotted] using h
  · simpa [allotted] using h
  · rename_i place g' heq
    obtain ⟨g, hg, hfg⟩ := Option.map_eq_some_iff.mp heq
    obtain ⟨hext, hkind, hwithin⟩ := hf _ _ _ hfg
    have hset := h.setGuest hg hext
    have hpos := hset.pos_of_guest (s := s) (by simp [World.guestAt_setGuest hg])
    have hpresent : (Target.item s place).Present (w.setGuest s g').stores := fun g'' hg'' => by
      obtain rfl : g' = g'' := by simpa [World.guestAt_setGuest hg] using hg''
      exact hwithin
    have hnew := hset.newHandle hpos rfl hpresent
    simpa [allotted, Target.sort, hkind] using hnew

/-- The shares that an export leaves when it was there. -/
def exported : Option (Handle × Target) → List Share
  | some (h, target) => [.handle h target.sort]
  | none => []

/-- An export belongs to the store of its instance. -/
theorem newExport (h : Sound T w) (s : Nat) (place : Guest.Place) :
    Sound (Ledger.owns (exported (w.newExport s place).1) + T) (w.newExport s place).2 := by
  unfold World.newExport
  split
  · simpa [exported] using h
  · rename_i type htype
    obtain ⟨g, hg, hplace⟩ := Option.bind_eq_some_iff.mp htype
    have hpos := h.pos_of_guest (s := s) (Option.isSome_of_eq_some hg)
    -- The item is there, since its type could be looked up.
    have hitem : (Target.item s place).Present w.stores := fun g' hg' => by
      obtain rfl : g = g' := Option.some.inj (hg.symm.trans hg')
      exact Guest.Place.within_of_declaredType? hplace
    obtain ⟨hstore, hpresent⟩ : (exportTarget s place type).store = s ∧
        (exportTarget s place type).Present w.stores := by
      unfold exportTarget
      split
      · split
        · exact ⟨rfl, trivial⟩
        · exact ⟨rfl, hitem⟩
      · exact ⟨rfl, hitem⟩
    simpa [exported] using h.newHandle hpos hstore hpresent

/-- A host function is made for a closure that has none. -/
theorem newHostFunction {s key : Nat} {r : Registration κ} {pins known : List (Pin κ)}
    {p : Option Payload} (h : Sound (.making ((key, r) :: pins) ::ₘ T) w)
    (hs : .tenure s known p ∈ T) (hr : r.store = s) (type : Signature) :
    ∃ a, (w.newHostFunction s key type r).1 = some a ∧
      Sound (.own (.handle a (.item .func)) ::ₘ .making pins ::ₘ T)
        (w.newHostFunction s key type r).2 := by
  have hC : .tenure s known p ∈ T.claims := Multiset.mem_filter.mpr ⟨hs, rfl⟩
  have hh := h.hosted.cast (D := .making ((key, r) :: pins) ::ₘ T.claims) (by simp)
  obtain ⟨c, g, hc, hg, -⟩ := hh.tenured s known p (Multiset.mem_cons_of_mem hC)
  have hguest : w.guest? s = some g := by simp [World.guest?, hc, hg]
  -- First the function is added, then a handle for it is allocated.
  have hadd : Sound (.making pins ::ₘ T) ({ w with chronicle := { w.chronicle with
      functions := ⟨s, (g.addFunc (.host key type)).1, key, r⟩ :: w.chronicle.functions } }.setGuest s
        (g.addFunc (.host key type)).2) := by
    refine ⟨?_, ?_, ?_, h.engines, h.blameless.faultless, fun e he => ?_, h.blameless.quiet,
      h.blameless.callers⟩
    · have heq : w.setGuest s (g.addFunc (.host key type)).2 = w.modifyStore s fun c =>
          { c with guest := c.guest.map fun _ => (g.addFunc (.host key type)).2 } :=
        World.modifyStore_congr fun d hd => by
          obtain rfl : c = d := by simpa [hc] using hd
          simp [hg]
      have hb : Balanced (Ledger.shares (.making pins ::ₘ T)) (w.setGuest s
          (g.addFunc (.host key type)).2) := by
        rw [heq]
        exact (h.balanced.cast (by simp)).modifyStore (fun c => by simp [World.storeRefs])
          fun _ => rfl
      exact hb
    · refine h.queued.modifyStore (f := fun c => { c with guest := some _ }) (fun _ => rfl)
        (fun d hd hz => h.queued.settled s d hd hz) fun d hd g' hg' => ⟨g, ?_, ?_⟩
      · obtain rfl : c = d := by simpa [hc] using hd
        exact hg
      · obtain rfl := Option.some.inj hg'
        exact ⟨Nat.le_refl _, Nat.le_refl _, Nat.le_refl _⟩
    · rw [Ledger.claims_making]
      exact hh.addFunction (f := fun c => { c with guest := some _ }) hr hc hg rfl rfl
    · exact (h.blameless.calls e he).imp fun _ hf => ⟨List.mem_cons_of_mem _ hf.1, hf.2⟩
  have hpos := hadd.pos_of_guest (s := s) (by
    simp [World.setGuest, World.modifyStore, guestAt, Array.getElem?_modify, hc])
  simp only [World.newHostFunction, hguest]
  exact ⟨_, rfl, hadd.newHandle hpos rfl fun _ _ => trivial⟩

/-- Whoever sees a host function of its own store knows the closure under its key. That is how a
caller comes to know what guest code may call: not by having registered it, but by looking. -/
theorem learn {s key : Nat} {known : List (Pin κ)} {p : Option Payload} {g : Guest.Store}
    (h : Sound (.tenure s known p ::ₘ T) w) (hg : w.guest? s = some g)
    (hkey : key ∈ World.hostKeys g) :
    ∃ r, r.store = s ∧ Sound (.tenure s ((key, r) :: known) p ::ₘ T) w := by
  obtain ⟨place, type, hf⟩ := World.mem_hostKeys.mp hkey
  obtain ⟨r, -, hr, hs⟩ := h.hosted.bound s g place key type hg hf
  have hh := h.hosted.cast (D := .tenure s known p ::ₘ T.claims) (by simp)
  refine ⟨r, hs, h.balanced.cast (by simp), h.queued, ?_, h.engines, h.blameless⟩
  rw [Ledger.claims_tenure]
  refine hh.setKnown fun g' hg' k hk => ?_
  obtain rfl : g = g' := by simpa [World.guest?, guestAt] using hg.symm.trans hg'
  rcases List.mem_cons.mp hk with rfl | hk
  · exact .inr ⟨hkey, hr⟩
  · exact .inl hk

/-- What is known of the closures of a store need not be kept in mind. -/
theorem forget {s : Nat} {known known' : List (Pin κ)} {p : Option Payload}
    (h : Sound (.tenure s known p ::ₘ T) w) (hk : known' ⊆ known) :
    Sound (.tenure s known' p ::ₘ T) w := by
  have hh := h.hosted.cast (D := .tenure s known p ::ₘ T.claims) (by simp)
  refine ⟨h.balanced.cast (by simp), h.queued, ?_, h.engines, h.blameless⟩
  rw [Ledger.claims_tenure]
  exact hh.setKnown fun _ _ k hmem => .inl (hk hmem)

/-- What its user knows of the payload that a store keeps. -/
theorem panic_eq {s : Nat} {known : List (Pin κ)} {p : Option Payload}
    (h : Sound (.tenure s known p ::ₘ T) w) : (w.stores[s]?).bind (·.panic) = p := by
  obtain ⟨c, g, hc, -, hp, -⟩ := h.hosted.tenured s known p (by simp)
  simp [hc, hp]

theorem setPanic {s : Nat} {known : List (Pin κ)} {p : Option Payload}
    (h : Sound (.tenure s known p ::ₘ T) w) (q : Option Payload) :
    Sound (.tenure s known q ::ₘ T) (w.modifyStore s fun c => { c with panic := q }) := by
  have hh := h.hosted.cast (D := .tenure s known p ::ₘ T.claims) (by simp)
  refine ⟨?_, ?_, ?_, h.engines, h.blameless⟩
  · exact (h.balanced.cast (by simp)).modifyStore (fun _ => rfl) fun _ => rfl
  · exact h.queued.modifyStore (f := fun c => { c with panic := q }) (fun _ => rfl)
      (fun c hc hz => h.queued.settled s c hc hz) fun _ _ g hg => ⟨g, hg, .refl g⟩
  · rw [Ledger.claims_tenure]
    exact hh.setPanic q

/-- A closure that is known is found under its key, and it is that of the host function. -/
theorem lookup (h : Sound T w) {s : Nat} {known : List (Pin κ)}
    (hT : .tenure s known none ∈ T) {k : Pin κ} (hk : k ∈ known) (kinds : List Kind) :
    (w.lookup s k.1 kinds).1 = some k.2 ∧ Sound T (w.lookup s k.1 kinds).2 := by
  have hC : .tenure s known none ∈ T.claims := Multiset.mem_filter.mpr ⟨hT, rfl⟩
  obtain ⟨c, g, hc, hg, hp, hknown⟩ := h.hosted.tenured _ _ _ hC
  obtain ⟨hkey, hr⟩ := hknown k hk
  obtain ⟨place, type, hf⟩ := World.mem_hostKeys.mp hkey
  obtain ⟨r, hmem, hr', hstore⟩ := h.hosted.bound s g place k.1 type ((guestAt_eq hc).trans hg) hf
  refine ⟨hr, h.balanced, h.queued, h.hosted, h.engines, h.blameless.faultless, fun e he => ?_,
    List.forall_mem_cons.mpr ⟨by simp [hc, hp], h.blameless.quiet⟩,
    List.forall_mem_cons.mpr ⟨fun r' heq => ?_, h.blameless.callers⟩⟩
  · rcases List.mem_cons.mp he with rfl | he
    · exact ⟨_, hmem, rfl, rfl, hr'⟩
    · exact h.blameless.calls e he
  · obtain rfl : r = r' := Option.some.inj (hr'.symm.trans heq)
    exact hstore

/-- A payload is kept where there was none. If there was one, it would be lost; and this is the step
at which it would be, so that there is none has to be known here. -/
theorem stashPanic {s : Nat} {known : List (Pin κ)}
    (h : Sound (.tenure s known none ::ₘ T) w)
    (p : Payload) : Sound (.tenure s known (some p) ::ₘ T) (w.stashPanic s p) := by
  rw [World.stashPanic, h.panic_eq]
  exact h.setPanic (some p)

/-! ## Origins that a store holds -/

/-- A store takes a copy of an origin. -/
theorem hold (h : Sound T w) {s g : Nat} {known : List (Pin κ)} {p : Option Payload}
    (hs : .tenure s known p ∈ T) (hg : 0 < w.recorded (.origin g)) : Sound T (w.hold s g) := by
  have hC : .tenure s known p ∈ T.claims := Multiset.mem_filter.mpr ⟨hs, rfl⟩
  obtain ⟨c, g', hc, hcg, -⟩ := h.hosted.tenured _ _ _ hC
  have hr := h.retainOrigin hg
  refine ⟨hr.balanced_own.takeOrigin hc, ?_, ?_, h.engines, h.blameless⟩
  · exact h.queued.modifyStore (f := fun c => { c with held := c.held ++ [g] }) (fun _ => rfl)
      (fun c hc hz => h.queued.settled s c hc hz) fun _ _ g hg => ⟨g, hg, .refl g⟩
  · refine h.hosted.modifyStore (f := fun c => { c with held := c.held ++ [g] }) (fun _ => rfl)
      (fun _ => rfl) fun d hd hnone => ?_
    obtain rfl : c = d := Option.some.inj (hc.symm.trans hd)
    simp [hcg] at hnone

/-- A copy of an origin that a store holds. -/
theorem copyHeld (h : Sound T w) (s g : Nat) :
    Sound (Ledger.owns (if (w.copyHeld s g).1 then [.origin g] else []) + T)
      (w.copyHeld s g).2 := by
  unfold World.copyHeld
  split
  · rename_i hany
    obtain ⟨c, hc, hmem⟩ := (Option.any_eq_true _ _).mp hany
    have hheld : Share.origin g ∈ total w.stores World.storeRefs :=
      mem_total.mpr ⟨s, c, hc, by simp [World.storeRefs, List.contains_iff_mem.mp hmem]⟩
    simpa using h.retainOrigin (h.balanced.pos_of_mem_refs (by simp [World.refs, hheld]))
  · simpa using h

/-! ## Definitions of linkers -/

theorem define {l : Nat} {item : Item} (h : Sound (.own item.wrapper.share ::ₘ T) w)
    (hl : 0 < w.recorded (.linker l)) (module name : String) :
    ∃ defined left, (w.define l module name item).1 = some (defined, left) ∧
      Sound (Ledger.owns (left.map (·.wrapper.share)) + T) (w.define l module name item).2 := by
  obtain ⟨defined, left, hout, hb⟩ := h.balanced_own.define hl module name
  refine ⟨defined, left, hout, ?_⟩
  have hw : ∃ linkers, (w.define l module name item).2 = { w with linkers } := by
    unfold World.define
    split
    · exact ⟨_, rfl⟩
    · simp only
      split <;> exact ⟨_, rfl⟩
  obtain ⟨linkers, hw⟩ := hw
  rw [hw] at hb ⊢
  exact leave hb h.queued (h.hosted.cast (by simp)) h.engines h.blameless

theorem retainItems (h : Sound T w) {items : List Item}
    (hitems : ∀ i ∈ items, 0 < w.recorded i.wrapper.share) :
    Sound (Ledger.owns (items.map (·.wrapper.share)) + T) (w.retainItems items) := by
  induction items generalizing w T with
  | nil => simpa [World.retainItems] using h
  | cons i rest ih =>
    have hr := h.retainHandle (hitems i (by simp))
    have hrest := ih hr fun j hj => World.recorded_retainHandle (hitems j (by simp [hj])) _
    simpa [World.retainItems, Item.wrapper, Wrapper.share] using hrest

/-- Items that the definitions of a linker choose are there as long as the linker is. -/
theorem takeItems (h : Sound T w) {l : Nat} (hl : 0 < w.recorded (.linker l))
    {choose : Definitions → Except Error (List Item)}
    (hchoose : ∀ defs items, choose defs = .ok items → ∀ i ∈ items, i ∈ defs.map (·.2)) :
    ∃ defs, (w.takeItems l choose).1 = some (choose defs) ∧
      Sound (Ledger.owns (((choose defs).toOption.getD []).map (·.wrapper.share)) + T)
        (w.takeItems l choose).2 := by
  obtain ⟨c, hc, hpos⟩ := elim_pos.mp hl
  refine ⟨c.definitions, ?_⟩
  cases hr : choose c.definitions with
  | error e => simpa [World.takeItems, hc, hr, Except.toOption] using h
  | ok items =>
    have hitems : ∀ i ∈ items, 0 < w.recorded i.wrapper.share := by
      intro i hi
      refine h.balanced.pos_of_mem_refs ?_
      obtain ⟨d, hd, hdi⟩ := List.mem_map.mp (hchoose _ _ hr i hi)
      have hmem : i.wrapper.share ∈ total w.linkers World.linkerRefs :=
        mem_total.mpr ⟨l, c, hc, by
          simp only [World.linkerRefs, if_pos hpos]
          simp only [Multiset.mem_cons, Multiset.mem_coe, List.mem_map]
          exact .inr ⟨d, hd, by rw [hdi]⟩⟩
      simp [World.refs, hmem]
    simpa [World.takeItems, hc, hr, Except.toOption] using h.retainItems hitems

end Sound

end WasmHost.Host
