import WasmHost.Proofs.Exports
import WasmHost.Proofs.Handles

/-!
# Handles that are made and let go of

An answer may need more handles than it hands out: one is made for an export before anyone looks
whether the host has a view of it. Between two worlds, handles have been added: some are handed out,
and shared once; whatever else was made is shared by nobody, and waits to be reclaimed. Nothing else
about handles has changed, apart from those that waited before and have been reclaimed.

The difficulty is that an answer does several things to handles and its specification should mention
only one. Before anything else the queue of the store is drained, which frees addresses; new handles
may then come to lie at these addresses; and some of the new handles are dropped again and wait in
the queue. A statement of the form "the heap is as before with these handles in addition" is false
for each of the three reasons.

What is true is a statement about *shared* handles (`HandsOut`). Those that were shared are
untouched, those that are shared now and were not are the ones handed out, and everything else that
has been allocated waits in the queue of its store and is nobody's. It is proved in two parts, as
what draining takes away (`Reclaims`) and what is added after it (`Adds`), of which each composes
with itself.
-/

namespace WasmHost.Host

open Act

variable {κ σ : Type} {w w' w'' : World κ σ} {s : Nat}

namespace World

/-! ## Adding handles

Numbers are kept apart from addresses. An address may have been used before, but numbers are counted
up and tell which handles have been allocated since. -/

/-- Handles are added. Those of a list are shared once, the others are not shared. -/
structure Adds (w w' : World κ σ) (handles : List Handle) : Prop where
  kept : ∀ a c, w.heap.get? a = some c → w'.heap.get? a = some c
  free : ∀ a ∈ handles, w.heap.get? a = none
  placed : ∀ a ∈ handles, (w'.heap.get? a).isSome
  shares : ∀ a c, w.heap.get? a = none → w'.heap.get? a = some c →
    c.shares = if a ∈ handles then 1 else 0
  numbers : ∀ n, w.chronicle.allocated.size ≤ n → n < w'.chronicle.allocated.size →
    ∃ a c, w.heap.get? a = none ∧ w'.heap.get? a = some c ∧ c.number = n
  grows : w.chronicle.allocated.size ≤ w'.chronicle.allocated.size

namespace Adds

theorem refl (w : World κ σ) : w.Adds w [] where
  kept _ _ h := h
  free _ h := by cases h
  placed _ h := by cases h
  shares a c hnone hc := by
    rw [hnone] at hc
    cases hc
  numbers n hle hlt := absurd hle (Nat.not_le.mpr hlt)
  grows := Nat.le_refl _

/-- An address that is free in the end was free before. -/
theorem free_of_free {handles : List Handle} (h : w.Adds w' handles) {a : Handle}
    (ha : w'.heap.get? a = none) : w.heap.get? a = none := by
  cases hc : w.heap.get? a with
  | none => rfl
  | some c => rw [h.kept a c hc] at ha; cases ha

theorem trans {handles handles' : List Handle} (h : w.Adds w' handles) (h' : w'.Adds w'' handles') :
    w.Adds w'' (handles ++ handles') where
  kept a c hc := h'.kept a c (h.kept a c hc)
  free a ha := by
    rcases List.mem_append.mp ha with ha | ha
    · exact h.free a ha
    · exact h.free_of_free (h'.free a ha)
  placed a ha := by
    rcases List.mem_append.mp ha with ha | ha
    · obtain ⟨c, hc⟩ := Option.isSome_iff_exists.mp (h.placed a ha)
      rw [h'.kept a c hc]
      rfl
    · exact h'.placed a ha
  shares a c hfree hc := by
    cases hmid : w'.heap.get? a with
    | none =>
      -- The handle is of the second list, if of any: those of the first are there in between.
      have hnot : a ∉ handles := fun ha => by simpa [hmid] using h.placed a ha
      simpa [hnot] using h'.shares a c hmid hc
    | some d =>
      have hnot : a ∉ handles' := fun ha => by simpa [hmid] using h'.free a ha
      obtain rfl : d = c := Option.some.inj ((h'.kept a d hmid).symm.trans hc)
      simpa [hnot] using h.shares a d hfree hmid
  numbers n hle hlt := by
    rcases Nat.lt_or_ge n w'.chronicle.allocated.size with hn | hn
    · obtain ⟨a, c, hfree, hc, hnumber⟩ := h.numbers n hle hn
      exact ⟨a, c, hfree, h'.kept a c hc, hnumber⟩
    · obtain ⟨a, c, hfree, hc, hnumber⟩ := h'.numbers n hn hlt
      exact ⟨a, c, h.free_of_free hfree, hc, hnumber⟩
  grows := Nat.le_trans h.grows h'.grows

theorem itemHandle {handles : List Handle} (h : w.Adds w' handles) {a : Handle} {p : Guest.Place}
    (ha : w.ItemHandle s a p) : w'.ItemHandle s a p := by
  obtain ⟨c, hc, hrest⟩ := ha
  exact ⟨c, h.kept a c hc, hrest⟩

end Adds

/-- A new handle is added. -/
theorem newHandle_adds (w : World κ σ) (s : Nat) (target : Target) :
    w.Adds (w.newHandle s target).2 [(w.newHandle s target).1] := by
  have hfree : w.heap.get? (w.newHandle s target).1 = none :=
    Slab.get?_insert_self w.heap ⟨s, target, 1, w.chronicle.allocated.size⟩
  have hget : ∀ a, (w.newHandle s target).2.heap.get? a =
      if a = (w.newHandle s target).1 then some ⟨s, target, 1, w.chronicle.allocated.size⟩
      else w.heap.get? a := Slab.get?_insert w.heap _
  have hsize : (w.newHandle s target).2.chronicle.allocated.size =
      w.chronicle.allocated.size + 1 := Array.size_push ..
  refine ⟨fun a c hc => ?_, fun a ha => ?_, fun a ha => ?_, fun a c hnone hc => ?_,
    fun n hle hlt => ?_, by omega⟩
  · have hne : a ≠ (w.newHandle s target).1 := by
      rintro rfl
      rw [hfree] at hc
      cases hc
    rw [hget, if_neg hne, hc]
  · rw [List.mem_singleton.mp ha, hfree]
  · rw [List.mem_singleton.mp ha, hget, if_pos rfl]
    rfl
  · rw [hget] at hc
    split at hc
    · rename_i heq
      cases hc
      simp [heq]
    · rw [hnone] at hc
      cases hc
  · have hn : w.chronicle.allocated.size = n := by omega
    exact ⟨_, _, hfree, (hget _).trans (if_pos rfl), hn⟩

theorem recorded_store_newHandle (w : World κ σ) (s : Nat) (target : Target)
    (hs : 0 < w.recorded (.store s)) :
    (w.newHandle s target).2.recorded (.store s) = w.recorded (.store s) + 1 := by
  obtain ⟨c, hc, -⟩ := elim_pos.mp hs
  simp [newHandle, retainStore, recorded, modifyStore, Array.getElem?_modify, hc]

/-! ## Letting go at once

The handle of an export without a view loses its only share. Its store, of which it holds a share,
is not deleted by this, since whoever asked has another one. -/

@[simp] theorem heap_enqueue (w : World κ σ) (s : Nat) (a : Handle) :
    (w.enqueue s a).heap = w.heap := by
  unfold enqueue
  split <;> rfl

@[simp] theorem chronicle_enqueue (w : World κ σ) (s : Nat) (a : Handle) :
    (w.enqueue s a).chronicle = w.chronicle := by
  unfold enqueue
  split <;> rfl

@[simp] theorem recorded_store_enqueue (w : World κ σ) (s t : Nat) (a : Handle) :
    (w.enqueue s a).recorded (.store t) = w.recorded (.store t) := by
  unfold enqueue
  split
  · simp only [recorded, modifyStore, Array.getElem?_modify]
    split
    · rename_i h
      subst h
      cases w.stores[s]? <;> rfl
    · rfl
  · rfl

/-- As long as a store is shared by others as well, letting go of it deletes nothing. -/
theorem run_releaseStore_of_shared (h : 1 < w.recorded (.store s)) :
    ∃ w', (releaseStore s : Act κ σ Unit).run w = (.value (), w') ∧ w'.heap = w.heap ∧
      w'.chronicle = w.chronicle ∧ w'.recorded (.store s) = w.recorded (.store s) - 1 := by
  obtain ⟨c, hc, -⟩ := elim_pos.mp (Nat.zero_lt_of_lt h)
  have hne : c.shares ≠ 1 := by
    simp only [recorded, hc, Option.elim_some] at h
    omega
  have hdismiss : w.dismissStore s = (none, w.modifyStore s fun c => { c with shares := c.shares - 1 }) := by
    simp only [dismissStore, hc, hne, if_false]
  refine ⟨_, run_bind_value (run_make (f := (·.dismissStore s)) hdismiss), rfl, rfl, ?_⟩
  simp [recorded, modifyStore, Array.getElem?_modify, hc]

/-- A handle that was added and loses its only share is shared by nobody. It is still at its place:
it leaves the heap when it is reclaimed, not when it is let go. -/
theorem Adds.dropped {a : Handle} (h : w.Adds w' [a])
    (hheap : w''.heap = w'.heap.modify a fun c => { c with shares := c.shares - 1 })
    (hchronicle : w''.chronicle = w'.chronicle) : w.Adds w'' [] := by
  have hget : ∀ b, w''.heap.get? b = if b = a then (w'.heap.get? b).map fun c =>
      { c with shares := c.shares - 1 } else w'.heap.get? b := by
    intro b
    rw [hheap, Slab.get?_modify]
  have hfree := h.free a (List.mem_singleton_self a)
  have hempty : ∀ {P : Handle → Prop}, ∀ b ∈ ([] : List Handle), P b := fun b hb => nomatch hb
  refine ⟨fun b c hc => ?_, hempty, hempty, fun b c hnone hc => ?_, fun n hle hlt => ?_,
    hchronicle ▸ h.grows⟩
  · have hne : b ≠ a := by
      rintro rfl
      rw [hfree] at hc
      cases hc
    rw [hget, if_neg hne, h.kept b c hc]
  · rw [hget] at hc
    split at hc
    · rename_i heq
      obtain ⟨d, hd, rfl⟩ := Option.map_eq_some_iff.mp hc
      simp [h.shares b d hnone hd, heq]
    · rename_i hne
      simpa [hne] using h.shares b c hnone hc
  · rw [hchronicle] at hlt
    obtain ⟨b, c, hnone, hc, hnumber⟩ := h.numbers n hle hlt
    by_cases hb : b = a
    · refine ⟨b, { c with shares := c.shares - 1 }, hnone, ?_, hnumber⟩
      rw [hget, if_pos hb, hc, Option.map_some]
    · refine ⟨b, c, hnone, ?_, hnumber⟩
      rw [hget, if_neg hb, hc]

/-- A new handle that is let go of at once is shared by nobody. -/
theorem run_releaseHandle_newHandle (hs : 0 < w.recorded (.store s)) (target : Target) :
    ∃ w', (releaseHandle (w.newHandle s target).1 : Act κ σ Unit).run (w.newHandle s target).2 =
        (.value (), w') ∧ w.Adds w' [] ∧ w'.recorded (.store s) = w.recorded (.store s) ∧
      ∀ t, w'.guest? t = w.guest? t := by
  have hadds := w.newHandle_adds s target
  have hcell : (w.newHandle s target).2.heap.get? (w.newHandle s target).1 =
      some ⟨s, target, 1, w.chronicle.allocated.size⟩ :=
    (Slab.get?_insert w.heap _ _).trans (if_pos rfl)
  have hstore := w.recorded_store_newHandle s target hs
  have hguests := w.guest?_newHandle s target
  -- What the new handle is has been noted in the four facts, and does not matter any more.
  generalize w.newHandle s target = new at hadds hcell hstore hguests ⊢
  obtain ⟨a, w₁⟩ := new
  -- Its share goes, and it joins the queue of its store, which others share as well.
  obtain ⟨w₂, hw₂⟩ : ∃ w₂, w₂ = ({ w₁ with
      heap := w₁.heap.modify a fun c => { c with shares := c.shares - 1 } } : World κ σ).enqueue s a :=
    ⟨_, rfl⟩
  have hretire : w₁.retire a = (some s, w₂) := by
    rw [hw₂]
    simp [retire, hcell]
  have hstore₂ : w₂.recorded (.store s) = w.recorded (.store s) + 1 := by
    rw [hw₂, recorded_store_enqueue]
    exact hstore
  obtain ⟨w₃, hrun, hheap, hchronicle, hstore₃⟩ :=
    run_releaseStore_of_shared (w := w₂) (s := s) (by omega)
  have hreleased : (releaseHandle a : Act κ σ Unit).run w₁ = (.value (), w₃) :=
    (run_bind_value (run_make (f := (·.retire a)) hretire)).trans hrun
  refine ⟨w₃, hreleased, hadds.dropped ?_ ?_, by omega, fun t => ?_⟩
  · rw [hheap, hw₂, heap_enqueue]
  · rw [hchronicle, hw₂, chronicle_enqueue]
  · obtain ⟨u, w', hrun', hsettles⟩ := releaseHandle_settling a w₁
    cases hreleased.symm.trans hrun'
    exact (hsettles.guests t).trans (hguests t)

/-! ## Obtaining the context

Draining goes through the queue handle by handle. So it is enough to see what one handle's turn
does. -/

/-- Handles are reclaimed, and none is added. -/
structure Reclaims (w w' : World κ σ) : Prop where
  handles : ∀ a c, w'.heap.get? a = some c → w.heap.get? a = some c
  allocated : w'.chronicle.allocated = w.chronicle.allocated

theorem Reclaims.trans (h : w.Reclaims w') (h' : w'.Reclaims w'') : w.Reclaims w'' :=
  ⟨fun a c hc => h.handles a c (h'.handles a c hc), h'.allocated.trans h.allocated⟩

theorem reclaim_reclaims (w : World κ σ) (b : Handle) : w.Reclaims (w.reclaim b) := by
  cases hb : w.heap.get? b with
  | none =>
    rw [reclaim, Slab.remove_of_get?_none hb]
    exact ⟨fun _ _ h => h, rfl⟩
  | some cell =>
    rw [reclaim_eq hb]
    exact ⟨fun _ _ hc => Slab.get?_of_remove hb hc, rfl⟩

theorem drain_reclaims (w : World κ σ) (s : Nat) : w.Reclaims (w.drain s) := by
  have hnext : ∀ w : World κ σ, w.Reclaims (w.reclaimNext s) := by
    intro w
    unfold reclaimNext
    split
    · exact ⟨fun _ _ h => h, rfl⟩
    · rename_i h queue _
      have hqueue : w.Reclaims (w.modifyStore s fun c => { c with queue }) := ⟨fun _ _ h => h, rfl⟩
      exact hqueue.trans (reclaim_reclaims _ h)
  have hbegin : w.Reclaims (w.beginDrain s).2 := by
    rw [beginDrain_eq]
    exact ⟨fun _ _ h => h, rfl⟩
  exact drain_induction s hbegin fun w' h => h.trans (hnext w')

/-! ## What an answer leaves

The two parts together. -/

/-- Some handles have been handed out, and nothing else is left behind. -/
structure HandsOut (w w' : World κ σ) (handles : List Handle) : Prop where
  /-- What was shared is shared as before, -/
  kept : ∀ a c, w.heap.get? a = some c → 0 < c.shares → w'.heap.get? a = some c
  /-- whatever else is shared has been handed out, and is shared once, -/
  owned : ∀ a c, w'.heap.get? a = some c → 0 < c.shares →
    w.heap.get? a = some c ∨ a ∈ handles ∧ c.shares = 1
  /-- and whatever else has been allocated waits to be reclaimed. -/
  waiting : ∀ n, w.chronicle.allocated.size ≤ n → n < w'.chronicle.allocated.size →
    w'.Waits n ∨ ∃ a ∈ handles, ∃ c, w'.heap.get? a = some c ∧ c.number = n
  guests : ∀ t, w'.guest? t = w.guest? t

theorem HandsOut.itemHandle {handles : List Handle} (h : w.HandsOut w' handles) {a : Handle}
    {p : Guest.Place} (ha : w.ItemHandle s a p) : w'.ItemHandle s a p := by
  obtain ⟨c, hc, hpos, hrest⟩ := ha
  exact ⟨c, h.kept a c hc hpos, hpos, hrest⟩

theorem Adds.handsOut {T T' : Ledger κ} {handles : List Handle} (h : (w.drain s).Adds w' handles)
    (hw : Sound T w) (hw' : Sound T' w') (hguests : ∀ t, w'.guest? t = w.guest? t) :
    w.HandsOut w' handles := by
  obtain ⟨hold, hsize⟩ := w.drain_reclaims s
  refine ⟨fun a c hc hpos => h.kept a c ((hw.drain_spares s).shared a c hc hpos), fun a c hc hpos => ?_,
    fun n hle hlt => ?_, hguests⟩
  · -- Either the address was free after draining, and the handle is a new one, or it has been there
    -- all the time.
    cases hbefore : (w.drain s).heap.get? a with
    | none =>
      have hshares := h.shares a c hbefore hc
      split at hshares
      · rename_i hmem
        exact .inr ⟨hmem, hshares⟩
      · omega
    | some d =>
      obtain rfl : d = c := Option.some.inj ((h.kept a d hbefore).symm.trans hc)
      exact .inl (hold a d hbefore)
  · rw [← hsize] at hle
    obtain ⟨a, c, hnone, hc, rfl⟩ := h.numbers n hle hlt
    have hshares := h.shares a c hnone hc
    split at hshares
    · rename_i hmem
      exact .inr ⟨a, hmem, c, hc, rfl⟩
    · exact .inl (hw'.waits hc hshares)

end World

/-! ## Exports

With the two cases of `handOut`, there is one handle or none. -/

variable {g : Guest.Store} {place : Guest.Place} {type : ItemType}

/-- What is handed out for an export is the one handle that is left of it. -/
theorem handOut_adds (hs : 0 < w.recorded (.store s)) (hg : w.guest? s = some g)
    (htype : g.declaredType? place = some type) :
    ∃ item w', (handOut s place : Act κ σ (Option Item)).run w = (.value item, w') ∧
      w.Adds w' (item.toList.map Item.handle) ∧ 0 < w'.recorded (.store s) ∧
      (∀ t, w'.guest? t = w.guest? t) ∧
      item.map Item.kind = (if views g place then some place.kind else none) ∧
      ∀ i, item = some i → w'.ItemHandle s i.handle place := by
  cases hview : views g place with
  | true =>
    have hadds := w.newHandle_adds s (.item s place)
    have hstore := w.recorded_store_newHandle s (.item s place) hs
    refine ⟨_, _, run_handOut_of_views hg hview, hadds, by omega, w.guest?_newHandle s _, by simp,
      fun i hi => ?_⟩
    obtain rfl := Option.some.inj hi
    exact w.itemHandle_newHandle s place
  | false =>
    obtain ⟨w', hrun, hadds, hstore, hguests⟩ :=
      World.run_releaseHandle_newHandle hs (.unsupported s)
    exact ⟨none, w', (run_handOut_of_not_views hg htype hview).trans (run_bind_value hrun), hadds,
      by omega, hguests, by simp, fun i hi => by cases hi⟩

end WasmHost.Host
