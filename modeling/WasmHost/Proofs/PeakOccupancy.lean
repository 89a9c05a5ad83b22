import Mathlib.Algebra.BigOperators.Group.Finset.Piecewise
import Mathlib.Order.Bounds.Basic
import WasmHost.Proofs.ProgramChanges
import WasmHost.Proofs.Senses
import WasmHost.Proofs.Slabs

/-!
# A slab is no larger than it had to be

A slab adds a slot only for a value that no vacant slot is left for. So it has as many slots as it ever
had values at one time, whatever was put in and taken out in the meantime. Were a vacant slot lost from the
list, no answer would tell: the slab would only be larger than it had to be, and more so with time. So
what is said here is said of a slab together with all that it was before.

The registry of the closures is such a slab. A step of a thread registers a closure, or finalises one, or
leaves the registry as it is; so there are as many slots for closures as there ever were closures at one
time, however many stores come and go.

The number of slots is no part of any answer, but it is the memory that a slab takes up. One can
bound it from below: there are no fewer slots than values. The bound from above is about the past.
It cannot be an invariant of the slab alone, because the slab does not know how many values it once
had. So a slab is looked at together with its history, which is given as a function from the steps
so far to what the slab is after them. For requests, this is `after`, and for the registry it is
what the threads have made of it; the same theorem serves for both (`fits`).

The step lemma says that a slab has, after a step, as many slots as before or as it has values now,
whichever is more (`Refines.moves`). It rests on one equation: slots are values and free keys
(`capacity_eq`). This is where it is used that no vacant slot is missing from the list. The run
lemma follows by induction from the other end of the list of steps, as each step adds one number to
those of which the greatest is asked for.
-/

namespace WasmHost

namespace Slab

variable {α ι : Type}

/-- The number of slots that are occupied: one for each value. This is counted slot by slot, and is
not the number that the slab keeps; that the two agree is a part of the theorem. -/
def occupied (s : Slab α) : Nat := s.total fun _ _ => 1

/-- How many slots were occupied, at the start and after each of the steps. `history` tells what a slab
is after any steps. -/
def occupancies (history : List ι → Slab α) (steps : List ι) : Set Nat :=
  {n | ∃ before, before <+: steps ∧ (history before).occupied = n}

/-- The keys that had a value, at the start or after some of the steps. -/
def keysUsed (history : List ι → Slab α) (steps : List ι) : Set Nat :=
  {key | ∃ before, before <+: steps ∧ ((history before).get? key).isSome}

/-- After steps, a slab is as large as it had to be. -/
structure Fits (history : List ι → Slab α) (steps : List ι) : Prop where
  /-- It counts the slots that are occupied. -/
  count : (history steps).len = (history steps).occupied
  /-- There are as many slots as were ever occupied at one time. -/
  peak : IsGreatest (occupancies history steps) (history steps).capacity
  /-- Every key that has been in use is smaller than that. -/
  keys : keysUsed history steps ⊆ Set.Iio (history steps).capacity

/-- A slab that was asked for one thing, or for nothing. -/
inductive Moves (s : Slab α) : Slab α → Prop
  | stay : s.Moves s
  | insert (v : α) : s.Moves (s.insert v).2
  | remove (key : Nat) : s.Moves (s.remove key).2

/-- The number of values is kept right. -/
theorem Moves.sized {s s' : Slab α} (hs : s.Moves s') (h : s.Sized) : s'.Sized := by
  cases hs with
  | stay => exact h
  | insert v => exact h.insert v
  | remove key =>
    cases hv : s.get? key with
    | none => rwa [remove_of_get?_none hv]
    | some v => exact h.remove hv

/-- An insertion occupies one slot more. -/
theorem occupied_insert (s : Slab α) (v : α) : (s.insert v).2.occupied = s.occupied + 1 :=
  s.total_insert v fun _ _ => 1

namespace Refines

variable {s s' : Slab α} {m : ReferenceSlab α}

/-- No vacant slot is missing from the stack: there are as many slots as there are values and free keys. -/
theorem capacity_eq (h : Refines s m) : s.capacity = s.occupied + m.freed.length := by
  -- The stack has no key twice and none beyond the slots, so its length can be counted slot by slot
  -- as well.
  have hfreed : m.freed.length =
      ∑ key ∈ Finset.range s.slots.size, if key ∈ m.freed then 1 else 0 := by
    rw [← List.toFinset_card_of_nodup h.nodup, ← Finset.card_filter]
    congr 1
    ext key
    simp only [List.mem_toFinset, Finset.mem_filter, Finset.mem_range, iff_and_self]
    intro hkey
    obtain ⟨next, hvacant⟩ := (h.vacant key).mp hkey
    exact (Array.getElem?_eq_some_iff.mp hvacant).1
  -- Every slot counts once: as a value, or as a free key.
  have hslot : ∀ key ∈ Finset.range s.slots.size,
      (s.slots[key]?).elim 0 (slotTotal (fun _ _ => 1) key) + (if key ∈ m.freed then 1 else 0) = 1 := by
    intro key hkey
    obtain ⟨slot, hsome⟩ : ∃ slot, s.slots[key]? = some slot :=
      ⟨_, Array.getElem?_eq_getElem (Finset.mem_range.mp hkey)⟩
    have hvacant := h.vacant key
    cases slot with
    | occupied v =>
      have hnot : key ∉ m.freed := by simp [hvacant, hsome]
      simp [hsome, hnot, slotTotal]
    | vacant next =>
      have hmem : key ∈ m.freed := by simp [hvacant, hsome]
      simp [hsome, hmem, slotTotal]
  rw [occupied, total, WasmHost.total, hfreed, ← Finset.sum_add_distrib, Finset.sum_congr rfl hslot]
  simp [capacity]

/-- A slab adds a slot only for a value that no slot is left for. If no key is free then all slots
are occupied, and it takes a new one; if one is, then the values still fit. -/
theorem insert_capacity (h : Refines s m) (v : α) :
    (s.insert v).2.capacity = max s.capacity (s.insert v).2.occupied := by
  have hs := h.capacity_eq
  have hs' := (h.insert v).2.capacity_eq
  rw [occupied_insert] at hs' ⊢
  cases hf : m.freed with
  | nil =>
    simp only [ReferenceSlab.insert, hf, List.length_nil] at hs hs'
    omega
  | cons key rest =>
    simp only [ReferenceSlab.insert, hf, List.length_cons] at hs hs'
    omega

/-- A removal leaves the slots that there are. -/
theorem remove_capacity (h : Refines s m) (key : Nat) :
    (s.remove key).2.capacity = max s.capacity (s.remove key).2.occupied := by
  have hs' := (h.remove key).2.capacity_eq
  have hsize : (s.remove key).2.capacity = s.capacity := by
    unfold Slab.remove
    split <;> simp [capacity]
  omega

/-- One step adds to the slots what is missing for the values that there are then. -/
theorem moves (h : Refines s m) (hs : s.Moves s') :
    (∃ m', Refines s' m') ∧ s'.capacity = max s.capacity s'.occupied := by
  cases hs with
  | stay =>
    have := h.capacity_eq
    exact ⟨⟨m, h⟩, by omega⟩
  | insert v => exact ⟨⟨_, (h.insert v).2⟩, h.insert_capacity v⟩
  | remove key => exact ⟨⟨_, (h.remove key).2⟩, h.remove_capacity key⟩

end Refines

/-! ## Histories

From here on, `history` is any function for which two things are known: there is nothing at the
beginning, and each step asks for one thing at most. What the steps are does not matter. -/

section Histories

variable {history : List ι → Slab α}

/-- One step adds one occupancy. -/
theorem occupancies_concat (steps : List ι) (i : ι) : occupancies history (steps ++ [i]) =
    Insert.insert (history (steps ++ [i])).occupied (occupancies history steps) := by
  ext n
  rw [Set.mem_insert_iff]
  constructor
  · rintro ⟨before, hb, rfl⟩
    rcases List.prefix_concat_iff.mp hb with rfl | hb
    · exact .inl rfl
    · exact .inr ⟨before, hb, rfl⟩
  · rintro (rfl | ⟨before, hb, rfl⟩)
    · exact ⟨_, List.prefix_rfl, rfl⟩
    · exact ⟨before, hb.trans (List.prefix_append ..), rfl⟩

/-- What was so after some of the steps is still one of the numbers after more of them. -/
theorem occupancies_mono {before steps : List ι} (h : before <+: steps) :
    occupancies history before ⊆ occupancies history steps := by
  rintro n ⟨first, hf, rfl⟩
  exact ⟨first, hf.trans h, rfl⟩

/-- The number of slots is one of the occupancies, and no less than any of them. By induction on the
steps, the last one first; the reference goes along, because it is what the step lemma needs. -/
theorem capacity_isGreatest (hstart : history [] = empty)
    (hstep : ∀ steps i, (history steps).Moves (history (steps ++ [i]))) (steps : List ι) :
    (∃ m, Refines (history steps) m) ∧
      IsGreatest (occupancies history steps) (history steps).capacity := by
  induction steps using List.reverseRecOn with
  | nil =>
    rw [hstart]
    refine ⟨⟨_, Refines.empty⟩, ⟨[], List.prefix_rfl, ?_⟩, ?_⟩
    · rw [hstart]
      exact total_empty _
    · rintro n ⟨before, hb, rfl⟩
      rw [List.prefix_nil.mp hb, hstart]
      exact (total_empty _).le
  | append_singleton steps i ih =>
    obtain ⟨⟨m, hm⟩, hpeak⟩ := ih
    obtain ⟨hm', hcapacity⟩ := hm.moves (hstep steps i)
    refine ⟨hm', ?_⟩
    rw [hcapacity, occupancies_concat, max_comm]
    exact hpeak.insert _

/-- The number of values that a slab keeps is right after any steps. -/
theorem sized (hstart : history [] = empty)
    (hstep : ∀ steps i, (history steps).Moves (history (steps ++ [i]))) (steps : List ι) :
    (history steps).Sized := by
  induction steps using List.reverseRecOn with
  | nil =>
    rw [hstart]
    exact (total_empty _).symm
  | append_singleton steps i ih => exact (hstep steps i).sized ih

/-- A key that has a value is one of a slot. -/
theorem lt_capacity {s : Slab α} {key : Nat} (h : (s.get? key).isSome) : key < s.capacity := by
  obtain ⟨v, hv⟩ := Option.isSome_iff_exists.mp h
  exact (Array.getElem?_eq_some_iff.mp (slots_of_get? hv)).1

/-- A slab that starts without slots, and is asked for one thing in a step, fits. A key that was
used at some time was smaller than the number of slots at that time, and there are no fewer now. -/
theorem fits (hstart : history [] = empty)
    (hstep : ∀ steps i, (history steps).Moves (history (steps ++ [i]))) (steps : List ι) :
    Fits history steps where
  count := sized hstart hstep steps
  peak := (capacity_isGreatest hstart hstep steps).2
  keys := by
    rintro key ⟨before, hb, hkey⟩
    have hle := (capacity_isGreatest hstart hstep before).2.mono
      (capacity_isGreatest hstart hstep steps).2 (occupancies_mono hb)
    exact (lt_capacity hkey).trans_le hle

end Histories

/-! ## Requests

The history of a slab by itself is what has been asked of it. -/

/-- What a slab is after requests. -/
def after (rs : List (Request α)) : Slab α := (answerAll answer empty rs).2

/-- The keys that were given out in the answers to requests. -/
def issued (rs : List (Request α)) : Set Nat := {key | .key key ∈ (answerAll answer empty rs).1}

/-- Requests can be answered in two parts. -/
theorem answerAll_append {σ : Type} (answer : σ → Request α → Answer α × σ) (s : σ)
    (rs rs' : List (Request α)) : answerAll answer s (rs ++ rs') =
      ((answerAll answer s rs).1 ++ (answerAll answer (answerAll answer s rs).2 rs').1,
        (answerAll answer (answerAll answer s rs).2 rs').2) := by
  induction rs generalizing s with
  | nil => rfl
  | cons r rs ih => simp [answerAll, ih]

/-- The last request is answered by what the slab was before it. -/
theorem after_concat (rs : List (Request α)) (r : Request α) :
    after (rs ++ [r]) = ((after rs).answer r).2 := by
  rw [after, answerAll_append]
  rfl

/-- A request is one of the things that a slab can be asked for, or it does not change it. -/
theorem answer_moves (s : Slab α) (r : Request α) : s.Moves (s.answer r).2 := by
  cases r with
  | insert v => exact .insert v
  | remove key => exact .remove key
  | get key => exact .stay
  | len => exact .stay

/-- A key that is given out has a value when it is. -/
theorem issued_subset (rs : List (Request α)) : issued rs ⊆ keysUsed after rs := by
  induction rs using List.reverseRecOn with
  | nil => rintro key ⟨⟩
  | append_singleton rs r ih =>
    intro key hkey
    have hkey : .key key ∈ (answerAll answer empty (rs ++ [r])).1 := hkey
    rw [answerAll_append, List.mem_append] at hkey
    rcases hkey with hkey | hkey
    · obtain ⟨before, hb, hsome⟩ := ih hkey
      exact ⟨before, hb.trans (List.prefix_append ..), hsome⟩
    · refine ⟨_, List.prefix_rfl, ?_⟩
      rw [after_concat]
      cases r with
      | insert v =>
        obtain rfl : key = ((after rs).insert v).1 := by simpa [answerAll, answer, after] using hkey
        simp [answer, get?_insert]
      | _ => simp [answerAll, answer] at hkey

/-- A slab fits after any requests. -/
theorem fits_after (rs : List (Request α)) : Fits after rs :=
  fits rfl (fun rs r => after_concat rs r ▸ answer_moves _ r) rs

end Slab

namespace Host

/-! ## The registry

The registry is a slab like any other, and all that has to be known is that no step of any thread
does more to it than what can be asked of a slab at once. Most changes leave it alone, but some of
these let go of handles, with all that follows. -/

section Registry

variable {κ σ : Type}

/-- Retaining items concerns the handles alone. -/
theorem World.registry_retainItems (w : World κ σ) (items : List Item) :
    (w.retainItems items).registry = w.registry := by
  induction items generalizing w with
  | nil => rfl
  | cons item items ih => exact ih (w.retainHandle item.handle)

/-- A change registers a closure, or finalises one, or leaves the registry as it is. By cases on the
change: one registers, one finalises, and all others leave the registry as it is. -/
theorem Change.registry_moves (c : Change κ σ) (w : World κ σ) :
    w.registry.Moves (c.apply w).registry := by
  have stays {w' : World κ σ} (h : w'.registry = w.registry) : w.registry.Moves w'.registry :=
    h ▸ .stay
  cases c with
  | register s type code captures => exact .insert _
  | unregister key =>
    have hremove := Slab.Moves.remove (s := w.registry) key
    simp only [apply, World.unregister]
    split
    · rename_i r registry h
      rwa [h] at hremove
    · exact .stay
  -- What is let go of settles, and that takes no closure along.
  | fault f => exact stays (w.fault_settles f).registry
  | retire h => exact stays (w.retire_settles h).registry
  | releaseEngine e => exact stays (w.releaseEngine_settles e).registry
  | dismissStore s => exact stays (w.dismissStore_settles s).registry
  | dismissObject o => exact stays (w.reduceObject_settles o _).registry
  | dismissOrigin g => exact stays (w.dismissOrigin_settles g).registry
  | reclaimSole h =>
    refine stays ?_
    simp only [apply, World.reclaimSole]
    split
    · rfl
    · split
      · exact (w.reclaim_settles h).registry
      · rfl
  | reclaimNext s =>
    refine stays ?_
    simp only [apply, World.reclaimNext]
    split
    · rfl
    · exact (World.reclaim_settles _ _).registry
  | takeItems l choose =>
    refine stays ?_
    simp only [apply, World.takeItems]
    split
    · rfl
    · rfl
    · exact w.registry_retainItems _
  | define l module name item =>
    refine stays ?_
    simp only [apply, World.define]
    split
    · rfl
    · split <;> rfl
  | beginDrain s | dismissModule m | dismissLinker l | vacate s | surrender s g | copyHeld s g
  | newHostFunction s key type r | newExport s place | onGuest s f
  | retainObjectOf g | retainCapture c | stashPanic s p | allot s f =>
    refine stays ?_
    simp only [apply, World.beginDrain, World.dismissModule, World.dismissLinker, World.vacate,
      World.surrender, World.copyHeld, World.newHostFunction, World.newExport, World.onGuest,
      World.retainObjectOf, World.retainCapture, World.stashPanic, World.allot]
    split <;> rfl
  | _ => exact .stay

/-- A step registers a closure, or finalises one, or leaves the registry as it is. -/
def MovesRegistry (g : World κ σ → World κ σ) : Prop :=
  ∀ w : World κ σ, w.registry.Moves (g w).registry

instance : Change.Permissive (MovesRegistry : (World κ σ → World κ σ) → Prop) :=
  ⟨Change.registry_moves⟩

end Registry

/-- The slots of a slab are used again. Whatever is asked of a slab from the start, it has as many slots
as it ever had values at one time, and every key that it gave out is smaller than that. And the registry
of the closures of any threads fits in the same way, however they take turns: it has as many slots as it
ever had closures at one time. -/
theorem Embedder.slots_reused {α κ : Type} (requests : List (Slab.Request α)) (embedder : Embedder κ)
    (depth : Nat) (programs : List (Program κ Unit)) (collections : List (List (Nat × Nat)))
    (order : List Nat) :
    (Slab.Fits Slab.after requests ∧
      Slab.issued requests ⊆ Set.Iio (Slab.after requests : Slab α).capacity) ∧
    Slab.Fits (fun order =>
      ((embedder.startCollected depth programs collections).run order).world.registry) order := by
  have hslab := Slab.fits_after requests
  refine ⟨⟨hslab, (Slab.issued_subset requests).trans hslab.keys⟩, Slab.fits rfl (fun turns i => ?_) order⟩
  have hstart : (embedder.startCollected depth programs collections).Every MovesRegistry :=
    embedder.every_startCollected depth programs collections
  obtain ⟨-, g, hg, hworld⟩ := (hstart.run turns).step i
  simp only [Threads.run, List.foldl_concat] at hworld ⊢
  exact hworld ▸ hg _

end Host

end WasmHost
