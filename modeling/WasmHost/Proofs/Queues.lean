import WasmHost.Proofs.Ledger

/-!
# Handles that wait

Every handle that nothing shares any more waits once in the queue of its own store, until it is
reclaimed. Each lemma says this of what one kind of step leaves behind.

The queue of a store and the counts of the handles could easily come apart: one of them is changed
when a share is released, on any thread, and the other when the store is drained. So the invariant ties them to each other from both ends. A handle that waits is in the
heap, belongs to the store in whose queue it is, and has no shares (so it cannot be freed while in
use); and a handle without shares waits (so none is forgotten). With no address twice in a queue,
and all numbers accounted for, that makes every handle be reclaimed exactly once, although its
address may belong to another one soon after.

A drain that is interrupted is not a case of its own. The batch that it has taken and what has come
in since then are read as one list, `ReclaimQueue.toList`, and the list is what the lemmas speak of.

The fields of `Queued` are proved one by one in each lemma. Where a step leaves most of them alone,
the lemma is written with the names of the fields; where one fact about the step serves several of
them, it comes first, and the fields follow in their order.
-/

namespace WasmHost.Host

theorem getElem?_modify_cases {α : Type} {a : Array α} {i j : Nat} {f : α → α} {y : α}
    (h : (a.modify i f)[j]? = some y) :
    (j = i ∧ ∃ x, a[i]? = some x ∧ y = f x) ∨ (j ≠ i ∧ a[j]? = some y) := by
  rw [Array.getElem?_modify] at h
  by_cases hj : i = j
  · subst hj
    obtain ⟨x, hx, rfl⟩ : ∃ x, a[i]? = some x ∧ f x = y := by simpa using h
    exact .inl ⟨rfl, x, hx, rfl⟩
  · exact .inr ⟨Ne.symm hj, by simpa [hj] using h⟩

/-! ## What handles stand for -/

section Present

variable {stores : Array StoreCell}

/-- A store is changed, and no item of it taken away. -/
theorem Target.Present.modify {t : Target} (h : t.Present stores) {s : Nat}
    {f : StoreCell → StoreCell} (hg : ∀ c, stores[s]? = some c → ∀ g', (f c).guest = some g' →
      ∃ g, c.guest = some g ∧ g.Grows g') : t.Present (stores.modify s f) := by
  cases t with
  | item i place =>
    intro g' hg'
    obtain ⟨d, hd, hdg⟩ := Option.bind_eq_some_iff.mp hg'
    obtain ⟨rfl, c, hc, rfl⟩ | ⟨-, hd⟩ := getElem?_modify_cases hd
    · obtain ⟨g, hcg, hgrows⟩ := hg c hc g' hdg
      exact (h g (by simp [guestAt, hc, hcg])).grow hgrows
    · exact h g' (by simp [guestAt, hd, hdg])
  | _ => trivial

theorem Target.Present.push {t : Target} (h : t.Present stores) (ht : t.store < stores.size)
    (c : StoreCell) : t.Present (stores.push c) := by
  cases t with
  | item i place =>
    intro g hg
    have hi : i ≠ stores.size := Nat.ne_of_lt ht
    exact h g (by simpa [guestAt, Array.getElem?_push, hi] using hg)
  | _ => trivial

end Present

namespace Queued

variable {stores : Array StoreCell} {heap : Slab HandleCell} {allocated : Array Nat}
  {reclaimed : List Nat}

/-- A store is changed, but not what waits in it. It may lose its last share only if nothing waits,
since nobody would be left to drain it. -/
theorem modifyStore (h : Queued stores heap allocated reclaimed) {s : Nat}
    {f : StoreCell → StoreCell} (hq : ∀ c, (f c).queue.toList = c.queue.toList)
    (hs : ∀ c, stores[s]? = some c → (f c).shares = 0 → c.queue.toList = [])
    (hg : ∀ c, stores[s]? = some c → ∀ g', (f c).guest = some g' → ∃ g, c.guest = some g ∧ g.Grows g') :
    Queued (stores.modify s f) heap allocated reclaimed where
  once t c hc := by
    obtain ⟨rfl, x, hx, rfl⟩ | ⟨-, hc⟩ := getElem?_modify_cases hc
    · rw [hq]
      exact h.once _ _ hx
    · exact h.once _ _ hc
  waiting t c hc := by
    obtain ⟨rfl, x, hx, rfl⟩ | ⟨-, hc⟩ := getElem?_modify_cases hc
    · rw [hq]
      exact h.waiting _ _ hx
    · exact h.waiting _ _ hc
  placed a cell ha := by simpa using h.placed a cell ha
  paired := h.paired
  present a cell ha := (h.present a cell ha).modify hg
  settled t c hc hzero := by
    obtain ⟨rfl, x, hx, rfl⟩ | ⟨-, hc⟩ := getElem?_modify_cases hc
    · rw [hq]
      exact hs _ hx hzero
    · exact h.settled _ _ hc hzero
  numbered := h.numbered
  allocated := h.allocated

/-- A store is added in which nothing waits. -/
theorem push (h : Queued stores heap allocated reclaimed) {c : StoreCell}
    (hc : c.queue.toList = []) : Queued (stores.push c) heap allocated reclaimed where
  once t d hd := by
    rw [Array.getElem?_push] at hd
    split at hd
    · cases hd
      simp [hc]
    · exact h.once _ _ hd
  waiting t d hd a := by
    rw [Array.getElem?_push] at hd
    split at hd
    · rename_i ht
      cases hd
      rw [hc]
      constructor
      · simp
      · rintro ⟨cell, ha, hs, -⟩
        have := h.placed a cell ha
        omega
    · exact h.waiting _ _ hd a
  placed a cell ha := by
    have := h.placed a cell ha
    simp
    omega
  paired := h.paired
  present a cell ha := (h.present a cell ha).push (h.paired a cell ha ▸ h.placed a cell ha) c
  settled t d hd hzero := by
    rw [Array.getElem?_push] at hd
    split at hd
    · cases hd
      exact hc
    · exact h.settled _ _ hd hzero
  numbered := h.numbered
  allocated := h.allocated

/-- A handle whose shares change is of the same store, stands for the same, and has the same number. -/
theorem exists_unmodified {a : Handle} {c : HandleCell} {f : HandleCell → HandleCell}
    (hc : heap.get? a = some c) (hs : (f c).store = c.store) (ht : (f c).target = c.target)
    (hn : (f c).number = c.number) {b : Handle} {cell : HandleCell}
    (hb : (heap.modify a f).get? b = some cell) :
    ∃ d, heap.get? b = some d ∧ cell.store = d.store ∧ cell.target = d.target ∧
      cell.number = d.number := by
  obtain ⟨rfl, d, hd, rfl⟩ | ⟨-, hb⟩ := Slab.get?_modify_cases hb
  · obtain rfl : c = d := Option.some.inj (hc.symm.trans hd)
    exact ⟨c, hc, hs, ht, hn⟩
  · exact ⟨cell, hb, rfl, rfl, rfl⟩

/-- The shares of a handle change, but not whether there are any. -/
theorem modifyHandle (h : Queued stores heap allocated reclaimed) {a : Handle} {c : HandleCell}
    {f : HandleCell → HandleCell} (hc : heap.get? a = some c) (hpos : 0 < c.shares)
    (hs : (f c).store = c.store) (ht : (f c).target = c.target) (hn : (f c).number = c.number)
    (hf : 0 < (f c).shares) :
    Queued stores (heap.modify a f) allocated reclaimed where
  once := h.once
  waiting s d hd b := by
    rw [h.waiting s d hd b, Slab.get?_modify]
    by_cases hb : b = a
    · subst hb
      simp [hc]
      omega
    · simp [hb]
  placed b cell hb := by
    obtain ⟨d, hd, hstore, -⟩ := exists_unmodified hc hs ht hn hb
    rw [hstore]
    exact h.placed b d hd
  paired b cell hb := by
    obtain ⟨d, hd, hstore, htarget, -⟩ := exists_unmodified hc hs ht hn hb
    rw [hstore, htarget]
    exact h.paired b d hd
  present b cell hb := by
    obtain ⟨d, hd, -, htarget, -⟩ := exists_unmodified hc hs ht hn hb
    rw [htarget]
    exact h.present b d hd
  settled := h.settled
  numbered := by
    have ht := Slab.total_modify hc f fun _ c => ({c.number} : Multiset Nat)
    rw [hn] at ht
    rw [← h.numbered, add_right_cancel ht]
  allocated b cell hb := by
    obtain ⟨d, hd, hstore, -, hnumber⟩ := exists_unmodified hc hs ht hn hb
    rw [hstore, hnumber]
    exact h.allocated b d hd

/-- A handle is allocated, and shared. -/
theorem insert (h : Queued stores heap allocated reclaimed) {c : HandleCell}
    (hs : c.store < stores.size) (ht : c.target.store = c.store) (hp : c.target.Present stores)
    (hn : c.number = allocated.size) (hpos : 0 < c.shares) :
    Queued stores (heap.insert c).2 (allocated.push c.store) reclaimed where
  once := h.once
  waiting s d hd b := by
    rw [h.waiting s d hd b, Slab.get?_insert]
    by_cases hb : b = (heap.insert c).1
    · simp [hb, heap.get?_insert_self]
      omega
    · simp [hb]
  placed b cell hb := by
    rw [Slab.get?_insert] at hb
    split at hb
    · cases hb
      exact hs
    · exact h.placed b cell hb
  paired b cell hb := by
    rw [Slab.get?_insert] at hb
    split at hb
    · cases hb
      exact ht
    · exact h.paired b cell hb
  present b cell hb := by
    rw [Slab.get?_insert] at hb
    split at hb
    · cases hb
      exact hp
    · exact h.present b cell hb
  settled := h.settled
  -- The new number is the first that had not been given.
  numbered := by
    rw [Slab.total_insert, hn, Array.size_push, Multiset.range_succ, ← h.numbered,
      ← Multiset.singleton_add]
    ac_rfl
  allocated b cell hb := by
    rw [Slab.get?_insert] at hb
    split at hb
    · cases hb
      simp [hn]
    · have ha := h.allocated b cell hb
      have := (Array.getElem?_eq_some_iff.mp ha).1
      rw [Array.getElem?_push, if_neg (by omega), ha]

/-- A handle is reclaimed that does not wait. -/
theorem removeSole (h : Queued stores heap allocated reclaimed) {a : Handle} {c : HandleCell}
    (hc : heap.get? a = some c) (hpos : 0 < c.shares) :
    Queued stores (heap.remove a).2 allocated (c.number :: reclaimed) where
  once := h.once
  waiting s d hd b := by
    rw [h.waiting s d hd b, Slab.get?_remove hc]
    by_cases hb : b = a
    · subst hb
      simp [hc]
      omega
    · simp [hb]
  placed b cell hb := h.placed b cell (Slab.get?_of_remove hc hb)
  paired b cell hb := h.paired b cell (Slab.get?_of_remove hc hb)
  present b cell hb := h.present b cell (Slab.get?_of_remove hc hb)
  settled := h.settled
  -- The number of the handle goes from the heap to those that have been reclaimed.
  numbered := by
    have ht := Slab.total_remove hc fun _ c => ({c.number} : Multiset Nat)
    rw [← h.numbered, ← ht, ← Multiset.cons_coe, ← Multiset.singleton_add]
    ac_rfl
  allocated b cell hb := h.allocated b cell (Slab.get?_of_remove hc hb)

/-- The last share of a handle goes, and the handle joins the queue of its store. The store must
have a share left: it is that of the handle itself, which is given up only after this step. -/
theorem retire (h : Queued stores heap allocated reclaimed) {a : Handle} {c : HandleCell}
    {d : StoreCell} {q : ReclaimQueue Handle} (hc : heap.get? a = some c) (hone : c.shares = 1)
    (hd : stores[c.store]? = some d) (hpos : 0 < d.shares)
    (hq : q.toList = d.queue.toList ++ [a]) :
    Queued (stores.modify c.store fun d => { d with queue := q })
      (heap.modify a fun c => { c with shares := c.shares - 1 }) allocated reclaimed := by
  -- It does not wait yet, for it is shared.
  have hnew : a ∉ d.queue.toList := by
    rw [h.waiting _ _ hd]
    rintro ⟨cell, hcell, -, hzero⟩
    obtain rfl : c = cell := by simpa [hc] using hcell
    omega
  have hcells {b : Handle} {cell : HandleCell}
      (hb : (heap.modify a fun c => { c with shares := c.shares - 1 }).get? b = some cell) :=
    exists_unmodified hc rfl rfl rfl hb
  refine ⟨fun t e he => ?_, fun t e he b => ?_, fun b cell hb => ?_, fun b cell hb => ?_,
    fun b cell hb => .modify ?_ fun c _ g hg => ⟨g, hg, .refl g⟩, fun t e he hzero => ?_, ?_,
    fun b cell hb => ?_⟩
  · -- Nothing waits twice: the handle comes behind those that were there.
    obtain ⟨rfl, x, hx, rfl⟩ | ⟨-, he⟩ := getElem?_modify_cases he
    · obtain rfl : d = x := by simpa [hd] using hx
      rw [hq]
      exact List.nodup_append.mpr ⟨h.once _ _ hd, by simp, by
        intro b hb b' hb'
        rw [List.mem_singleton.mp hb']
        exact fun hab => hnew (hab ▸ hb)⟩
    · exact h.once _ _ he
  · -- What waits is what nothing shares: this one has joined both, in its own store.
    rw [Slab.get?_modify]
    obtain ⟨rfl, x, hx, rfl⟩ | ⟨ht, he⟩ := getElem?_modify_cases he
    · obtain rfl : d = x := by simpa [hd] using hx
      rw [hq, List.mem_append, h.waiting _ _ hd b, List.mem_singleton]
      by_cases hb : b = a
      · simp [hb, hc, hone]
      · simp [hb]
    · rw [h.waiting _ _ he b]
      by_cases hb : b = a
      · simp [hb, hc, Ne.symm ht]
      · simp [hb]
  · obtain ⟨x, hx, hstore, -⟩ := hcells hb
    rw [Array.size_modify, hstore]
    exact h.placed b x hx
  · obtain ⟨x, hx, hstore, htarget, -⟩ := hcells hb
    rw [hstore, htarget]
    exact h.paired b x hx
  · obtain ⟨x, hx, -, htarget, -⟩ := hcells hb
    rw [htarget]
    exact h.present b x hx
  · obtain ⟨rfl, x, hx, rfl⟩ | ⟨-, he⟩ := getElem?_modify_cases he
    · obtain rfl : d = x := by simpa [hd] using hx
      exact absurd hzero (by simpa using hpos.ne')
    · exact h.settled _ _ he hzero
  · -- The handle keeps its number, so all numbers are where they were.
    have ht := Slab.total_modify hc (fun c => { c with shares := c.shares - 1 })
      fun _ c => ({c.number} : Multiset Nat)
    rw [← h.numbered, add_right_cancel ht]
  · obtain ⟨x, hx, hstore, -, hnumber⟩ := hcells hb
    rw [hstore, hnumber]
    exact h.allocated b x hx

/-- The handle at the head of a queue is reclaimed. -/
theorem reclaimNext (h : Queued stores heap allocated reclaimed) {s : Nat} {d : StoreCell}
    {a : Handle} {q : ReclaimQueue Handle} {c : HandleCell} (hd : stores[s]? = some d)
    (hq : d.queue.toList = a :: q.toList) (hc : heap.get? a = some c) :
    Queued (stores.modify s fun d => { d with queue := q }) (heap.remove a).2 allocated
      (c.number :: reclaimed) := by
  have hnodup := h.once _ _ hd
  rw [hq, List.nodup_cons] at hnodup
  obtain ⟨c', hc', hs, -⟩ := (h.waiting _ _ hd a).mp (by simp [hq])
  obtain rfl : c = c' := by simpa [hc] using hc'
  -- What is in the heap afterwards was there before.
  have hcells : ∀ b cell, (heap.remove a).2.get? b = some cell → heap.get? b = some cell :=
    fun b cell hb => Slab.get?_of_remove hc hb
  refine ⟨fun t e he => ?_, fun t e he b => ?_,
    fun b cell hb => by rw [Array.size_modify]; exact h.placed b cell (hcells b cell hb),
    fun b cell hb => h.paired b cell (hcells b cell hb),
    fun b cell hb => (h.present b cell (hcells b cell hb)).modify fun c _ g hg => ⟨g, hg, .refl g⟩,
    fun t e he hzero => ?_, ?_, fun b cell hb => h.allocated b cell (hcells b cell hb)⟩
  · obtain ⟨rfl, x, hx, rfl⟩ | ⟨-, he⟩ := getElem?_modify_cases he
    · exact hnodup.2
    · exact h.once _ _ he
  · -- What waits is what nothing shares: this one has left both.
    rw [Slab.get?_remove hc]
    obtain ⟨rfl, x, hx, rfl⟩ | ⟨ht, he⟩ := getElem?_modify_cases he
    · have hw := h.waiting _ _ hd b
      rw [hq, List.mem_cons] at hw
      by_cases hb : b = a
      · subst hb
        simpa using hnodup.1
      · simpa [hb] using hw
    · rw [h.waiting _ _ he b]
      by_cases hb : b = a
      · subst hb
        simp only [hc, if_true]
        constructor
        · rintro ⟨cell, hcell, hst, -⟩
          cases hcell
          exact absurd (hst.symm.trans hs) ht
        · rintro ⟨cell, hcell, -⟩
          cases hcell
      · simp [hb]
  · obtain ⟨rfl, x, hx, rfl⟩ | ⟨-, he⟩ := getElem?_modify_cases he
    · obtain rfl : d = x := by simpa [hd] using hx
      have := h.settled _ _ hd hzero
      simp [hq] at this
    · exact h.settled _ _ he hzero
  · -- The number of the handle goes from the heap to those that have been reclaimed.
    have ht := Slab.total_remove hc fun _ c => ({c.number} : Multiset Nat)
    rw [← h.numbered, ← ht, ← Multiset.cons_coe, ← Multiset.singleton_add]
    ac_rfl

end Queued

end WasmHost.Host
