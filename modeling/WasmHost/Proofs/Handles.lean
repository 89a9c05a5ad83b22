import WasmHost.Proofs.Interleavings

/-!
# Handles are owned, wait, or have been reclaimed

Handles are shared by things of every sort, on every thread, and their addresses are used again. So a
handle is told apart by its number, which says how many handles had been allocated before it. In every
world that an embedder reaches, in the middle of any requests of any threads, each number is in one of
three states: its handle is shared, at one address; or nothing shares it, and its address waits once in
the queue of its own store; or it has been reclaimed, once. Nothing else refers to handles: what the
world and the pool refer to is there, and as often as they refer to it, it is shared.

A wrapper that is closed gives up its share. If it was the only one, the handle is reclaimed then and
there.

A count is not enough to say that a handle is reclaimed *once*. The address that becomes free is
used for the next handle, and then the count at this address is about another handle. So the world
keeps a chronicle, in which handles have numbers: how many were allocated, and which have been
reclaimed, as often as it happened. Nothing the program does depends on the chronicle. The three
states partition the numbers: `numbered`, a field of the invariant, says that the numbers in the
heap and those that have been reclaimed are together those that were given, each of them once, and
`waiting` divides the former into two.

The second part is about the equation between references and counts. In the middle of a request it
is an inequality, because threads hold shares as well; when all threads are over it is an equation.

The third part, about closing, cannot follow from the invariant, which does not know when something
has to happen. So the run of this one request is followed step by step, and what other handles do
meanwhile, in the drain with which every operation begins, is covered by `Spares`: it takes nothing
that is shared.
-/

namespace WasmHost.Host

open Act

variable {κ σ : Type} {L : Ledger (Code κ)}

/-! ## The states of a handle

Each state says where the handle is and where it is *not*, so that the three exclude each other by
what they say, without any reference to how a world has come about. -/

namespace World

/-- The handle of a number is at an address, and at no other. -/
structure Located (w : World κ σ) (n : Nat) (a : Handle) (c : HandleCell) : Prop where
  found : w.heap.get? a = some c
  number : c.number = n
  store : w.chronicle.allocated[n]? = some c.store
  only : ∀ a' c', w.heap.get? a' = some c' → c'.number = n → a' = a

/-- A handle is shared and waits nowhere. -/
def Owned (w : World κ σ) (n : Nat) : Prop :=
  ∃ a c, w.Located n a c ∧ 0 < c.shares ∧
    (∀ (s : Nat) (d : StoreCell), w.stores[s]? = some d → a ∉ d.queue.toList) ∧
    w.chronicle.reclaimed.count n = 0

/-- Nothing shares a handle, and it waits once in the queue of its own store and in no other. -/
def Waits (w : World κ σ) (n : Nat) : Prop :=
  ∃ a c, w.Located n a c ∧ c.shares = 0 ∧
    (∃ d : StoreCell, w.stores[c.store]? = some d ∧ d.queue.toList.count a = 1) ∧
    (∀ (s : Nat) (d : StoreCell), w.stores[s]? = some d → s ≠ c.store → a ∉ d.queue.toList) ∧
    w.chronicle.reclaimed.count n = 0

/-- A handle is at no address, and has been reclaimed once. -/
def Reclaimed (w : World κ σ) (n : Nat) : Prop :=
  (∀ a c, w.heap.get? a = some c → c.number ≠ n) ∧ w.chronicle.reclaimed.count n = 1

/-- How often the world and the pool refer to something. -/
def references (w : World (Code κ) Pool) (x : Share) : Nat :=
  w.refs.count x + (Pool.kept w.user : Ledger (Code κ)).shares.count x

theorem Owned.not_waits {w : World κ σ} {n : Nat} (h : w.Owned n) : ¬ w.Waits n := by
  obtain ⟨a, c, ha, hpos, -⟩ := h
  rintro ⟨a', c', ha', hzero, -⟩
  obtain rfl := ha.only a' c' ha'.found ha'.number
  obtain rfl : c = c' := Option.some.inj (ha.found.symm.trans ha'.found)
  omega

theorem Located.not_reclaimed {w : World κ σ} {n : Nat} {a : Handle} {c : HandleCell}
    (h : w.Located n a c) : ¬ w.Reclaimed n := fun h' => h'.1 a c h.found h.number

end World

section States

variable {T : Ledger κ} {w : World κ σ}

namespace Sound

/-- What is at an address is the handle of its number. -/
theorem located (h : Sound T w) {a : Handle} {c : HandleCell} (hc : w.heap.get? a = some c) :
    w.Located c.number a c :=
  ⟨hc, rfl, h.queued.allocated a c hc,
    fun _ _ hc' hn => Slab.eq_of_numbered h.queued.numbered hc hc' hn⟩

/-- What is at an address has a number of its own, and has not been reclaimed. -/
theorem number_lt (h : Sound T w) {a : Handle} {c : HandleCell} (hc : w.heap.get? a = some c) :
    c.number < w.chronicle.allocated.size :=
  (Array.getElem?_eq_some_iff.mp (h.queued.allocated a c hc)).1

theorem count_reclaimed (h : Sound T w) {a : Handle} {c : HandleCell}
    (hc : w.heap.get? a = some c) : w.chronicle.reclaimed.count c.number = 0 := by
  obtain ⟨-, hcount⟩ | ⟨hgone, -⟩ := Slab.numbered_cases h.queued.numbered (h.number_lt hc)
  · exact hcount
  · exact absurd rfl (hgone a c hc)

theorem owned (h : Sound T w) {a : Handle} {c : HandleCell} (hc : w.heap.get? a = some c)
    (hpos : 0 < c.shares) : w.Owned c.number := by
  refine ⟨a, c, h.located hc, hpos, fun s d hd hmem => ?_, h.count_reclaimed hc⟩
  obtain ⟨c', hc', -, hzero⟩ := (h.queued.waiting s d hd a).mp hmem
  obtain rfl : c = c' := Option.some.inj (hc.symm.trans hc')
  omega

theorem waits (h : Sound T w) {a : Handle} {c : HandleCell} (hc : w.heap.get? a = some c)
    (hzero : c.shares = 0) : w.Waits c.number := by
  have hlt := h.queued.placed a c hc
  have hd : w.stores[c.store]? = some w.stores[c.store] := Array.getElem?_eq_getElem hlt
  have hmem := (h.queued.waiting _ _ hd a).mpr ⟨c, hc, rfl, hzero⟩
  refine ⟨a, c, h.located hc, hzero, ⟨_, hd, ?_⟩, fun s d hd hs hmem => ?_, h.count_reclaimed hc⟩
  · exact List.count_eq_one_of_mem (h.queued.once _ _ hd) hmem
  · obtain ⟨c', hc', hs', -⟩ := (h.queued.waiting s d hd a).mp hmem
    obtain rfl : c = c' := Option.some.inj (hc.symm.trans hc')
    exact hs hs'.symm

/-- Every handle that was allocated is in one of the three states. -/
theorem handle_cases (h : Sound T w) {n : Nat} (hn : n < w.chronicle.allocated.size) :
    w.Owned n ∨ w.Waits n ∨ w.Reclaimed n := by
  obtain ⟨⟨a, c, hc, rfl⟩, -⟩ | hgone := Slab.numbered_cases h.queued.numbered hn
  · rcases Nat.eq_zero_or_pos c.shares with hzero | hpos
    · exact .inr (.inl (h.waits hc hzero))
    · exact .inl (h.owned hc hpos)
  · exact .inr (.inr hgone)

end Sound

end States

namespace Invariant

variable {w : World (Code κ) Pool}

/-- What the world and the pool refer to is shared as often as that. -/
theorem references_le (hw : Invariant L w) (x : Share) : w.references x ≤ w.recorded x := by
  have h := hw.sound.balanced x
  rw [Ledger.shares_add, Multiset.count_add] at h
  exact (Nat.add_le_add_left (Nat.le_add_left _ _) _).trans h.ge

/-- When nothing is held anywhere else, it is shared no more often. -/
theorem references_eq (hw : Invariant (0 : Ledger (Code κ)) w) (x : Share) :
    w.references x = w.recorded x := by
  have h := hw.sound.balanced x
  rw [zero_add] at h
  exact h.symm

end Invariant

/-! ## Closing

Closing drains the store first, like any operation. The handle to be closed is shared, so it is not
drained. -/

namespace World

variable {w w' w'' : World κ σ}

/-- Handles that are shared stay as they are, and what has been reclaimed stays so. -/
structure Spares (w w' : World κ σ) : Prop where
  shared : ∀ a c, w.heap.get? a = some c → 0 < c.shares → w'.heap.get? a = some c
  reclaimed : ∀ n ∈ w.chronicle.reclaimed, n ∈ w'.chronicle.reclaimed

namespace Spares

theorem refl (w : World κ σ) : w.Spares w := ⟨fun _ _ h _ => h, fun _ h => h⟩

theorem trans (h : w.Spares w') (h' : w'.Spares w'') : w.Spares w'' where
  shared a c hc hpos := h'.shared a c (h.shared a c hc hpos) hpos
  reclaimed n hn := h'.reclaimed n (h.reclaimed n hn)

/-- Changes of stores are no matter. -/
theorem modifyStore (h : w.Spares w') (s : Nat) (f : StoreCell → StoreCell) :
    w.Spares (w'.modifyStore s f) := ⟨h.shared, h.reclaimed⟩

end Spares

theorem releaseEngine_spares (w : World κ σ) (e : Nat) : w.Spares (w.releaseEngine e) := by
  unfold releaseEngine
  split
  · exact .refl w
  · dsimp only
    split <;> exact ⟨fun _ _ h _ => h, fun _ h => h⟩

theorem mem_reclaimed_reclaim {a : Handle} {c : HandleCell} (h : w.heap.get? a = some c) :
    c.number ∈ (w.reclaim a).chronicle.reclaimed := by
  rw [reclaim_eq h]
  exact List.mem_cons_self ..

end World

namespace Sound

variable {T : Ledger κ} {w : World κ σ}

/-- What waits is not shared. -/
theorem reclaimNext_spares (h : Sound T w) (s : Nat) : w.Spares (w.reclaimNext s) := by
  cases hn : (w.stores[s]?).bind (·.queue.next?) with
  | none =>
    rw [World.reclaimNext, hn]
    exact .refl w
  | some next =>
    obtain ⟨b, q⟩ := next
    obtain ⟨d, hd, hnext⟩ := Option.bind_eq_some_iff.mp hn
    have hq := ReclaimQueue.toList_of_next? hnext
    obtain ⟨c, hc, -, hzero⟩ := (h.queued.waiting _ _ hd b).mp (by simp [hq])
    have hw : w.reclaimNext s = (w.modifyStore s fun d => { d with queue := q }).reclaim b := by
      simp [World.reclaimNext, hn]
    rw [hw, World.reclaim_eq (w := w.modifyStore s fun d => { d with queue := q }) hc]
    refine ⟨fun a c' hc' hpos => ?_, fun n hn => List.mem_cons_of_mem _ hn⟩
    have hne : a ≠ b := by
      rintro rfl
      obtain rfl : c = c' := Option.some.inj (hc.symm.trans hc')
      omega
    exact (Slab.get?_remove hc a).trans (by rw [if_neg hne, hc'])

theorem drain_spares (h : Sound T w) (s : Nat) : w.Spares (w.drain s) := by
  have hbegin : w.Spares (w.beginDrain s).2 := by
    rw [World.beginDrain_eq]
    exact (World.Spares.refl w).modifyStore s _
  have hdrain : Sound T (w.drain s) ∧ w.Spares (w.drain s) :=
    World.drain_induction (P := fun w' => Sound T w' ∧ w.Spares w') s ⟨h.beginDrain s, hbegin⟩
      fun _ h => ⟨h.1.reclaimNext s, h.2.trans (h.1.reclaimNext_spares s)⟩
  exact hdrain.2

theorem dismissStore_spares (h : Sound T w) (s : Nat) : w.Spares (w.dismissStore s).2 := by
  unfold World.dismissStore
  split
  · exact .refl w
  · refine World.Spares.modifyStore ?_ s _
    split
    · exact h.drain_spares s
    · exact .refl w

end Sound

namespace Act

theorem run_context (s : Nat) (w : World κ σ) :
    (context s : Act κ σ Unit).run w = (.value (), w.drain s) := by
  have hbatch : ∀ (n : Nat) (w : World κ σ),
      (reclaimBatch s n : Act κ σ Unit).run w = (.value (), w.reclaimBatch s n) := by
    intro n
    induction n with
    | zero => exact fun _ => rfl
    | succ n ih => exact fun w => ih (w.reclaimNext s)
  exact hbatch _ _

/-- Releasing a store spares what is shared. -/
theorem run_releaseStore {T : Ledger κ} {w : World κ σ} (h : Sound T w) (s : Nat) :
    ∃ w', (releaseStore s : Act κ σ Unit).run w = (.value (), w') ∧ w'.user = w.user ∧
      w.Spares w' := by
  have hspares := h.dismissStore_spares s
  have hrun : (releaseStore s : Act κ σ Unit).run w =
      (releaseEngine? (w.dismissStore s).1).run (w.dismissStore s).2 := rfl
  rw [hrun]
  cases (w.dismissStore s).1 with
  | none => exact ⟨_, rfl, by simp, hspares⟩
  | some e => exact ⟨_, rfl, by simp, hspares.trans (World.releaseEngine_spares _ e)⟩

end Act

/-- A handle that something shares is found. -/
theorem Act.run_cell {w : World κ σ} {a : Handle} {c : HandleCell} (hc : w.heap.get? a = some c)
    (hpos : 0 < c.shares) : (cell a : Act κ σ HandleCell).run w = (.value c, w) := by
  have hworld : (world : Act κ σ (World κ σ)).run w = (.value w, w) := rfl
  refine (run_bind_value hworld).trans ?_
  simp only [hc, Nat.pos_iff_ne_zero.mp hpos, if_false]
  rfl

/-- A handle of a store is found to be one. -/
theorem Act.run_check {w : World κ σ} {a : Handle} {c : HandleCell} (hc : w.heap.get? a = some c)
    (hpos : 0 < c.shares) : (check c.store a : Act κ σ HandleCell).run w = (.value c, w) := by
  refine (run_bind_value (run_cell hc hpos)).trans ?_
  simp only [if_true]
  rfl

/-- A handle that is closed is reclaimed at once if nothing else shares it, and loses a share if
something does. -/
theorem run_close {T : Ledger κ} {w : World κ σ} {a : Handle} {sort : HandleSort} {c : HandleCell}
    (h : Sound (.own (.handle a sort) ::ₘ T) w) (hc : w.heap.get? a = some c) :
    ∃ w', (close c.store a : Act κ σ Unit).run w = (.value (), w') ∧ w'.user = w.user ∧
      if c.shares = 1 then c.number ∈ w'.chronicle.reclaimed
      else w'.heap.get? a = some { c with shares := c.shares - 1 } := by
  obtain ⟨c', hc', -, hpos⟩ := World.exists_handle h.pos
  obtain rfl : c = c' := Option.some.inj (hc.symm.trans hc')
  have hdrained := h.drain c.store
  have hcell := (h.drain_spares c.store).shared a c hc hpos
  have hcheck : (onUnwind (releaseHandle a) (check c.store a)).run (w.drain c.store) =
      (.value c, w.drain c.store) := by
    rw [onUnwind, run_after, run_check hcell hpos]
    rfl
  have hclose : ∀ {r : Option Nat} {w₁ : World κ σ},
      (w.drain c.store).reclaimSole a = (r, w₁) →
      (close c.store a : Act κ σ Unit).run w =
        (r.elim (releaseHandle a) releaseStore : Act κ σ Unit).run w₁ := by
    intro r w₁ hsole
    refine (run_bind_value (run_context c.store w)).trans ((run_bind_value hcheck).trans ?_)
    refine (run_bind_value (run_make hsole)).trans ?_
    cases r <;> rfl
  by_cases hs : c.shares = 1
  · have hsole : (w.drain c.store).reclaimSole a = (some c.store, (w.drain c.store).reclaim a) := by
      simp only [World.reclaimSole, hcell, hs, if_true]
    have hsound := hdrained.reclaimSole
    rw [hsole] at hsound
    obtain ⟨w', hrun, huser, hspares⟩ := run_releaseStore hsound c.store
    refine ⟨w', (hclose hsole).trans hrun, ?_, ?_⟩
    · simp [huser]
    · rw [if_pos hs]
      exact hspares.reclaimed _ (World.mem_reclaimed_reclaim hcell)
  · have hsole : (w.drain c.store).reclaimSole a = (none, w.drain c.store) := by
      simp only [World.reclaimSole, hcell, hs, if_false]
    have hretire : (w.drain c.store).retire a = (none, { w.drain c.store with
        heap := (w.drain c.store).heap.modify a fun c => { c with shares := c.shares - 1 } }) := by
      simp only [World.retire, hcell, hs, Nat.pos_iff_ne_zero.mp hpos, if_false]
    have hrun : (releaseHandle a : Act κ σ Unit).run (w.drain c.store) = (.value (),
        { w.drain c.store with
          heap := (w.drain c.store).heap.modify a fun c => { c with shares := c.shares - 1 } }) := by
      rw [releaseHandle, run_bind_value (run_make hretire)]
      rfl
    refine ⟨_, (hclose hsole).trans hrun, ?_, ?_⟩
    · simp
    · rw [if_neg hs]
      simp [Slab.get?_modify, hcell]

/-! ## Requests to close -/

/-- A place of a pool is emptied. -/
def Pool.clear (p : Pool) (i : Nat) : Pool := ⟨p.places.setIfInBounds i none, p.making⟩

theorem Pool.kept_clear {p : Pool} {i n : Nat} {t : Thing} (h : p.at? i = some ⟨t, n⟩) :
    (p.clear i).kept + {t.token} = (p.kept : Ledger (Code κ)) := by
  simpa [placeTokens, clear] using kept_set (places_of_at? h) none p.making

namespace Job

variable {w w' : World (Code κ) Pool} {i j : Nat}

/-- An operation that succeeds is a request that is answered. -/
theorem run_reply_value {at_ : Setting κ} {r : Request κ} {reply : Reply}
    (h : (carryOut at_ r).run w = (.value reply, w')) :
    (Job.reply at_ r).run w = (.value reply, w') := by
  have hattempt := run_attempt_value h
  have hcatch : (catchPanic (attempt (carryOut at_ r))).run w = (.value (.ok (.ok reply)), w') := by
    rw [catchPanic, run_after, hattempt]
    rfl
  exact run_bind_value hcatch

/-- A thing that is not lent is taken out of the pool. -/
theorem run_take {t : Thing} {β : Type} (sort : Thing → Option β) {b : β}
    (hat : w.user.at? i = some ⟨t, 0⟩) (hb : sort t = some b) :
    (onPool (·.take i sort) : Job κ (Option β)).run w =
      (.value (some b), { w with user := w.user.clear i }) := by
  have htake : w.user.take i sort = (some b, w.user.clear i) := by
    simp only [Pool.take, hat, hb, Pool.clear]
  refine run_make ?_
  show ((w.user.take i sort).1, { w with user := (w.user.take i sort).2 }) = _
  rw [htake]

/-- A wrapper of the pool is closed, in a store of the pool. -/
theorem run_close {L : Ledger (Code κ)} (hw : Invariant L w) {x : Wrapper} {c : HandleCell}
    (hstore : w.user.at? j = some ⟨.store c.store, 0⟩)
    (hwrapper : w.user.at? i = some ⟨.capture (.wrapper x), 0⟩)
    (hc : w.heap.get? x.handle = some c) (at_ : Setting κ) :
    ∃ w', (Job.reply at_ (.query (.own j) (.close i))).run w = (.value (.answer .nothing), w') ∧
      if c.shares = 1 then c.number ∈ w'.chronicle.reclaimed
      else w'.heap.get? x.handle = some { c with shares := c.shares - 1 } := by
  -- The store and the wrapper are taken out of the pool, one after the other.
  have hat : (w.user.clear j).at? i = some ⟨.capture (.wrapper x), 0⟩ := by
    have hne : i ≠ j := by
      rintro rfl
      rw [hstore] at hwrapper
      cases hwrapper
    rw [Pool.clear, Pool.at?_set (Pool.lt_of_at? hstore), if_neg hne, hwrapper]
  have hkept := Pool.kept_clear (κ := κ) hstore
  rw [← Pool.kept_clear hat] at hkept
  have hsound : Sound (.own (.handle x.handle x.sort) ::ₘ
      (L + ((w.user.clear j).clear i).kept + {.tenure c.store [] none})) w := by
    refine hw.sound.cast ?_
    show L + w.user.kept = _
    rw [← hkept, ← Multiset.singleton_add]
    show L + (_ + {.own (.handle x.handle x.sort)} + {.tenure c.store [] none}) = _
    ac_rfl
  obtain ⟨w', hclose, -, hw'⟩ := Host.run_close (hsound.setUser ((w.user.clear j).clear i)) hc
  -- The operation itself has been dealt with above.
  have hquery : (query at_.calls c.store (.close i)).run { w with user := w.user.clear j } =
      (.value (.answer .nothing), w') := by
    refine (run_bind_value (run_take (w := { w with user := w.user.clear j })
      (fun t => t.capture?.bind Capture.wrapper?) hat rfl)).trans ?_
    exact run_bind_value hclose
  have hcarry : (carryOut at_ (.query (.own j) (.close i))).run w = (.value (.answer .nothing),
      { w' with user := w'.user.put j (.store c.store) }) := by
    refine (run_bind_value (run_take Thing.store? hstore rfl)).trans ?_
    exact run_ensuring_value hquery rfl
  exact ⟨_, run_reply_value hcarry, hw'⟩

end Job

/-! ## Every world that an embedder reaches -/

/-- Every handle is owned, waits, or has been reclaimed. -/
structure World.HandlesInPlace (w : World (Code κ) Pool) : Prop where
  /-- Every handle that was ever allocated is in one of the three states, and in one only. -/
  states : ∀ n < w.chronicle.allocated.size,
    w.Owned n ∧ ¬ w.Waits n ∧ ¬ w.Reclaimed n ∨
    ¬ w.Owned n ∧ w.Waits n ∧ ¬ w.Reclaimed n ∨
    ¬ w.Owned n ∧ ¬ w.Waits n ∧ w.Reclaimed n
  /-- Handles are nowhere but where they were allocated, and only those wait that are there. -/
  allocated : ∀ a c, w.heap.get? a = some c → w.Located c.number a c
  waiting : ∀ s d a, w.stores[s]? = some d → a ∈ d.queue.toList →
    ∃ c, w.heap.get? a = some c ∧ c.store = s ∧ w.Waits c.number
  /-- What the world and the pool refer to is shared, at least as often as they do. -/
  referred : ∀ x, w.references x ≤ w.recorded x
  /-- A wrapper in the pool is that of a handle that is owned. -/
  wrapped : ∀ i x n, w.user.at? i = some ⟨.capture (.wrapper x), n⟩ →
    ∃ c, w.heap.get? x.handle = some c ∧ w.Owned c.number
  /-- No handle was ever used that had been reclaimed or waited, and none was enqueued twice. -/
  present : ∀ a, .dangling a ∉ w.faults ∧ .enqueuedTwice a ∉ w.faults

namespace Invariant

variable {w : World (Code κ) Pool}

theorem handlesInPlace (hw : Invariant L w) : w.HandlesInPlace where
  states n hn := by
    rcases hw.sound.handle_cases hn with h | h | h
    · obtain ⟨a, c, ha, -⟩ := id h
      exact .inl ⟨h, h.not_waits, ha.not_reclaimed⟩
    · obtain ⟨a, c, ha, -⟩ := id h
      exact .inr (.inl ⟨fun h' => h'.not_waits h, h, ha.not_reclaimed⟩)
    · exact .inr (.inr ⟨fun ⟨a, c, ha, _⟩ => ha.not_reclaimed h,
        fun ⟨a, c, ha, _⟩ => ha.not_reclaimed h, h⟩)
  allocated a c hc := hw.sound.located hc
  waiting s d a hd ha := by
    obtain ⟨c, hc, rfl, hzero⟩ := (hw.sound.queued.waiting s d hd a).mp ha
    exact ⟨c, hc, rfl, hw.sound.waits hc hzero⟩
  referred := hw.references_le
  wrapped i x n h := by
    have hmem : .own x.share ∈ (w.user.kept : Ledger (Code κ)) :=
      mem_total.mpr ⟨i, _, Pool.places_of_at? h, by simp [Pool.placeTokens, Thing.token, Capture.share]⟩
    have hpos := hw.sound.balanced.pos
      (Ledger.mem_shares.mpr (Multiset.mem_add.mpr (.inr hmem)))
    obtain ⟨c, hc, -, hshares⟩ := World.exists_handle hpos
    exact ⟨c, hc, hw.sound.owned hc hshares⟩
  present a := by
    constructor <;> intro hf <;> cases hw.sound.blameless.faultless _ hf

end Invariant

/-- In every world that an embedder reaches, in the middle of any requests of any threads, handles are
owned, wait, or have been reclaimed. Once the threads are over, a handle is shared as often as the
world and the pool refer to it. A wrapper that is closed is reclaimed at once if nothing else shares
its handle, and else gives up its share. -/
theorem Embedder.handles_in_place (embedder : Embedder κ) (depth : Nat)
    (programs : List (Program κ Unit)) (order : List Nat) :
    ((embedder.start depth programs).run order).world.HandlesInPlace ∧
    (((embedder.start depth programs).run order).Over →
      ∀ x, ((embedder.start depth programs).run order).world.references x =
        ((embedder.start depth programs).run order).world.recorded x) ∧
    ∀ (at_ : Setting κ) (i j : Nat) (x : Wrapper) (c : HandleCell),
      ((embedder.start depth programs).run order).world.user.at? j = some ⟨.store c.store, 0⟩ →
      ((embedder.start depth programs).run order).world.user.at? i =
        some ⟨.capture (.wrapper x), 0⟩ →
      ((embedder.start depth programs).run order).world.heap.get? x.handle = some c →
      ∃ w', (Job.reply at_ (.query (.own j) (.close i))).run
            ((embedder.start depth programs).run order).world = (.value (.answer .nothing), w') ∧
        if c.shares = 1 then c.number ∈ w'.chronicle.reclaimed
        else w'.heap.get? x.handle = some { c with shares := c.shares - 1 } := by
  have hsafe := (embedder.safe_start depth programs).run order
  obtain ⟨Ls, -, hw⟩ := id hsafe
  refine ⟨hw.handlesInPlace, fun hover x => ?_, fun at_ i j x c hstore hwrapper hc => ?_⟩
  · exact (hsafe.over hover).references_eq x
  · exact Job.run_close hw hstore hwrapper hc at_

end WasmHost.Host
