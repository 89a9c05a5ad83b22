import WasmHost.Proofs.Ledger
import WasmHost.Host.Linker

/-!
# Counts and references

How the accounts of a world change with each step. A step that retains something puts one share more
into a ledger; a step that releases the last share of something leaves what that referred to. All
statements have the same form: if the accounts agree with the shares that are held before a step,
they agree with those that are held after it.

The accounts have two sides. On the one there is what the cells *record*, one number for each share
that there could be; on the other what the cells *refer to*, together with what is held outside of
the world. A step touches one or two cells, and each side changes by what these cells come to. So no
step is looked at as a whole: for each of the arrays there is a lemma that says which numbers a
change of it can alter (`recorded_engines` and its like), and `total_modify` says what becomes of
the references. `transfer` puts the two sides together.

The only delicate moment is when a count comes down to zero. As long as something is shared it
refers to what it is made of; once it is not, it refers to nothing, although its cell is still
there, with the same contents. So the last share that goes *leaves* what the thing referred to, as
shares that somebody has to release in turn. That the step leaves exactly these is what the lemmas
on releasing say, and it is why none of them has to say anything about the steps that follow.

Both sides count with natural numbers. Where a step takes one from a count, it must be known that
the count is not zero, or the two sides would drift apart unnoticed; that is what the share in the
ledger is for which the step gives up (`Balanced.pos`).
-/

namespace WasmHost.Host

variable {κ σ : Type}

/-! ## Reading counts off a world

A number is recorded in one cell, so a change of the cells at one index can alter no other number.
Each of these lemmas says so of one array, in the form in which a new array takes the place of an
old one that agrees with it everywhere else. -/

theorem elim_pos {α : Type} {o : Option α} {f : α → Nat} :
    0 < o.elim 0 f ↔ ∃ c, o = some c ∧ 0 < f c := by
  cases o <;> simp

theorem World.exists_handle {w : World κ σ} {a : Handle} {sort : HandleSort}
    (h : 0 < w.recorded (.handle a sort)) :
    ∃ c, w.heap.get? a = some c ∧ c.target.sort = sort ∧ 0 < c.shares := by
  obtain ⟨c, hc, hpos⟩ := elim_pos.mp h
  split at hpos
  · rename_i hsort
    exact ⟨c, hc, hsort, hpos⟩
  · cases hpos

theorem Balanced.pos {S : Multiset Share} {w : World κ σ} (h : Balanced S w) {x : Share}
    (hx : x ∈ S) : 0 < w.recorded x := by
  have := h x
  have := Multiset.count_pos.mpr hx
  omega

theorem Balanced.pos_of_mem_refs {S : Multiset Share} {w : World κ σ} (h : Balanced S w)
    {x : Share} (hx : x ∈ w.refs) : 0 < w.recorded x := by
  have := h x
  have := Multiset.count_pos.mpr hx
  omega

/-- Counts and references change by what a step does to them, and the shares make up for it: `A` and
`D` are the references and the counts that go, `B` and `U` those that come. -/
theorem Balanced.transfer {S S' A B D U : Multiset Share} {w w' : World κ σ} (h : Balanced S w)
    (hr : w'.refs + A = w.refs + B) (hc : ∀ x, w'.recorded x + D.count x = w.recorded x + U.count x)
    (hS : S' + B + D = S + A + U) : Balanced S' w' := by
  intro x
  have hx := h x
  have hcx := hc x
  have hrx := congrArg (Multiset.count x) hr
  have hSx := congrArg (Multiset.count x) hS
  simp only [Multiset.count_add] at hrx hSx
  omega

namespace World

variable (w : World κ σ)

theorem recorded_engines (a : Array EngineCell) (e : Nat)
    (ha : ∀ j, j ≠ e → a[j]? = w.engines[j]?) (x : Share) :
    ({ w with engines := a } : World κ σ).recorded x =
      if x = .engine e then (a[e]?).elim 0 (·.shares) else w.recorded x := by
  by_cases hx : x = .engine e
  · simp [hx, recorded]
  · cases x with
    | engine j => simp [recorded, hx, ha j (by simpa using hx)]
    | _ => simp [recorded]

theorem recorded_modules (a : Array ModuleCell) (m : Nat)
    (ha : ∀ j, j ≠ m → a[j]? = w.modules[j]?) (x : Share) :
    ({ w with modules := a } : World κ σ).recorded x =
      if x = .module m then (a[m]?).elim 0 (·.shares) else w.recorded x := by
  by_cases hx : x = .module m
  · simp [hx, recorded]
  · cases x with
    | module j => simp [recorded, hx, ha j (by simpa using hx)]
    | _ => simp [recorded]

theorem recorded_linkers (a : Array LinkerCell) (l : Nat)
    (ha : ∀ j, j ≠ l → a[j]? = w.linkers[j]?) (x : Share) :
    ({ w with linkers := a } : World κ σ).recorded x =
      if x = .linker l then (a[l]?).elim 0 (·.shares) else w.recorded x := by
  by_cases hx : x = .linker l
  · simp [hx, recorded]
  · cases x with
    | linker j => simp [recorded, hx, ha j (by simpa using hx)]
    | _ => simp [recorded]

theorem recorded_stores (a : Array StoreCell) (s : Nat)
    (ha : ∀ j, j ≠ s → a[j]? = w.stores[j]?) (x : Share) :
    ({ w with stores := a } : World κ σ).recorded x =
      if x = .store s then (a[s]?).elim 0 (·.shares) else w.recorded x := by
  by_cases hx : x = .store s
  · simp [hx, recorded]
  · cases x with
    | store j => simp [recorded, hx, ha j (by simpa using hx)]
    | _ => simp [recorded]

theorem recorded_objects (a : Array ObjectCell) (o : Nat)
    (ha : ∀ j, j ≠ o → a[j]? = w.objects[j]?) (x : Share) :
    ({ w with objects := a } : World κ σ).recorded x =
      if x = .object o then (a[o]?).elim 0 (·.clones)
      else if x = .tie o then (a[o]?).elim 0 (·.origins) else w.recorded x := by
  by_cases hx : x = .object o
  · simp [hx, recorded]
  by_cases hy : x = .tie o
  · simp [hy, recorded]
  · cases x with
    | object j => simp [recorded, hx, ha j (by simpa using hx)]
    | tie j => simp [recorded, hy, ha j (by simpa using hy)]
    | _ => simp [recorded]

theorem recorded_origins (a : Array OriginCell) (g : Nat)
    (ha : ∀ j, j ≠ g → a[j]? = w.origins[j]?) (x : Share) :
    ({ w with origins := a } : World κ σ).recorded x =
      if x = .origin g then (a[g]?).elim 0 (·.copies) else w.recorded x := by
  by_cases hx : x = .origin g
  · simp [hx, recorded]
  · cases x with
    | origin j => simp [recorded, hx, ha j (by simpa using hx)]
    | _ => simp [recorded]

theorem recorded_heap (heap : Slab HandleCell) (h : Handle)
    (ha : ∀ j, j ≠ h → heap.get? j = w.heap.get? j) (x : Share) :
    ({ w with heap } : World κ σ).recorded x =
      match x with
      | .handle j sort =>
        if j = h then (heap.get? h).elim 0 fun c => if c.target.sort = sort then c.shares else 0
        else w.recorded x
      | _ => w.recorded x := by
  cases x with
  | handle j sort =>
    by_cases hj : j = h
    · simp [recorded, hj]
    · simp [recorded, hj, ha j hj]
  | _ => simp [recorded]

end World

/-! ## Retaining

One count goes up, no reference changes, and the new share is in the hands of the thread. Nothing
could be said of something that is not there; so retaining asks for a share that exists already. -/

theorem getElem?_modify_of_ne {α : Type} (a : Array α) {i : Nat} (f : α → α) (j : Nat)
    (h : j ≠ i) : (a.modify i f)[j]? = a[j]? := by
  simp [Array.getElem?_modify, Ne.symm h]

theorem getElem?_modify_self {α : Type} {a : Array α} {i : Nat} {x : α} (f : α → α)
    (h : a[i]? = some x) : (a.modify i f)[i]? = some (f x) := by
  simp [Array.getElem?_modify, h]

theorem getElem?_push_of_ne {α : Type} (a : Array α) (x : α) (j : Nat) (h : j ≠ a.size) :
    (a.push x)[j]? = a[j]? := by
  simp [Array.getElem?_push, h]

namespace Balanced

variable {S : Multiset Share} {w w' : World κ σ}

/-- One share more of something. -/
theorem gain (h : Balanced S w) {x : Share} (hr : w'.refs = w.refs)
    (hc : ∀ y, w'.recorded y = w.recorded y + if y = x then 1 else 0) : Balanced (x ::ₘ S) w' := by
  intro y
  rw [hc, h y, hr, Multiset.count_cons, add_assoc]

theorem retainEngine (h : Balanced S w) {e : Nat} (he : 0 < w.recorded (.engine e)) :
    Balanced (.engine e ::ₘ S) (w.retainEngine e) := by
  obtain ⟨c, hc, -⟩ := elim_pos.mp he
  refine h.gain rfl fun y => ?_
  rw [World.retainEngine, World.recorded_engines _ _ e (getElem?_modify_of_ne _ _)]
  by_cases hy : y = .engine e
  · simp [hy, World.recorded, hc, getElem?_modify_self _ hc]
  · simp [hy]

theorem retainModule (h : Balanced S w) {m : Nat} (hm : 0 < w.recorded (.module m)) :
    Balanced (.module m ::ₘ S) (w.retainModule m) := by
  obtain ⟨c, hc, hpos⟩ := elim_pos.mp hm
  refine h.gain ?_ fun y => ?_
  · have ht := total_modify World.moduleRefs (fun c => { c with shares := c.shares + 1 }) hc
    simp [World.moduleRefs, hpos] at ht
    simp [World.retainModule, World.refs, ht]
  · rw [World.retainModule, World.recorded_modules _ _ m (getElem?_modify_of_ne _ _)]
    by_cases hy : y = .module m
    · simp [hy, World.recorded, hc, getElem?_modify_self _ hc]
    · simp [hy]

theorem retainLinker (h : Balanced S w) {l : Nat} (hl : 0 < w.recorded (.linker l)) :
    Balanced (.linker l ::ₘ S) (w.retainLinker l) := by
  obtain ⟨c, hc, hpos⟩ := elim_pos.mp hl
  refine h.gain ?_ fun y => ?_
  · have ht := total_modify World.linkerRefs (fun c => { c with shares := c.shares + 1 }) hc
    simp [World.linkerRefs, hpos] at ht
    simp [World.retainLinker, World.refs, ht]
  · rw [World.retainLinker, World.recorded_linkers _ _ l (getElem?_modify_of_ne _ _)]
    by_cases hy : y = .linker l
    · simp [hy, World.recorded, hc, getElem?_modify_self _ hc]
    · simp [hy]

theorem retainStore (h : Balanced S w) {s : Nat} (hs : 0 < w.recorded (.store s)) :
    Balanced (.store s ::ₘ S) (w.retainStore s) := by
  obtain ⟨c, hc, hpos⟩ := elim_pos.mp hs
  refine h.gain ?_ fun y => ?_
  · have ht := total_modify World.storeRefs (fun c => { c with shares := c.shares + 1 }) hc
    simp [World.storeRefs, hpos] at ht
    simp [World.retainStore, World.modifyStore, World.refs, ht]
  · rw [World.retainStore, World.modifyStore,
      World.recorded_stores _ _ s (getElem?_modify_of_ne _ _)]
    by_cases hy : y = .store s
    · simp [hy, World.recorded, hc, getElem?_modify_self _ hc]
    · simp [hy]

theorem retainHandle (h : Balanced S w) {a : Handle} {sort : HandleSort}
    (ha : 0 < w.recorded (.handle a sort)) :
    Balanced (.handle a sort ::ₘ S) (w.retainHandle a) := by
  obtain ⟨c, hc, rfl, hshares⟩ := World.exists_handle ha
  refine h.gain ?_ fun y => ?_
  · have ht := Slab.total_modify hc (fun c => { c with shares := c.shares + 1 }) World.handleRefs
    simp [World.handleRefs, hshares] at ht
    simp [World.retainHandle, World.refs, ht]
  · rw [World.retainHandle, World.recorded_heap _ _ a fun j hj => by simp [Slab.get?_modify, hj]]
    cases y with
    | handle j sort =>
      by_cases hj : j = a
      · by_cases hsort : c.target.sort = sort
        · simp [World.recorded, hj, hc, Slab.get?_modify, hsort]
        · simp [World.recorded, hj, hc, Slab.get?_modify, hsort, Ne.symm hsort]
      · simp [hj]
    | _ => simp

theorem retainObject (h : Balanced S w) {o : ObjectId} {c : ObjectCell}
    (hc : w.objects[o]? = some c) (hgone : c.gone = false) :
    Balanced (.object o ::ₘ S) (w.retainObject o) := by
  refine h.gain ?_ fun y => ?_
  · have ht := total_modify World.objectRefs (fun c => { c with clones := c.clones + 1 }) hc
    simp [World.objectRefs, hgone] at ht
    simp [ObjectCell.gone] at ht
    simp [World.retainObject, World.refs, ht]
  · rw [World.retainObject, World.recorded_objects _ _ o (getElem?_modify_of_ne _ _)]
    by_cases hy : y = .object o
    · simp [hy, World.recorded, hc, getElem?_modify_self _ hc]
    by_cases hy' : y = .tie o
    · simp [hy', World.recorded, hc, getElem?_modify_self _ hc]
    · simp [hy, hy']

theorem retainOrigin (h : Balanced S w) {g : Nat} (hg : 0 < w.recorded (.origin g)) :
    Balanced (.origin g ::ₘ S) (w.retainOrigin g) := by
  obtain ⟨c, hc, hpos⟩ := elim_pos.mp hg
  refine h.gain ?_ fun y => ?_
  · have ht := total_modify World.originRefs (fun c => { c with copies := c.copies + 1 }) hc
    simp [World.originRefs, hpos] at ht
    simp [World.retainOrigin, World.refs, ht]
  · rw [World.retainOrigin, World.recorded_origins _ _ g (getElem?_modify_of_ne _ _)]
    by_cases hy : y = .origin g
    · simp [hy, World.recorded, hc, getElem?_modify_self _ hc]
    · simp [hy]

/-! ## Releasing

One count goes down. Whether references go with it depends on whether it was the last, which is what
each of the proofs splits over. -/

/-- One share less of something, which leaves what it referred to. -/
theorem lose {x : Share} {A : Multiset Share} (h : Balanced (x ::ₘ S) w)
    (hr : w'.refs + A = w.refs) (hc : ∀ y, w'.recorded y + (if y = x then 1 else 0) = w.recorded y) :
    Balanced (A + S) w' := by
  intro y
  have hy := h y
  have hcy := hc y
  have hry := congrArg (Multiset.count y) hr
  simp only [Multiset.count_add, Multiset.count_cons] at hy hry ⊢
  omega

theorem releaseEngine {e : Nat} (h : Balanced (.engine e ::ₘ S) w) :
    Balanced S (w.releaseEngine e) := by
  obtain ⟨c, hc, hpos⟩ := elim_pos.mp (h.pos (Multiset.mem_cons_self _ _))
  have hl : Balanced S { w with
      engines := w.engines.modify e fun c => { c with shares := c.shares - 1 } } := by
    rw [← zero_add S]
    refine h.lose (add_zero _) fun y => ?_
    rw [World.recorded_engines _ _ e (getElem?_modify_of_ne _ _)]
    by_cases hy : y = .engine e
    · simp [hy, World.recorded, hc, getElem?_modify_self _ hc]
      omega
    · simp [hy]
  simp only [World.releaseEngine, hc]
  split
  · exact hl
  · exact hl

theorem dismissModule {m : Nat} (h : Balanced (.module m ::ₘ S) w) :
    Balanced (((w.dismissModule m).1.map Share.engine).toList + S) (w.dismissModule m).2 := by
  obtain ⟨c, hc, hpos⟩ := elim_pos.mp (h.pos (Multiset.mem_cons_self _ _))
  have ht := total_modify World.moduleRefs (fun c => { c with shares := c.shares - 1 }) hc
  refine h.lose ?_ fun y => ?_
  · simp only [World.dismissModule, hc, World.refs]
    by_cases hs : c.shares = 1
    · simp [World.moduleRefs, hs] at ht
      simp [hs, ← ht]
      ac_rfl
    · have hmore : 0 < c.shares - 1 := by omega
      simp [World.moduleRefs, hpos, hmore] at ht
      simp [hs, ht]
  · simp only [World.dismissModule, hc]
    rw [World.recorded_modules _ _ m (getElem?_modify_of_ne _ _)]
    by_cases hy : y = .module m
    · simp [hy, World.recorded, hc, getElem?_modify_self _ hc]
      omega
    · simp [hy]

theorem dismissLinker {l : Nat} (h : Balanced (.linker l ::ₘ S) w) :
    Balanced (((w.dismissLinker l).1.elim [] fun p => .engine p.1 :: p.2.map Wrapper.share :
      List Share) + S) (w.dismissLinker l).2 := by
  obtain ⟨c, hc, hpos⟩ := elim_pos.mp (h.pos (Multiset.mem_cons_self _ _))
  have ht := total_modify World.linkerRefs (fun c => { c with shares := c.shares - 1 }) hc
  refine h.lose ?_ fun y => ?_
  · simp only [World.dismissLinker, hc, World.refs]
    by_cases hs : c.shares = 1
    · simp [World.linkerRefs, hs] at ht
      simp [hs, ← ht, Function.comp_def]
      ac_rfl
    · have hmore : 0 < c.shares - 1 := by omega
      simp [World.linkerRefs, hpos, hmore] at ht
      simp [hs, ht]
  · simp only [World.dismissLinker, hc]
    rw [World.recorded_linkers _ _ l (getElem?_modify_of_ne _ _)]
    by_cases hy : y = .linker l
    · simp [hy, World.recorded, hc, getElem?_modify_self _ hc]
      omega
    · simp [hy]

/-- One reference less to a host object, which leaves what the object kept alive if it goes. -/
theorem reduceObject {x : Share} {o : ObjectId} {c : ObjectCell} {f : ObjectCell → ObjectCell}
    (h : Balanced (x ::ₘ S) w) (hc : w.objects[o]? = some c) (hcap : (f c).captures = c.captures)
    (hgone : c.gone = false)
    (hx : ∀ y, (if y = .object o then (f c).clones else if y = .tie o then (f c).origins
      else w.recorded y) + (if y = x then 1 else 0) = w.recorded y) :
    Balanced ((w.reduceObject o f).1.map Wrapper.share + S) (w.reduceObject o f).2 := by
  have hi := (Array.getElem?_eq_some_iff.mp hc).1
  have ht := total_set World.objectRefs (f c) hc
  refine h.lose ?_ fun y => ?_
  · simp only [World.reduceObject, hc, World.refs]
    cases hg : (f c).gone
    · simp [World.objectRefs, hgone, hg, hcap] at ht
      simp [ht]
    · simp [World.objectRefs, hgone, hg] at ht
      simp [hgone, ← ht]
      ac_rfl
  · simp only [World.reduceObject, hc]
    rw [World.recorded_objects _ _ o fun j hj => by simp [Ne.symm hj]]
    simpa [hi] using hx y

theorem dismissObject {o : ObjectId} (h : Balanced (.object o ::ₘ S) w) :
    Balanced ((w.dismissObject o).1.map Wrapper.share + S) (w.dismissObject o).2 := by
  obtain ⟨c, hc, hpos⟩ := elim_pos.mp (h.pos (Multiset.mem_cons_self _ _))
  refine h.reduceObject hc rfl (by simp [ObjectCell.gone]; omega) fun y => ?_
  by_cases hy : y = .object o
  · simp [hy, World.recorded, hc]
    omega
  by_cases hy' : y = .tie o
  · simp [hy', World.recorded, hc]
  · simp [hy, hy']

theorem dismissTie {o : ObjectId} (h : Balanced (.tie o ::ₘ S) w) :
    Balanced ((w.reduceObject o fun c => { c with origins := c.origins - 1 }).1.map Wrapper.share +
      S) (w.reduceObject o fun c => { c with origins := c.origins - 1 }).2 := by
  obtain ⟨c, hc, hpos⟩ := elim_pos.mp (h.pos (Multiset.mem_cons_self _ _))
  refine h.reduceObject hc rfl (by simp [ObjectCell.gone]; omega) fun y => ?_
  by_cases hy : y = .object o
  · simp [hy, World.recorded, hc]
  by_cases hy' : y = .tie o
  · simp [hy', World.recorded, hc]
    omega
  · simp [hy, hy']

theorem dismissOrigin {g : Nat} (h : Balanced (.origin g ::ₘ S) w) :
    Balanced ((w.dismissOrigin g).1.map Wrapper.share + S) (w.dismissOrigin g).2 := by
  obtain ⟨c, hc, hpos⟩ := elim_pos.mp (h.pos (Multiset.mem_cons_self _ _))
  have ht := total_modify World.originRefs (fun c => { c with copies := c.copies - 1 }) hc
  -- The origin goes first, and leaves its tie to the object; the tie is given up afterwards.
  have hl : Balanced ((if c.copies = 1 then {.tie c.object} else 0) + S) { w with
      origins := w.origins.modify g fun c => { c with copies := c.copies - 1 } } := by
    refine h.lose ?_ fun y => ?_
    · simp only [World.refs]
      by_cases hs : c.copies = 1
      · simp [World.originRefs, hs] at ht
        simp [hs, ← ht]
        ac_rfl
      · have hmore : 0 < c.copies - 1 := by omega
        simp [World.originRefs, hpos, hmore] at ht
        simp [hs, ht]
    · rw [World.recorded_origins _ _ g (getElem?_modify_of_ne _ _)]
      by_cases hy : y = .origin g
      · simp [hy, World.recorded, hc, getElem?_modify_self _ hc]
        omega
      · simp [hy]
  simp only [World.dismissOrigin, hc]
  split
  · rename_i hs
    exact dismissTie (by simpa [hs] using hl)
  · rename_i hs
    simpa [hs] using hl

/-! ## Handles -/

/-- A handle is no longer there. What it referred to is left with its shares taken away. This is no
balance yet, since the shares of the handle are still in the ledger; the two ways of removing a
handle settle that, each in its own way. -/
theorem removeHandle {a : Handle} {c : HandleCell} (h : Balanced S w)
    (hc : w.heap.get? a = some c) :
    ∀ x, ({ w with heap := (w.heap.remove a).2 } : World κ σ).recorded x +
      (if x = .handle a c.target.sort then c.shares else 0) =
        ({ w with heap := (w.heap.remove a).2 } : World κ σ).refs.count x +
          (World.handleRefs a c).count x + S.count x := by
  intro x
  have hx := h x
  have ht := congrArg (Multiset.count x) (Slab.total_remove hc World.handleRefs)
  rw [World.recorded_heap _ _ a fun j hj => by simp [Slab.get?_remove hc, hj]]
  simp only [World.refs, Multiset.count_add] at hx ht ⊢
  -- Only the handle at this address is concerned, and of its shares only those of its own sort.
  cases x with
  | handle j sort =>
    by_cases hj : j = a
    · by_cases hsort : c.target.sort = sort
      · simp [World.recorded, hj, hc, hsort] at hx
        simp [hj, hsort, Slab.get?_remove hc]
        subst hj
        omega
      · simp [World.recorded, hj, hc, hsort] at hx
        simp [hj, Ne.symm hsort, Slab.get?_remove hc]
        subst hj
        omega
    · simp [hj]
      omega
  | _ =>
    simp
    omega

/-- A handle that nothing shares is no longer there. -/
theorem removeWaiting {a : Handle} {c : HandleCell} (h : Balanced S w)
    (hc : w.heap.get? a = some c) (hs : c.shares = 0) :
    Balanced S { w with heap := (w.heap.remove a).2 } := by
  intro x
  have hx := h.removeHandle hc x
  simp [World.handleRefs, hs] at hx
  omega

/-- A handle that is shared once is no longer there. -/
theorem removeSole {a : Handle} {sort : HandleSort} {c : HandleCell}
    (h : Balanced (.handle a sort ::ₘ S) w) (hc : w.heap.get? a = some c) (hs : c.shares = 1) :
    Balanced (.store c.store ::ₘ S) { w with heap := (w.heap.remove a).2 } := by
  obtain ⟨c', hc', hsort, -⟩ := World.exists_handle (h.pos (Multiset.mem_cons_self _ _))
  obtain rfl : c = c' := by simpa [hc] using hc'
  intro x
  have hx := h.removeHandle hc x
  simp [World.handleRefs, hs, hsort, Multiset.count_cons] at hx
  simp only [Multiset.count_cons, Multiset.count_singleton] at hx ⊢
  omega

/-- One share less of a handle, which leaves its store if it is the last. -/
theorem reduceHandle {a : Handle} {sort : HandleSort} {c : HandleCell}
    (h : Balanced (.handle a sort ::ₘ S) w) (hc : w.heap.get? a = some c) :
    Balanced ((if c.shares = 1 then {.store c.store} else 0) + S)
      { w with heap := w.heap.modify a fun c => { c with shares := c.shares - 1 } } := by
  obtain ⟨c', hc', hsort, hshares⟩ := World.exists_handle (h.pos (Multiset.mem_cons_self _ _))
  obtain rfl : c = c' := by simpa [hc] using hc'
  have ht := Slab.total_modify hc (fun c => { c with shares := c.shares - 1 }) World.handleRefs
  refine h.lose ?_ fun y => ?_
  · simp only [World.refs]
    by_cases hs : c.shares = 1
    · simp [World.handleRefs, hs] at ht
      simp [hs, ← ht]
      ac_rfl
    · have hmore : 0 < c.shares - 1 := by omega
      simp [World.handleRefs, hshares, hmore] at ht
      simp [hs, ht]
  · rw [World.recorded_heap _ _ a fun j hj => by simp [Slab.get?_modify, hj]]
    cases y with
    | handle j sort' =>
      by_cases hj : j = a
      · by_cases hs' : c.target.sort = sort'
        · simp [World.recorded, hj, hc, Slab.get?_modify, hs', ← hsort]
          omega
        · simp [World.recorded, hj, hc, Slab.get?_modify, hs', ← hsort, Ne.symm hs']
      · simp [hj]
    | _ => simp

/-- A handle is allocated; it takes over a share of its store. -/
theorem newHandle {s : Nat} (h : Balanced S w) (hs : 0 < w.recorded (.store s))
    (target : Target) :
    Balanced (.handle (w.newHandle s target).1 target.sort ::ₘ S) (w.newHandle s target).2 := by
  have hr := h.retainStore hs
  have hfresh := Slab.get?_insert_self w.heap ⟨s, target, 1, w.chronicle.allocated.size⟩
  have hget := Slab.get?_insert w.heap ⟨s, target, 1, w.chronicle.allocated.size⟩
  have ht := Slab.total_insert w.heap ⟨s, target, 1, w.chronicle.allocated.size⟩ World.handleRefs
  refine Balanced.transfer (w := w.retainStore s) (A := 0) (B := {.store s}) (D := 0)
    (U := {.handle (w.newHandle s target).1 target.sort}) hr ?_ (fun x => ?_) ?_
  · simp [World.handleRefs] at ht
    simp [World.newHandle, World.retainStore, World.modifyStore, World.refs, ht]
    ac_rfl
  · have hx := World.recorded_heap (w.retainStore s) _ _
      (fun j hj => (hget j).trans (if_neg hj)) x
    simp only [World.newHandle]
    refine (congrArg (· + _) hx).trans ?_
    cases x with
    | handle j sort =>
      by_cases hj : j = (w.heap.insert ⟨s, target, 1, w.chronicle.allocated.size⟩).1
      · subst hj
        have hnone : (w.retainStore s).heap.get?
            (w.heap.insert ⟨s, target, 1, w.chronicle.allocated.size⟩).1 = none := hfresh
        by_cases hsort : target.sort = sort
        · simp [hget, World.recorded, hnone, hsort]
        · simp [hget, World.recorded, hnone, hsort, Ne.symm hsort]
      · simp [hj]
    | _ => simp
  · simp only [← Multiset.singleton_add]
    ac_rfl

/-! ## Stores -/

/-- A change of a store that no account sees. -/
theorem modifyStore {s : Nat} {f : StoreCell → StoreCell} (h : Balanced S w)
    (hr : ∀ c, World.storeRefs s (f c) = World.storeRefs s c) (hs : ∀ c, (f c).shares = c.shares) :
    Balanced S (w.modifyStore s f) := by
  intro x
  have hx := h x
  rw [World.modifyStore, World.recorded_stores _ _ s (getElem?_modify_of_ne _ _)]
  simp only [World.refs, total_modify_same _ _ hr] at hx ⊢
  by_cases hi : x = .store s
  · rw [← hx]
    cases hc : w.stores[s]? <;> simp [hi, World.recorded, Array.getElem?_modify, hc, hs]
  · simp [hi, hx]

/-- One share less of a store, which leaves its engine if it is the last. -/
theorem reduceStore {s : Nat} {c : StoreCell} (h : Balanced (.store s ::ₘ S) w)
    (hc : w.stores[s]? = some c) :
    Balanced ((if c.shares = 1 then {.engine c.engine} else 0) + S)
      (w.modifyStore s fun c => { c with shares := c.shares - 1 }) := by
  obtain ⟨c', hc', hpos⟩ := elim_pos.mp (h.pos (Multiset.mem_cons_self _ _))
  obtain rfl : c = c' := by simpa [hc] using hc'
  have ht := total_modify World.storeRefs (fun c => { c with shares := c.shares - 1 }) hc
  refine h.lose ?_ fun y => ?_
  · simp only [World.modifyStore, World.refs]
    ext y
    have hy := congrArg (Multiset.count y) ht
    simp only [World.storeRefs, Multiset.count_add, if_pos hpos] at hy ⊢
    by_cases hs : c.shares = 1
    · simp only [hs, Nat.sub_self, lt_irrefl, if_false, if_true, Multiset.count_zero] at hy ⊢
      omega
    · have hmore : 0 < c.shares - 1 := by omega
      simp only [if_pos hmore, if_neg hs, Multiset.count_zero] at hy ⊢
      omega
  · rw [World.modifyStore, World.recorded_stores _ _ s (getElem?_modify_of_ne _ _)]
    by_cases hy : y = .store s
    · simp [hy, World.recorded, hc, getElem?_modify_self _ hc]
      omega
    · simp [hy]

/-- A change of a store that leaves its count leaves every count. -/
theorem recorded_modifyStore {s : Nat} {c : StoreCell} {f : StoreCell → StoreCell}
    (hc : w.stores[s]? = some c) (hs : (f c).shares = c.shares) (x : Share) :
    (w.modifyStore s f).recorded x = w.recorded x := by
  rw [World.modifyStore, World.recorded_stores _ _ s (getElem?_modify_of_ne _ _)]
  by_cases hx : x = .store s
  · simp [hx, World.recorded, hc, getElem?_modify_self _ hc, hs]
  · simp [hx]

/-- A store takes over a copy of an origin. The copy is no longer a share of the thread's, but a
reference of the store's. -/
theorem takeOrigin {s g : Nat} {c : StoreCell} (h : Balanced (.origin g ::ₘ S) w)
    (hc : w.stores[s]? = some c) :
    Balanced S (w.modifyStore s fun c => { c with held := c.held ++ [g] }) := by
  have ht := total_modify World.storeRefs (fun c => { c with held := c.held ++ [g] }) hc
  refine h.transfer (A := 0) (B := {.origin g}) (D := 0) (U := 0) ?_ (fun x => ?_) ?_
  · simp only [World.modifyStore, World.refs]
    ext y
    have hy := congrArg (Multiset.count y) ht
    simp [World.storeRefs, ← Multiset.coe_add] at hy ⊢
    omega
  · rw [recorded_modifyStore hc rfl]
  · simp only [← Multiset.singleton_add]
    ac_rfl

/-- The guest part of a store goes, and leaves the store and its origins. -/
theorem vacate {s : Nat} {c : StoreCell} {g : Guest.Store} (h : Balanced S w)
    (hc : w.stores[s]? = some c) (hg : c.guest = some g) :
    Balanced (.store s ::ₘ (c.held.map Share.origin + S))
      (w.modifyStore s fun c => { c with guest := none, held := [] }) := by
  have ht := total_modify World.storeRefs (fun c => { c with guest := none, held := [] }) hc
  refine h.transfer (A := .store s ::ₘ c.held.map Share.origin) (B := 0) (D := 0) (U := 0) ?_
    (fun x => ?_) ?_
  · simp only [World.modifyStore, World.refs]
    ext y
    have hy := congrArg (Multiset.count y) ht
    simp only [World.storeRefs, hg, Multiset.count_add, Multiset.count_cons, Option.isSome_some,
      Option.isSome_none, if_true, List.map_nil, Multiset.coe_nil, Multiset.count_zero,
      Multiset.count_singleton, Bool.false_eq_true, if_false] at hy ⊢
    omega
  · rw [recorded_modifyStore hc rfl]
  · simp only [← Multiset.singleton_add]
    ac_rfl

/-- A store is added. Its guest part refers to it. -/
theorem newStore {e : Nat} (h : Balanced S w) (he : 0 < w.recorded (.engine e)) :
    Balanced S (w.newStore e).2 := by
  have hr := h.retainEngine he
  refine Balanced.transfer (w := w.retainEngine e) (A := 0)
    (B := {.engine e, .store w.stores.size}) (D := 0) (U := {.store w.stores.size}) hr ?_
    (fun x => ?_) ?_
  · simp [World.newStore, World.retainEngine, World.refs, total_push, World.storeRefs]
    ext y
    simp
    omega
  · have hx := World.recorded_stores (w.retainEngine e) _ _
      (getElem?_push_of_ne w.stores ⟨e, some (.empty (((w.engines[e]?).map fun c =>
        World.metersOf c.config).getD default)), [], .empty, none, 1⟩) x
    simp only [World.newStore]
    refine (congrArg (· + _) hx).trans ?_
    by_cases hi : x = .store w.stores.size
    · simp [hi, World.recorded, World.retainEngine]
    · simp [hi]
  · simp only [← Multiset.singleton_add, Multiset.insert_eq_cons]
    ac_rfl

/-! ## Creating -/

theorem newEngine (h : Balanced S w) (config : EngineConfig) :
    Balanced (.engine (w.newEngine config).1 ::ₘ S) (w.newEngine config).2 := by
  refine h.gain rfl fun y => ?_
  simp only [World.newEngine]
  rw [World.recorded_engines _ _ _ (getElem?_push_of_ne _ _)]
  by_cases hy : y = .engine w.engines.size
  · simp [hy, World.recorded]
  · simp [hy]

theorem newModule {e : Nat} (h : Balanced S w) (he : 0 < w.recorded (.engine e))
    (compiled : CompiledModule) :
    Balanced (.module (w.newModule e compiled).1 ::ₘ S) (w.newModule e compiled).2 := by
  have hr := h.retainEngine he
  refine Balanced.transfer (w := w.retainEngine e) (A := 0) (B := {.engine e}) (D := 0)
    (U := {.module w.modules.size}) hr ?_ (fun x => ?_) ?_
  · simp [World.newModule, World.retainEngine, World.refs, total_push, World.moduleRefs]
    ac_rfl
  · have hx := World.recorded_modules (w.retainEngine e) _ _
      (getElem?_push_of_ne w.modules ⟨compiled, e, 1⟩) x
    simp only [World.newModule]
    refine (congrArg (· + _) hx).trans ?_
    by_cases hi : x = .module w.modules.size
    · simp [hi, World.recorded, World.retainEngine]
    · simp [hi]
  · simp only [World.newModule, ← Multiset.singleton_add]
    ac_rfl

theorem newLinker {e : Nat} (h : Balanced S w) (he : 0 < w.recorded (.engine e)) :
    Balanced (.linker (w.newLinker e).1 ::ₘ S) (w.newLinker e).2 := by
  have hr := h.retainEngine he
  refine Balanced.transfer (w := w.retainEngine e) (A := 0) (B := {.engine e}) (D := 0)
    (U := {.linker w.linkers.size}) hr ?_ (fun x => ?_) ?_
  · simp [World.newLinker, World.retainEngine, World.refs, total_push, World.linkerRefs]
    ac_rfl
  · have hx := World.recorded_linkers (w.retainEngine e) _ _
      (getElem?_push_of_ne w.linkers ⟨e, [], false, 1⟩) x
    simp only [World.newLinker]
    refine (congrArg (· + _) hx).trans ?_
    by_cases hi : x = .linker w.linkers.size
    · simp [hi, World.recorded, World.retainEngine]
    · simp [hi]
  · simp only [World.newLinker, ← Multiset.singleton_add]
    ac_rfl

/-- A host object is made; it takes over the shares of what it keeps alive. -/
theorem newObject {captures : List Wrapper} (h : Balanced (captures.map Wrapper.share + S) w)
    (data : HostData) :
    Balanced (.object (w.newObject data captures).1 ::ₘ S) (w.newObject data captures).2 := by
  refine h.transfer (A := 0) (B := captures.map Wrapper.share) (D := 0)
    (U := {.object w.objects.size}) ?_ (fun x => ?_) ?_
  · simp [World.newObject, World.refs, total_push, World.objectRefs, ObjectCell.gone]
    ac_rfl
  · simp only [World.newObject]
    rw [World.recorded_objects _ _ _ (getElem?_push_of_ne _ _)]
    by_cases hi : x = .object w.objects.size
    · simp [hi, World.recorded]
    by_cases hi' : x = .tie w.objects.size
    · simp [hi', World.recorded]
    · simp [hi, hi']
  · simp only [World.newObject, ← Multiset.singleton_add]
    ac_rfl

/-- An origin of a host object is made. -/
theorem newOrigin {o : ObjectId} (h : Balanced S w) (ho : 0 < w.recorded (.object o)) :
    Balanced (.origin (w.newOrigin o).1 ::ₘ S) (w.newOrigin o).2 := by
  obtain ⟨c, hc, hpos⟩ := elim_pos.mp ho
  have ht := total_modify World.objectRefs (fun c => { c with origins := c.origins + 1 }) hc
  have hgone : c.clones ≠ 0 := by omega
  simp [World.objectRefs, ObjectCell.gone, hgone] at ht
  refine h.transfer (A := 0) (B := {.tie o}) (D := 0) (U := {.tie o, .origin w.origins.size}) ?_
    (fun x => ?_) ?_
  · simp [World.newOrigin, World.refs, total_push, World.originRefs, ht]
    ac_rfl
  · have hx := World.recorded_origins { w with
      objects := w.objects.modify o fun c => { c with origins := c.origins + 1 } } _ _
      (getElem?_push_of_ne w.origins ⟨o, 1⟩) x
    simp only [World.newOrigin]
    refine (congrArg (· + _) hx).trans ?_
    rw [World.recorded_objects _ _ _ (getElem?_modify_of_ne _ _)]
    by_cases hi : x = .origin w.origins.size
    · simp [hi, World.recorded]
    by_cases ht : x = .tie o
    · simp [ht, World.recorded, hc, getElem?_modify_self _ hc]
    by_cases ho : x = .object o
    · simp [ho, World.recorded, hc, getElem?_modify_self _ hc]
    · simp [hi, ht, ho]
  · simp only [World.newOrigin, ← Multiset.singleton_add, Multiset.insert_eq_cons]
    ac_rfl

/-! ## Closures and definitions -/

/-- A closure is registered; it takes over the shares of what it keeps alive, and one of its
store. -/
theorem register {s : Nat} {captures : List Capture}
    (h : Balanced (captures.map Capture.share + S) w) (hs : 0 < w.recorded (.store s))
    (type : Signature) (code : κ) : Balanced S (w.register s type code captures).2 := by
  have hr := h.retainStore hs
  refine Balanced.transfer (w := w.retainStore s) (A := 0)
    (B := .store s ::ₘ captures.map Capture.share) (D := 0) (U := 0) hr ?_ (fun x => rfl) ?_
  · have ht := Slab.total_insert w.registry ⟨s, type, code, captures, w.chronicle.registered⟩
      World.registrationRefs
    simp [World.registrationRefs] at ht
    simp [World.register, World.retainStore, World.modifyStore, World.refs, ht]
    ac_rfl
  · simp only [← Multiset.singleton_add]
    ac_rfl

/-- A closure is no longer registered, and leaves what it referred to. -/
theorem unregister {key : Nat} {r : Registration κ} (h : Balanced S w)
    (hr : w.registry.get? key = some r) :
    Balanced (.store r.store ::ₘ (r.captures.map Capture.share + S)) (w.unregister key).2 := by
  have ht := Slab.total_remove hr World.registrationRefs
  have hu : w.unregister key = (some r, { w with
      registry := (w.registry.remove key).2
      chronicle := { w.chronicle with finalized := r.number :: w.chronicle.finalized } }) := by
    simp [World.unregister, Slab.remove_of_get? hr]
  refine h.transfer (A := World.registrationRefs key r) (B := 0) (D := 0) (U := 0) ?_
    (fun x => by rw [hu]; rfl) ?_
  · simp only [hu, World.refs, ← ht]
    ac_rfl
  · simp only [World.registrationRefs, ← Multiset.singleton_add]
    ac_rfl

/-- A definition takes the place of what its pair stood for before. -/
theorem count_put (defs : Definitions) (module name : String) (item : Item) (x : Share) :
    ((Definitions.put defs module name item).map (·.2.wrapper.share)).count x +
      ((Definitions.get? defs module name).toList.map (·.wrapper.share)).count x =
        (defs.map (·.2.wrapper.share)).count x + [item.wrapper.share].count x := by
  induction defs with
  | nil => simp [Definitions.put, Definitions.get?]
  | cons d rest ih =>
    by_cases hd : d.1.1 = module ∧ d.1.2 = name
    · simp [Definitions.put, Definitions.get?, hd, List.count_cons]
      omega
    · have hf : (d.1.1 == module && d.1.2 == name) = false := by
        simpa using fun hm hn => hd ⟨hm, hn⟩
      simp only [Definitions.put, if_neg hd, Definitions.get?, List.find?_cons, hf, List.map_cons,
        List.count_cons] at ih ⊢
      omega

/-- A pair is defined, or the item is left. -/
theorem define {l : Nat} {item : Item} (h : Balanced (item.wrapper.share ::ₘ S) w)
    (hl : 0 < w.recorded (.linker l)) (module name : String) :
    ∃ defined left, (w.define l module name item).1 = some (defined, left) ∧
      Balanced (left.map (·.wrapper.share) + S) (w.define l module name item).2 := by
  obtain ⟨c, hc, hpos⟩ := elim_pos.mp hl
  simp only [World.define, hc]
  split
  · exact ⟨_, _, rfl, by simpa using h⟩
  · -- What stood there before comes back to the thread, and the new item goes in.
    have ht := total_modify World.linkerRefs
      (fun c => { c with definitions := Definitions.put c.definitions module name item }) hc
    refine ⟨_, _, rfl, h.transfer (A := (Definitions.get? c.definitions module name).toList.map
      (·.wrapper.share)) (B := {item.wrapper.share}) (D := 0) (U := 0) ?_ (fun x => ?_) ?_⟩
    · ext y
      have hy := congrArg (Multiset.count y) ht
      have hp := count_put c.definitions module name item y
      simp only [World.linkerRefs, if_pos hpos, Multiset.count_add, Multiset.count_cons,
        Multiset.coe_count, ← Multiset.coe_singleton, World.refs] at hy ⊢
      omega
    · rw [World.recorded_linkers _ _ l (getElem?_modify_of_ne _ _)]
      by_cases hx : x = .linker l
      · simp [hx, World.recorded, hc, getElem?_modify_self _ hc]
      · simp [hx]
    · simp only [← Multiset.singleton_add]
      ac_rfl

/-- A change of a linker that no account sees. -/
theorem modifyLinker {l : Nat} {f : LinkerCell → LinkerCell} (h : Balanced S w)
    (hr : ∀ c, World.linkerRefs l (f c) = World.linkerRefs l c) (hs : ∀ c, (f c).shares = c.shares) :
    Balanced S { w with linkers := w.linkers.modify l f } := by
  intro x
  have hx := h x
  rw [World.recorded_linkers _ _ l (getElem?_modify_of_ne _ _)]
  simp only [World.refs, total_modify_same _ _ hr] at hx ⊢
  by_cases hi : x = .linker l
  · rw [← hx]
    cases hc : w.linkers[l]? <;> simp [hi, World.recorded, Array.getElem?_modify, hc, hs]
  · simp [hi, hx]

/-- A change of an engine that no account sees. -/
theorem modifyEngine {e : Nat} {f : EngineCell → EngineCell} (h : Balanced S w)
    (hs : ∀ c, (f c).shares = c.shares) :
    Balanced S { w with engines := w.engines.modify e f } := by
  intro x
  rw [World.recorded_engines _ _ e (getElem?_modify_of_ne _ _)]
  by_cases hi : x = .engine e
  · refine Eq.trans ?_ (h x)
    cases hc : w.engines[e]? <;> simp [hi, World.recorded, Array.getElem?_modify, hc, hs]
  · simp [hi, h x, World.refs]

end Balanced

end WasmHost.Host
