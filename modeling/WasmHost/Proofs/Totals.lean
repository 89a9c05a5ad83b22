import Mathlib.Algebra.BigOperators.Group.Finset.Basic
import Mathlib.Algebra.Order.BigOperators.Group.Finset
import WasmHost.Slab

/-!
# Totals over arrays and slabs

What the cells of an array or a slab come to, each with its place: the references they hold, the
numbers they carry, or simply one for each. A change of one cell changes a total by what that cell
comes to, which is all that the accounts of a world ever need.

Everything the world counts is compared with such a total in the end: the shares of a handle with
the references to it, the numbers of closures with those that were ever given, the length of the
registry with its values. These are totals of multisets and of numbers, so a total here is one in
any commutative monoid, and a homomorphism takes one total to another (`total_hom`): how often a
multiset has something is again a total, `count_total`.

A multiset has no difference that could be relied on, since taking away too much goes unnoticed. So
the lemma about a change, `total_modify`, takes nothing away: it says what the total *afterwards*
and the cell *before* come to together. Accounts are then compared by cancelling on both sides,
which `omega` does once everything has been counted.

Slabs are treated like arrays whose vacant slots come to nothing. No more is known of them here than
what is under each key: that the keys which become free are used again, and in which order, is of no
importance to an account, and is proved elsewhere.
-/

namespace WasmHost

variable {α M : Type} [AddCommMonoid M]

/-! ## Arrays -/

/-- What the elements of an array come to. -/
def total (a : Array α) (f : Nat → α → M) : M :=
  ∑ i ∈ Finset.range a.size, (a[i]?).elim 0 (f i)

@[simp] theorem total_empty (f : Nat → α → M) : total #[] f = 0 := by simp [total]

theorem total_push (a : Array α) (x : α) (f : Nat → α → M) :
    total (a.push x) f = total a f + f a.size x := by
  simp only [total, Array.size_push, Finset.sum_range_succ]
  congr 1
  · refine Finset.sum_congr rfl fun i hi => ?_
    rw [Array.getElem?_push_lt (Finset.mem_range.mp hi), Array.getElem?_eq_getElem]
  · simp

/-- Two arrays of one size that differ at one index at most have totals that differ by what stands
there. -/
theorem total_add_of_agree {a b : Array α} {i : Nat} {x y : α} (f : Nat → α → M)
    (hs : a.size = b.size) (ha : a[i]? = some x) (hb : b[i]? = some y)
    (h : ∀ j, j ≠ i → a[j]? = b[j]?) : total b f + f i x = total a f + f i y := by
  have hi : i ∈ Finset.range a.size := by
    simpa using (Array.getElem?_eq_some_iff.mp ha).1
  have hrest : ∑ j ∈ (Finset.range a.size).erase i, (b[j]?).elim 0 (f j) =
      ∑ j ∈ (Finset.range a.size).erase i, (a[j]?).elim 0 (f j) :=
    Finset.sum_congr rfl fun j hj => by rw [h j (Finset.ne_of_mem_erase hj)]
  simp only [total, ← hs]
  rw [← Finset.add_sum_erase _ _ hi, ← Finset.add_sum_erase _ (fun j => (a[j]?).elim 0 (f j)) hi,
    hrest, ha, hb]
  simp only [Option.elim_some]
  rw [add_right_comm, add_comm (f i y), add_right_comm]

/-- What stood at the index before is added on the left, not taken away on the right. -/
theorem total_modify {a : Array α} {i : Nat} {x : α} (f : Nat → α → M) (g : α → α)
    (h : a[i]? = some x) : total (a.modify i g) f + f i x = total a f + f i (g x) :=
  total_add_of_agree f (by simp) h (by simp [Array.getElem?_modify, h])
    fun j hj => by simp [Array.getElem?_modify, Ne.symm hj]

theorem total_set {a : Array α} {i : Nat} {x : α} (f : Nat → α → M) (y : α) (h : a[i]? = some x) :
    total (a.setIfInBounds i y) f + f i x = total a f + f i y := by
  have hi := (Array.getElem?_eq_some_iff.mp h).1
  exact total_add_of_agree f (by simp) h (by simp [hi])
    fun j hj => by simp [Ne.symm hj]

/-- A change that an account does not see. -/
theorem total_modify_same (a : Array α) (i : Nat) {f : Nat → α → M} {g : α → α}
    (h : ∀ x, f i (g x) = f i x) : total (a.modify i g) f = total a f := by
  simp only [total, Array.size_modify]
  refine Finset.sum_congr rfl fun j _ => ?_
  rw [Array.getElem?_modify]
  by_cases hj : i = j
  · subst hj
    cases a[i]? <;> simp [h]
  · simp [hj]

/-- A total is what one element comes to and something more. -/
theorem exists_total_eq {a : Array α} {i : Nat} {x : α} (f : Nat → α → M) (h : a[i]? = some x) :
    ∃ r, total a f = f i x + r := by
  have hi : i ∈ Finset.range a.size := by
    simpa using (Array.getElem?_eq_some_iff.mp h).1
  exact ⟨_, by rw [total, ← Finset.add_sum_erase _ _ hi, h]; rfl⟩

theorem mem_total {β : Type} {a : Array α} {f : Nat → α → Multiset β} {y : β} :
    y ∈ total a f ↔ ∃ i x, a[i]? = some x ∧ y ∈ f i x := by
  simp only [total, Multiset.mem_sum, Finset.mem_range]
  constructor
  · rintro ⟨i, _, hy⟩
    cases hx : a[i]? with
    | none => simp [hx] at hy
    | some x => exact ⟨i, x, hx, by simpa [hx] using hy⟩
  · rintro ⟨i, x, hx, hy⟩
    exact ⟨i, (Array.getElem?_eq_some_iff.mp hx).1, by simpa [hx] using hy⟩

/-- Elements that come to nothing are added. -/
theorem total_pad (a : Array α) (n : Nat) {x : α} {f : Nat → α → M} (hf : ∀ i, f i x = 0) :
    total (a ++ Array.replicate n x) f = total a f := by
  induction n with
  | zero => simp
  | succ n ih => rw [Array.replicate_succ, Array.append_push, total_push, ih, hf, add_zero]

theorem total_eq_zero (a : Array α) {f : Nat → α → M} (hf : ∀ i x, f i x = 0) : total a f = 0 := by
  refine Finset.sum_eq_zero fun i _ => ?_
  cases a[i]? <;> simp [hf]

/-- A homomorphism of what elements come to is one of their total. -/
theorem total_hom {N : Type} [AddCommMonoid N] (φ : M →+ N) (a : Array α) (f : Nat → α → M) :
    φ (total a f) = total a fun i x => φ (f i x) := by
  simp only [total, map_sum]
  refine Finset.sum_congr rfl fun i _ => ?_
  cases a[i]? <;> simp

theorem count_total {β : Type} [DecidableEq β] (a : Array α) (f : Nat → α → Multiset β) (y : β) :
    (total a f).count y = total a fun i x => (f i x).count y :=
  total_hom (Multiset.countAddMonoidHom y) a f

theorem total_pos {a : Array α} {f : Nat → α → Nat} :
    0 < total a f ↔ ∃ i x, a[i]? = some x ∧ 0 < f i x := by
  rw [total, Finset.sum_pos_iff]
  constructor
  · rintro ⟨i, -, hpos⟩
    cases hx : a[i]? with
    | none => simp [hx] at hpos
    | some x => exact ⟨i, x, hx, by simpa [hx] using hpos⟩
  · rintro ⟨i, x, hx, hpos⟩
    exact ⟨i, Finset.mem_range.mpr (Array.getElem?_eq_some_iff.mp hx).1, by simpa [hx] using hpos⟩

/-! ## Slabs

The threading of the vacant slots does not matter here: a total only sees what is occupied. -/

namespace Slab

/-- What a slot comes to. -/
def slotTotal (f : Nat → α → M) (key : Nat) : Slot α → M
  | .occupied v => f key v
  | .vacant _ => 0

/-- What the values of a slab come to, each with its key. -/
def total (s : Slab α) (f : Nat → α → M) : M := WasmHost.total s.slots (slotTotal f)

/-- The length of a slab is the number of its values. -/
def Sized (s : Slab α) : Prop := s.len = s.total fun _ _ => 1

@[simp] theorem total_empty (f : Nat → α → M) : (empty : Slab α).total f = 0 := by
  simp [total, empty]

@[simp] theorem get?_empty (key : Nat) : (empty : Slab α).get? key = none := by
  simp [get?, empty]

theorem slots_of_get? {s : Slab α} {key : Nat} {v : α} (h : s.get? key = some v) :
    s.slots[key]? = some (.occupied v) := by
  unfold get? at h
  split at h
  · rename_i w hw
    cases h
    exact hw
  · cases h

theorem get?_of_slots {s : Slab α} {key : Nat} {v : α} (h : s.slots[key]? = some (.occupied v)) :
    s.get? key = some v := by
  simp [get?, h]

theorem mem_total {β : Type} {s : Slab α} {f : Nat → α → Multiset β} {y : β} :
    y ∈ s.total f ↔ ∃ key v, s.get? key = some v ∧ y ∈ f key v := by
  rw [total, WasmHost.mem_total]
  constructor
  · rintro ⟨key, slot, hs, hy⟩
    cases slot with
    | occupied v => exact ⟨key, v, get?_of_slots hs, hy⟩
    | vacant next => simp [slotTotal] at hy
  · rintro ⟨key, v, hv, hy⟩
    exact ⟨key, .occupied v, slots_of_get? hv, hy⟩

/-- Slabs with the same values under all keys come to the same. -/
theorem exists_total_eq {s : Slab α} {key : Nat} {v : α} (f : Nat → α → M)
    (h : s.get? key = some v) : ∃ r, s.total f = f key v + r :=
  WasmHost.exists_total_eq _ (slots_of_get? h)

theorem total_eq_zero (s : Slab α) {f : Nat → α → M} (hf : ∀ i x, f i x = 0) : s.total f = 0 := by
  refine WasmHost.total_eq_zero _ fun i slot => ?_
  cases slot <;> simp [slotTotal, hf]

theorem count_total {β : Type} [DecidableEq β] (s : Slab α) (f : Nat → α → Multiset β) (y : β) :
    (s.total f).count y = s.total fun i x => (f i x).count y := by
  refine (WasmHost.count_total _ _ _).trans (congrArg (WasmHost.total _) (funext₂ fun i slot => ?_))
  cases slot <;> simp [slotTotal]

/-! ### Insertion -/

/-- Insertion fills a vacant slot or adds one. -/
theorem insert_cases (s : Slab α) (v : α) :
    (∃ key next, s.slots[key]? = some (.vacant next) ∧
      s.insert v = (key, ⟨s.slots.setIfInBounds key (.occupied v), next, s.len + 1⟩)) ∨
    s.insert v = (s.slots.size, ⟨s.slots.push (.occupied v), s.slots.size + 1, s.len + 1⟩) := by
  unfold insert
  split
  · rename_i next h
    exact .inl ⟨_, next, h, rfl⟩
  · exact .inr rfl

theorem get?_insert_self (s : Slab α) (v : α) : s.get? (s.insert v).1 = none := by
  obtain ⟨key, next, hk, h⟩ | h := s.insert_cases v <;> rw [h]
  · simp [get?, hk]
  · simp [get?]

theorem get?_insert (s : Slab α) (v : α) (key : Nat) :
    (s.insert v).2.get? key = if key = (s.insert v).1 then some v else s.get? key := by
  obtain ⟨free, next, hk, h⟩ | h := s.insert_cases v <;> rw [h]
  · have hf := (Array.getElem?_eq_some_iff.mp hk).1
    by_cases hi : key = free
    · subst hi
      simp [get?, hf]
    · simp [get?, hi, Ne.symm hi]
  · by_cases hi : key = s.slots.size
    · simp [get?, hi]
    · simp [get?, Array.getElem?_push, hi]

theorem total_insert (s : Slab α) (v : α) (f : Nat → α → M) :
    (s.insert v).2.total f = s.total f + f (s.insert v).1 v := by
  obtain ⟨free, next, hk, h⟩ | h := s.insert_cases v <;> rw [h]
  · simpa [total, slotTotal] using total_set (slotTotal f) (.occupied v) hk
  · simp [total, total_push, slotTotal]

theorem Sized.insert {s : Slab α} (h : s.Sized) (v : α) : (s.insert v).2.Sized := by
  have hl : (s.insert v).2.len = s.len + 1 := by
    obtain ⟨free, next, hk, h⟩ | h := s.insert_cases v <;> rw [h]
  rw [Sized, hl, total_insert, h]

/-! ### Removal -/

theorem remove_of_get? {s : Slab α} {key : Nat} {v : α} (h : s.get? key = some v) :
    s.remove key =
      (some v, ⟨s.slots.setIfInBounds key (.vacant s.nextFree), key, s.len - 1⟩) := by
  simp [remove, slots_of_get? h]

theorem remove_of_get?_none {s : Slab α} {key : Nat} (h : s.get? key = none) :
    s.remove key = (none, s) := by
  unfold remove
  split
  · rename_i v hv
    simp [get?_of_slots hv] at h
  · rfl

theorem get?_remove {s : Slab α} {key : Nat} {v : α} (h : s.get? key = some v) (j : Nat) :
    (s.remove key).2.get? j = if j = key then none else s.get? j := by
  have hk := (Array.getElem?_eq_some_iff.mp (slots_of_get? h)).1
  rw [remove_of_get? h]
  by_cases hi : j = key
  · subst hi
    simp [get?, hk]
  · simp [get?, hi, Ne.symm hi]

/-- What is there after a removal was there before. -/
theorem get?_of_remove {s : Slab α} {key : Nat} {v : α} (h : s.get? key = some v) {j : Nat} {u : α}
    (hj : (s.remove key).2.get? j = some u) : s.get? j = some u := by
  rw [get?_remove h] at hj
  split at hj
  · cases hj
  · exact hj

theorem total_remove {s : Slab α} {key : Nat} {v : α} (h : s.get? key = some v)
    (f : Nat → α → M) : (s.remove key).2.total f + f key v = s.total f := by
  rw [remove_of_get? h]
  simpa [total, slotTotal] using total_set (slotTotal f) (.vacant s.nextFree) (slots_of_get? h)

theorem Sized.remove {s : Slab α} (hs : s.Sized) {key : Nat} {v : α} (h : s.get? key = some v) :
    (s.remove key).2.Sized := by
  have ht := total_remove h fun _ _ => 1
  have hl : (s.remove key).2.len = s.len - 1 := by rw [remove_of_get? h]
  rw [Sized] at hs ⊢
  omega

/-! ### Changing a value -/

theorem modify_of_get? {s : Slab α} {key : Nat} {v : α} (h : s.get? key = some v) (g : α → α) :
    s.modify key g = { s with slots := s.slots.setIfInBounds key (.occupied (g v)) } := by
  simp [modify, slots_of_get? h]

theorem get?_modify (s : Slab α) (key : Nat) (g : α → α) (j : Nat) :
    (s.modify key g).get? j = if j = key then (s.get? j).map g else s.get? j := by
  cases h : s.get? key with
  | none =>
    -- A key without a value is not changed at all, so that neither is the key that is asked for.
    have hm : s.modify key g = s := by
      unfold modify
      split
      · rename_i v hv
        simp [get?_of_slots hv] at h
      · rfl
    rw [hm]
    by_cases hi : j = key
    · subst hi
      simp [h]
    · simp [hi]
  | some v =>
    have hk := (Array.getElem?_eq_some_iff.mp (slots_of_get? h)).1
    rw [modify_of_get? h]
    by_cases hi : j = key
    · subst hi
      rw [h]
      simp [get?, hk]
    · simp [get?, hi, Ne.symm hi]

theorem get?_modify_cases {s : Slab α} {key : Nat} {g : α → α} {j : Nat} {u : α}
    (h : (s.modify key g).get? j = some u) :
    (j = key ∧ ∃ v, s.get? key = some v ∧ u = g v) ∨ (j ≠ key ∧ s.get? j = some u) := by
  rw [get?_modify] at h
  split at h
  · rename_i hj
    obtain ⟨v, hv, rfl⟩ := Option.map_eq_some_iff.mp h
    exact .inl ⟨hj, v, hj ▸ hv, rfl⟩
  · rename_i hj
    exact .inr ⟨hj, h⟩

theorem total_modify {s : Slab α} {key : Nat} {v : α} (h : s.get? key = some v) (g : α → α)
    (f : Nat → α → M) : (s.modify key g).total f + f key v = s.total f + f key (g v) := by
  rw [modify_of_get? h]
  simpa [total, slotTotal] using total_set (slotTotal f) (.occupied (g v)) (slots_of_get? h)

/-! ### Numbered values

Closures and handles are numbered when they are made, and their numbers are put on a list when they
are done with. If the numbers in the slab and those on the list make up all numbers that were given,
each of them once, then no number is lost, and none is used twice. -/

section Numbered

variable {s : Slab α} {f : α → Nat} {done : List Nat} {m : Nat}

/-- Values that were given numbers one after another, and are in a slab or done with, have numbers
of their own. -/
theorem eq_of_numbered (h : (s.total fun _ v => ({f v} : Multiset Nat)) + done = Multiset.range m)
    {key key' : Nat} {v v' : α} (hv : s.get? key = some v) (hv' : s.get? key' = some v')
    (hn : f v' = f v) : key' = key := by
  by_contra hne
  have hrest : (s.remove key).2.get? key' = some v' := by rw [get?_remove hv, if_neg hne, hv']
  obtain ⟨r, hr⟩ := exists_total_eq (fun _ v => ({f v} : Multiset Nat)) hrest
  have hcount := congrArg (Multiset.count (f v)) h
  have hle := Multiset.nodup_iff_count_le_one.mp (Multiset.nodup_range m) (f v)
  rw [← total_remove hv, hr] at hcount
  simp only [Multiset.count_add, hn, Multiset.count_singleton_self] at hcount
  omega

/-- A number that was given is that of one value in the slab, or is done with once. -/
theorem numbered_cases (h : (s.total fun _ v => ({f v} : Multiset Nat)) + done = Multiset.range m)
    {n : Nat} (hn : n < m) :
    (∃ key v, s.get? key = some v ∧ f v = n) ∧ done.count n = 0 ∨
      (∀ key v, s.get? key = some v → f v ≠ n) ∧ done.count n = 1 := by
  have hcount := congrArg (Multiset.count n) h
  rw [Multiset.count_add, Multiset.count_eq_one_of_mem (Multiset.nodup_range _)
    (Multiset.mem_range.mpr hn), Multiset.coe_count] at hcount
  by_cases hmem : n ∈ s.total fun _ v => ({f v} : Multiset Nat)
  · have hpos := Multiset.count_pos.mpr hmem
    obtain ⟨key, v, hv, hnum⟩ := mem_total.mp hmem
    exact .inl ⟨⟨key, v, hv, (Multiset.mem_singleton.mp hnum).symm⟩, by omega⟩
  · rw [Multiset.count_eq_zero_of_notMem hmem] at hcount
    refine .inr ⟨fun key v hv heq => hmem ?_, by omega⟩
    exact mem_total.mpr ⟨key, v, hv, by simp [heq]⟩

end Numbered

end Slab

end WasmHost
