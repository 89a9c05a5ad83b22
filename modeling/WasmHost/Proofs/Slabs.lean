import Mathlib.Data.Finmap
import WasmHost.Proofs.Totals

/-!
# Slabs are maps with a stack of free keys

To its users, a slab is a finite map, a stack of the keys that are free, the one freed last on top,
and a number of slots. Here it is shown to answer like that, whatever is asked of it and in whatever
order, keys that were never handed out included.

What makes it so is the list that is threaded through the vacant slots. It starts at `nextFree`, has
every vacant slot in it once, in the order of the stack, and ends at the number of slots.

The keys of a slab are handed to users as numbers, so it matters which key comes next, and not only
that it is a new one. The reference therefore has the whole stack of free keys, and answers are
compared exactly. Of the slots it has only their number: there is no list that could be broken and no
counter that could be off, and the map alone says what is there.

The relation between the two is `Refines`. It is preserved by every request, and answers agree
because it holds (`answer`, and `answerAll` by induction). The obvious way would be to define the
stack of a slab, by following the list from its start, and to show that it changes as it should. But
following the list needs a bound on the number of steps, since nothing in the type rules out that it
runs in circles, and each operation changes the bound. With a relation, the stack is given, and that
it is the one in the slots is a property, which has no bound in it. That the list is not circular
comes from the keys being distinct. Only at the end is the stack found by following the list
(`chain_eq`), when it is known to be short enough.
-/

namespace WasmHost

/-- A map, a stack of free keys, and a number of slots. -/
structure ReferenceSlab (α : Type) where
  values : Finmap fun _ : Nat => α
  freed : List Nat
  slots : Nat

namespace Slab

variable {α : Type}

/-! ## What is asked, and what is answered

A request and its answer are data, so that a sequence of requests can be put to the slab and to the
reference alike. -/

/-- What can be asked of a slab. -/
inductive Request (α : Type) where
  | insert (value : α)
  | get (key : Nat)
  | remove (key : Nat)
  | len

/-- What it answers. -/
inductive Answer (α : Type) where
  | key (key : Nat)
  | value (value : Option α)
  | count (n : Nat)

/-- The answer to a request. -/
def answer (s : Slab α) : Request α → Answer α × Slab α
  | .insert v => (.key (s.insert v).1, (s.insert v).2)
  | .get key => (.value (s.get? key), s)
  | .remove key => (.value (s.remove key).1, (s.remove key).2)
  | .len => (.count s.len, s)

/-- The answers to requests that are made one after the other. -/
def answerAll {σ : Type} (answer : σ → Request α → Answer α × σ) (s : σ) :
    List (Request α) → List (Answer α) × σ
  | [] => ([], s)
  | r :: rs =>
    ((answer s r).1 :: (answerAll answer (answer s r).2 rs).1,
      (answerAll answer (answer s r).2 rs).2)

end Slab

namespace ReferenceSlab

variable {α : Type}

/-- No slots at all. -/
def empty : ReferenceSlab α := ⟨∅, [], 0⟩

/-- A value gets the key that was freed last, or a new one if none is free. -/
def insert (m : ReferenceSlab α) (v : α) : Nat × ReferenceSlab α :=
  match m.freed with
  | key :: rest => (key, ⟨m.values.insert key v, rest, m.slots⟩)
  | [] => (m.slots, ⟨m.values.insert m.slots v, [], m.slots + 1⟩)

/-- Takes out the value of a key, which is free from then on. -/
def remove (m : ReferenceSlab α) (key : Nat) : Option α × ReferenceSlab α :=
  match m.values.lookup key with
  | some v => (some v, ⟨m.values.erase key, key :: m.freed, m.slots⟩)
  | none => (none, m)

/-- The answer to a request. -/
def answer (m : ReferenceSlab α) : Slab.Request α → Slab.Answer α × ReferenceSlab α
  | .insert v => (.key (m.insert v).1, (m.insert v).2)
  | .get key => (.value (m.values.lookup key), m)
  | .remove key => (.value (m.remove key).1, (m.remove key).2)
  | .len => (.count m.values.keys.card, m)

end ReferenceSlab

namespace Slab

variable {α : Type}

/-! ## The list of vacant slots

The list ends at the number of slots, and that is where the next new slot will be. So inserting does
not have to tell the two cases apart before it knows the key, and `Threads` has the number of slots
in its first case. -/

/-- From a start, vacant slots name one another and then the number of slots. -/
def Threads (slots : Array (Slot α)) : Nat → List Nat → Prop
  | start, [] => start = slots.size
  | start, key :: rest =>
    start = key ∧ ∃ next, slots[key]? = some (.vacant next) ∧ Threads slots next rest

/-- A list goes through slots that have not changed as before. -/
theorem Threads.congr {slots slots' : Array (Slot α)} {start : Nat} {keys : List Nat}
    (h : Threads slots start keys) (hsize : slots'.size = slots.size)
    (hslots : ∀ key ∈ keys, slots'[key]? = slots[key]?) : Threads slots' start keys := by
  induction keys generalizing start with
  | nil => exact h.trans hsize.symm
  -- The slot of the first key is unchanged, so the list goes on from where it did.
  | cons key rest ih =>
    obtain ⟨rfl, next, hvacant, hrest⟩ := h
    refine ⟨rfl, next, ?_, ih hrest fun k hk => hslots k (List.mem_cons_of_mem _ hk)⟩
    rw [hslots _ (List.mem_cons_self ..), hvacant]

/-- With enough steps, the chain is the list that goes through the vacant slots. -/
theorem Threads.chainFrom_eq {s : Slab α} {start steps : Nat} {keys : List Nat}
    (h : Threads s.slots start keys) (hsteps : keys.length ≤ steps) :
    s.chainFrom steps start = keys := by
  induction keys generalizing start steps with
  | nil =>
    obtain rfl : start = s.slots.size := h
    cases steps <;> simp [chainFrom]
  | cons key rest ih =>
    obtain ⟨rfl, next, hvacant, hrest⟩ := h
    cases steps with
    | zero => simp at hsteps
    | succ steps => simp [chainFrom, hvacant, ih hrest (Nat.le_of_succ_le_succ hsteps)]

/-- The vacant slots of a slab are in order. -/
structure WellThreaded (s : Slab α) : Prop where
  /-- The chain that starts at `nextFree` leads from one vacant slot to the next, and to the number of
  slots in the end. -/
  threads : Threads s.slots s.nextFree s.chain
  /-- It comes by no slot twice. -/
  nodup : s.chain.Nodup
  /-- It comes by every vacant slot, and by no other. -/
  vacant : ∀ key, key ∈ s.chain ↔ ∃ next, s.slots[key]? = some (.vacant next)
  /-- It starts at a vacant slot, or there is none: never at a slot that is occupied, or beyond the
  place of the next new slot. -/
  head : s.nextFree = s.slots.size ∨ ∃ next, s.slots[s.nextFree]? = some (.vacant next)
  /-- So a value that is inserted gets a key that is not in use, and every other key keeps its value. -/
  fresh : ∀ v, s.get? (s.insert v).1 = none ∧
    ∀ key, key ≠ (s.insert v).1 → (s.insert v).2.get? key = s.get? key

/-! ## Agreement with the reference

The first four fields say where the stack is found in the slots. The last two say that values and
their number are those of the map. -/

/-- A slab is what the reference says. -/
structure Refines (s : Slab α) (m : ReferenceSlab α) : Prop where
  slots : s.slots.size = m.slots
  threads : Threads s.slots s.nextFree m.freed
  nodup : m.freed.Nodup
  vacant : ∀ key, key ∈ m.freed ↔ ∃ next, s.slots[key]? = some (.vacant next)
  values : ∀ key, s.get? key = m.values.lookup key
  len : s.len = m.values.keys.card

/-- One key more. -/
theorem card_keys_insert {m : Finmap fun _ : Nat => α} {key : Nat} (h : m.lookup key = none) (v : α) :
    (m.insert key v).keys.card = m.keys.card + 1 := by
  have hkeys : (m.insert key v).keys = Insert.insert key m.keys := by
    ext k
    simp [Finmap.mem_keys]
  rw [hkeys, Finset.card_insert_of_notMem]
  simpa [Finmap.mem_keys] using Finmap.lookup_eq_none.mp h

/-- One key less. -/
theorem card_keys_erase {m : Finmap fun _ : Nat => α} {key : Nat} {v : α}
    (h : m.lookup key = some v) : (m.erase key).keys.card = m.keys.card - 1 := by
  rw [Finmap.keys_erase]
  exact Finset.card_erase_of_mem (Finmap.mem_keys.mpr (Finmap.mem_of_lookup_eq_some h))

namespace Refines

variable {s : Slab α} {m : ReferenceSlab α}

theorem empty : Refines (Slab.empty : Slab α) ReferenceSlab.empty where
  slots := rfl
  threads := rfl
  nodup := .nil
  vacant key := by simp [ReferenceSlab.empty, Slab.empty]
  values key := by simp [ReferenceSlab.empty]
  len := rfl

/-- The values stay what the reference has when one is inserted under a key that is not in use. -/
theorem lookup_insert (h : Refines s m) (v : α) (key : Nat) :
    (s.insert v).2.get? key = (m.values.insert (s.insert v).1 v).lookup key := by
  rw [get?_insert]
  by_cases hk : key = (s.insert v).1
  · rw [if_pos hk, hk, Finmap.lookup_insert]
  · rw [if_neg hk, Finmap.lookup_insert_of_ne _ hk, h.values]

/-- The two cases are those of the stack. The answers agree because both take the key on top, or the
next that there is. In either case the list behind the key is untouched. -/
theorem insert (h : Refines s m) (v : α) :
    (s.insert v).1 = (m.insert v).1 ∧ Refines (s.insert v).2 (m.insert v).2 := by
  have hlookup := h.lookup_insert v
  have hlen := card_keys_insert (h.values _ ▸ get?_insert_self s v) v
  obtain ⟨values, freed, slots⟩ := m
  cases freed with
  | nil =>
    -- Nothing is free: `nextFree` is the number of slots, where a new one is added.
    have hnext : s.nextFree = s.slots.size := h.threads
    have hins : s.insert v =
        (s.slots.size, ⟨s.slots.push (.occupied v), s.slots.size + 1, s.len + 1⟩) := by
      simp [Slab.insert, hnext]
    obtain rfl : s.slots.size = slots := h.slots
    simp only [hins] at hlookup hlen ⊢
    refine ⟨rfl, ⟨by simp [ReferenceSlab.insert], by simp [ReferenceSlab.insert, Threads],
      .nil, fun key => ?_, hlookup, ?_⟩⟩
    · have hnone := h.vacant key
      simp only [List.not_mem_nil, false_iff, not_exists] at hnone
      simp only [ReferenceSlab.insert, List.not_mem_nil, false_iff, not_exists, Array.getElem?_push]
      intro next
      split
      · simp
      · exact hnone next
    · exact (congrArg (· + 1) h.len).trans hlen.symm
  | cons key rest =>
    -- The slot on top of the stack is filled, and the list goes on behind it.
    obtain ⟨hnext, next, hvacant, hrest⟩ := h.threads
    obtain ⟨hkey, hnodup⟩ := List.nodup_cons.mp h.nodup
    have hlt := (Array.getElem?_eq_some_iff.mp hvacant).1
    have hins : s.insert v = (key, ⟨s.slots.setIfInBounds key (.occupied v), next, s.len + 1⟩) := by
      simp [Slab.insert, hnext, hvacant]
    simp only [hins] at hlookup hlen ⊢
    refine ⟨rfl, ⟨by simpa [ReferenceSlab.insert] using h.slots, ?_, hnodup, fun k => ?_, hlookup, ?_⟩⟩
    · refine hrest.congr (by simp) fun k hk => ?_
      have hne : key ≠ k := fun hkk => hkey (hkk ▸ hk)
      simp [hne]
    · have hk := h.vacant k
      by_cases hkk : key = k
      · subst hkk
        simp [ReferenceSlab.insert, hkey, hlt]
      · simpa [ReferenceSlab.insert, hkk, Ne.symm hkk] using hk
    · exact (congrArg (· + 1) h.len).trans hlen.symm

/-- A key without a value changes nothing on either side. Otherwise its slot becomes the head of the
list; it was not in the list before, since it was occupied. -/
theorem remove (h : Refines s m) (key : Nat) :
    (s.remove key).1 = (m.remove key).1 ∧ Refines (s.remove key).2 (m.remove key).2 := by
  have hvalue := h.values key
  unfold ReferenceSlab.remove
  cases hv : m.values.lookup key with
  | none =>
    rw [remove_of_get?_none (hvalue.trans hv)]
    exact ⟨rfl, h⟩
  | some v =>
    have hget := hvalue.trans hv
    have hslot := slots_of_get? hget
    have hlt := (Array.getElem?_eq_some_iff.mp hslot).1
    -- A slot that is occupied is not vacant, so its key is not on the stack yet.
    have hkey : key ∉ m.freed := fun hmem => by
      obtain ⟨next, hn⟩ := (h.vacant key).mp hmem
      simp [hslot] at hn
    have hlookup : ∀ k, (s.remove key).2.get? k = (m.values.erase key).lookup k := fun k => by
      rw [get?_remove hget]
      by_cases hk : k = key
      · rw [if_pos hk, hk, Finmap.lookup_erase]
      · rw [if_neg hk, Finmap.lookup_erase_ne hk, h.values]
    rw [remove_of_get? hget] at hlookup ⊢
    refine ⟨rfl, ⟨by simpa using h.slots, ⟨rfl, s.nextFree, by simp [hlt], ?_⟩,
      List.nodup_cons.mpr ⟨hkey, h.nodup⟩, fun k => ?_, hlookup, ?_⟩⟩
    · refine h.threads.congr (by simp) fun k hk => ?_
      have hne : key ≠ k := fun hkk => hkey (hkk ▸ hk)
      simp [hne]
    · have hk := h.vacant k
      by_cases hkk : key = k
      · subst hkk
        simp [hlt]
      · simpa [hkk, Ne.symm hkk] using hk
    · exact (congrArg (· - 1) h.len).trans (card_keys_erase hv).symm

/-- A request is answered as the reference answers it. -/
theorem answer (h : Refines s m) (r : Request α) :
    (s.answer r).1 = (m.answer r).1 ∧ Refines (s.answer r).2 (m.answer r).2 := by
  cases r with
  | insert v => exact ⟨congrArg Answer.key (h.insert v).1, (h.insert v).2⟩
  | get key => exact ⟨congrArg Answer.value (h.values key), h⟩
  | remove key => exact ⟨congrArg Answer.value (h.remove key).1, (h.remove key).2⟩
  | len => exact ⟨congrArg Answer.count h.len, h⟩

/-- All requests are answered as the reference answers them. -/
theorem answerAll (h : Refines s m) (rs : List (Request α)) :
    (Slab.answerAll Slab.answer s rs).1 = (Slab.answerAll ReferenceSlab.answer m rs).1 ∧
      Refines (Slab.answerAll Slab.answer s rs).2 (Slab.answerAll ReferenceSlab.answer m rs).2 := by
  induction rs generalizing s m with
  | nil => exact ⟨rfl, h⟩
  | cons r rs ih =>
    obtain ⟨hanswer, hnext⟩ := h.answer r
    obtain ⟨hanswers, hlast⟩ := ih hnext
    exact ⟨congrArg₂ List.cons hanswer hanswers, hlast⟩

/-- The stack of the reference is the chain. -/
theorem chain_eq (h : Refines s m) : s.chain = m.freed := by
  refine h.threads.chainFrom_eq ?_
  -- There are at most as many free keys as slots, since they are distinct.
  have hsub : m.freed ⊆ List.range s.slots.size := fun key hkey => by
    obtain ⟨next, hvacant⟩ := (h.vacant key).mp hkey
    exact List.mem_range.mpr (Array.getElem?_eq_some_iff.mp hvacant).1
  simpa using (h.nodup.subperm hsub).length_le

theorem wellThreaded (h : Refines s m) : s.WellThreaded where
  threads := h.chain_eq ▸ h.threads
  nodup := h.chain_eq ▸ h.nodup
  vacant := h.chain_eq ▸ h.vacant
  head := by
    have ht := h.threads
    cases hf : m.freed with
    | nil =>
      rw [hf] at ht
      exact .inl ht
    | cons key rest =>
      rw [hf] at ht
      obtain ⟨rfl, next, hvacant, -⟩ := ht
      exact .inr ⟨next, hvacant⟩
  fresh v := ⟨get?_insert_self s v, fun key hk => by rw [get?_insert, if_neg hk]⟩

end Refines

/-- Whatever is asked of a slab from the start, every answer is that of a map with a stack of free
keys, and the list of vacant slots is in order. -/
theorem answers_eq_reference (rs : List (Request α)) :
    (answerAll answer empty rs).1 = (answerAll ReferenceSlab.answer .empty rs).1 ∧
      (answerAll answer (empty : Slab α) rs).2.WellThreaded := by
  obtain ⟨hanswers, hlast⟩ := Refines.empty.answerAll rs
  exact ⟨hanswers, hlast.wellThreaded⟩

end Slab

end WasmHost
