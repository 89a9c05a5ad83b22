import WasmHost.Proofs.Handles

/-!
# What values stand for

A value of the host, a packed value and a value of the guest may stand for the same: the same bits,
the same function of a store, the same host object. Each conversion gives something that stands for
what it was given. Origins keep their objects and stores keep the origins they hold, whatever is
released in the meantime (`World.Preserves`, `World.Settles`).

The same function may have any number of handles, and the same host object any number of origins, so
values cannot be compared: a function that goes through a global comes back under another handle.
What can be compared is what they stand for, a `Sense`, and there are three relations to it, one for
each of the forms in which a value exists: `Means` for values of the host, `Packs` for packed values
and `Holds` for values of the guest. They are relations and not functions, because only some values
stand for anything. A handle that has been reclaimed does not, nor does an origin of which the store
has no copy; and that conversions never meet such a value is part of what is proved.

A conversion takes several steps, and other things happen between them: queues are drained, origins
released, handles reclaimed. None of it may change what a value stands for. `Preserves` and
`Settles` are two orders on worlds that all of these steps go up in, and in which the relations are
monotone; so nothing has to be said about any step twice. `Settles` is the finer one, for steps that
touch no guest part and make no handle.
-/

namespace WasmHost.Host

open Act

variable {κ σ α β : Type}

/-- What a value stands for in a store, whoever has it: bits, a function of the store by its place,
or a host object. -/
inductive Sense where
  | i32 (bits : BitVec 32)
  | i64 (bits : BitVec 64)
  | f32 (bits : BitVec 32)
  | f64 (bits : BitVec 64)
  | func (place : Option Nat)
  | object (o : Option ObjectId)
  deriving DecidableEq, Repr

namespace World

/-- A handle of a store is owned, and is that of the item at a place. -/
def ItemHandle (w : World κ σ) (s : Nat) (h : Handle) (p : Guest.Place) : Prop :=
  ∃ c, w.heap.get? h = some c ∧ 0 < c.shares ∧ c.store = s ∧ c.target = .item s p

/-- A handle of a store is owned, and is that of the function at a place. -/
abbrev FuncHandle (w : World κ σ) (s : Nat) (h : Handle) (i : Nat) : Prop :=
  w.ItemHandle s h (.func i)

/-- What a value of the host stands for in a store that it belongs to. -/
inductive Means (w : World κ σ) (s : Nat) : Val → Sense → Prop
  | i32 (x : BitVec 32) : Means w s (.i32 x) (.i32 x)
  | i64 (x : BitVec 64) : Means w s (.i64 x) (.i64 x)
  | f32 (x : BitVec 32) : Means w s (.f32 x) (.f32 x)
  | f64 (x : BitVec 64) : Means w s (.f64 x) (.f64 x)
  | null : Means w s (.funcref none) (.func none)
  | func {h i : Nat} (hf : w.FuncHandle s h i) : Means w s (.funcref (some h)) (.func (some i))
  | object (o : Option ObjectId) : Means w s (.externref o) (.object o)

/-- What a packed value stands for. -/
inductive Packs (w : World κ σ) {t : Nat} : Packed t → Sense → Prop
  | i32 (x : BitVec 32) : Packs w (.i32 x) (.i32 x)
  | i64 (x : BitVec 64) : Packs w (.i64 x) (.i64 x)
  | f32 (x : BitVec 32) : Packs w (.f32 x) (.f32 x)
  | f64 (x : BitVec 64) : Packs w (.f64 x) (.f64 x)
  | func (i : Option Nat) : Packs w (.funcref i) (.func i)
  | null : Packs w (.externref none) (.object none)
  | object {g : Nat} {c : OriginCell} (hg : w.origins[g]? = some c) :
      Packs w (.externref (some g)) (.object (some c.object))

/-- What a value of the guest stands for in a store, which holds the origins of host objects. -/
inductive Holds (w : World κ σ) (s : Nat) : Guest.Value → Sense → Prop
  | i32 (x : BitVec 32) : Holds w s (.i32 x) (.i32 x)
  | i64 (x : BitVec 64) : Holds w s (.i64 x) (.i64 x)
  | f32 (x : BitVec 32) : Holds w s (.f32 x) (.f32 x)
  | f64 (x : BitVec 64) : Holds w s (.f64 x) (.f64 x)
  | func (i : Option Nat) : Holds w s (.ref (.func i)) (.func i)
  | null : Holds w s (.ref (.object none)) (.object none)
  | object {g : Nat} {c : OriginCell} {d : StoreCell} (hg : w.origins[g]? = some c)
      (hd : w.stores[s]? = some d) (hheld : g ∈ d.held) :
      Holds w s (.ref (.object (some g))) (.object (some c.object))

/-! ## What stays in place -/

/-- Origins keep their objects and stores what they hold, closures stay registered, and no host
function is called. -/
structure Preserves (w w' : World κ σ) : Prop where
  origins : ∀ (g : Nat) c, w.origins[g]? = some c →
    ∃ c', w'.origins[g]? = some c' ∧ c'.object = c.object
  held : ∀ (s : Nat) c, w.stores[s]? = some c →
    ∃ c', w'.stores[s]? = some c' ∧ ∀ g ∈ c.held, g ∈ c'.held
  registry : w'.registry = w.registry
  entries : w'.chronicle.entries = w.chronicle.entries

/-- Guest parts stay as well, and no handle comes to stand for something else. -/
structure Settles (w w' : World κ σ) : Prop extends Preserves w w' where
  guests : ∀ s, w'.guest? s = w.guest? s
  handles : ∀ a c', w'.heap.get? a = some c' →
    ∃ c, w.heap.get? a = some c ∧ c'.store = c.store ∧ c'.target = c.target

variable {w w' w'' : World κ σ} {s : Nat}

namespace Preserves

theorem refl (w : World κ σ) : w.Preserves w :=
  ⟨fun _ c h => ⟨c, h, rfl⟩, fun _ c h => ⟨c, h, fun _ hg => hg⟩, rfl, rfl⟩

theorem trans (h : w.Preserves w') (h' : w'.Preserves w'') : w.Preserves w'' where
  origins g c hc := by
    obtain ⟨c', hc', ho⟩ := h.origins g c hc
    obtain ⟨c'', hc'', ho'⟩ := h'.origins g c' hc'
    exact ⟨c'', hc'', ho'.trans ho⟩
  held s c hc := by
    obtain ⟨c', hc', hh⟩ := h.held s c hc
    obtain ⟨c'', hc'', hh'⟩ := h'.held s c' hc'
    exact ⟨c'', hc'', fun g hg => hh' g (hh g hg)⟩
  registry := h'.registry.trans h.registry
  entries := h'.entries.trans h.entries

/-- A store that holds no less than before. -/
theorem modifyStore (w : World κ σ) (s : Nat) {f : StoreCell → StoreCell}
    (hf : ∀ c, ∀ g ∈ c.held, g ∈ (f c).held) : w.Preserves (w.modifyStore s f) where
  origins _ c h := ⟨c, h, rfl⟩
  held t c h := by
    by_cases ht : s = t
    · exact ⟨f c, by simp [World.modifyStore, Array.getElem?_modify, ht, h], hf c⟩
    · exact ⟨c, by simp [World.modifyStore, Array.getElem?_modify, ht, h], fun _ hg => hg⟩
  registry := rfl
  entries := rfl

end Preserves

theorem Packs.preserved {t : Nat} {p : Packed t} {x : Sense} (h : w.Packs p x) (hw : w.Preserves w') :
    w'.Packs p x := by
  cases h with
  | object hg =>
    obtain ⟨c', hc', ho⟩ := hw.origins _ _ hg
    exact ho ▸ .object hc'
  | _ => constructor

theorem Holds.preserved {v : Guest.Value} {x : Sense} (h : w.Holds s v x) (hw : w.Preserves w') :
    w'.Holds s v x := by
  cases h with
  | object hg hd hheld =>
    obtain ⟨c', hc', ho⟩ := hw.origins _ _ hg
    obtain ⟨d', hd', hh⟩ := hw.held _ _ hd
    exact ho ▸ .object hc' hd' (hh _ hheld)
  | _ => constructor

namespace Settles

theorem refl (w : World κ σ) : w.Settles w :=
  ⟨.refl w, fun _ => rfl, fun _ c h => ⟨c, h, rfl, rfl⟩⟩

theorem trans (h : w.Settles w') (h' : w'.Settles w'') : w.Settles w'' where
  toPreserves := h.toPreserves.trans h'.toPreserves
  guests s := (h'.guests s).trans (h.guests s)
  handles a c'' hc := by
    obtain ⟨c', hc', hs', ht'⟩ := h'.handles a c'' hc
    obtain ⟨c, hc, hs, ht⟩ := h.handles a c' hc'
    exact ⟨c, hc, hs'.trans hs, ht'.trans ht⟩

/-- A store that holds no less than before, with the same guest part. -/
theorem modifyStore (w : World κ σ) (s : Nat) {f : StoreCell → StoreCell}
    (hg : ∀ c, (f c).guest = c.guest) (hh : ∀ c, ∀ g ∈ c.held, g ∈ (f c).held) :
    w.Settles (w.modifyStore s f) where
  toPreserves := .modifyStore w s hh
  guests t := by
    simp only [World.guest?, World.modifyStore, Array.getElem?_modify]
    split
    · cases w.stores[t]? <;> simp [hg]
    · rfl
  handles _ c h := ⟨c, h, rfl, rfl⟩

/-- A change of how often a handle is shared. -/
theorem modifyHandle (w : World κ σ) (a : Handle) (f : Nat → Nat) :
    w.Settles { w with heap := w.heap.modify a fun c => { c with shares := f c.shares } } where
  toPreserves := ⟨fun _ c h => ⟨c, h, rfl⟩, fun _ c h => ⟨c, h, fun _ hg => hg⟩, rfl, rfl⟩
  guests _ := rfl
  handles b c' h := by
    obtain ⟨rfl, c, hc, rfl⟩ | ⟨-, hc⟩ := Slab.get?_modify_cases h
    · exact ⟨c, hc, rfl, rfl⟩
    · exact ⟨c', hc, rfl, rfl⟩

end Settles

/-! ## Releasing

Releasing takes away shares, handles, origins, whole stores. What values stand for depends on none
of these directly: an origin keeps its object even when its count is zero. -/

theorem reclaim_settles (w : World κ σ) (a : Handle) : w.Settles (w.reclaim a) := by
  cases h : w.heap.get? a with
  | none =>
    rw [reclaim, Slab.remove_of_get?_none h]
    exact ⟨⟨fun _ c h => ⟨c, h, rfl⟩, fun _ c h => ⟨c, h, fun _ hg => hg⟩, rfl, rfl⟩, fun _ => rfl,
      fun _ c h => ⟨c, h, rfl, rfl⟩⟩
  | some cell =>
    rw [reclaim_eq h]
    exact ⟨⟨fun _ c h => ⟨c, h, rfl⟩, fun _ c h => ⟨c, h, fun _ hg => hg⟩, rfl, rfl⟩, fun _ => rfl,
      fun _ c hc => ⟨c, Slab.get?_of_remove h hc, rfl, rfl⟩⟩

theorem drain_settles (w : World κ σ) (s : Nat) : w.Settles (w.drain s) := by
  have hnext : ∀ w : World κ σ, w.Settles (w.reclaimNext s) := by
    intro w
    unfold reclaimNext
    split
    · exact .refl w
    · refine Settles.trans ?_ (reclaim_settles _ _)
      exact .modifyStore w s (fun _ => rfl) fun _ _ hg => hg
  have hbegin : w.Settles (w.beginDrain s).2 := by
    rw [beginDrain_eq]
    exact .modifyStore w s (fun _ => rfl) fun _ _ hg => hg
  exact drain_induction s hbegin fun w' h => h.trans (hnext w')

theorem releaseEngine_settles (w : World κ σ) (e : Nat) : w.Settles (w.releaseEngine e) := by
  unfold releaseEngine
  split
  · exact .refl w
  · dsimp only
    split <;>
      exact ⟨⟨fun _ c h => ⟨c, h, rfl⟩, fun _ c h => ⟨c, h, fun _ hg => hg⟩, rfl, rfl⟩, fun _ => rfl,
        fun _ c h => ⟨c, h, rfl, rfl⟩⟩

theorem dismissStore_settles (w : World κ σ) (s : Nat) : w.Settles (w.dismissStore s).2 := by
  unfold dismissStore
  split
  · exact .refl w
  · refine Settles.trans ?_ (.modifyStore _ s (fun _ => rfl) fun _ _ hg => hg)
    split
    · exact drain_settles w s
    · exact .refl w

theorem fault_settles (w : World κ σ) (f : Fault) : w.Settles (w.fault f) :=
  ⟨⟨fun _ c h => ⟨c, h, rfl⟩, fun _ c h => ⟨c, h, fun _ hg => hg⟩, rfl, rfl⟩, fun _ => rfl,
    fun _ c h => ⟨c, h, rfl, rfl⟩⟩

theorem retire_settles (w : World κ σ) (a : Handle) : w.Settles (w.retire a).2 := by
  have henqueue : ∀ (w : World κ σ) (s : Nat), w.Settles (w.enqueue s a) := by
    intro w s
    unfold enqueue
    split
    · exact .modifyStore w s (fun _ => rfl) fun _ _ hg => hg
    · exact fault_settles w _
  unfold retire
  split
  · exact fault_settles w _
  · split
    · exact fault_settles w _
    · have hmodify := Settles.modifyHandle w a (· - 1)
      dsimp only
      split
      · exact hmodify.trans (henqueue _ _)
      · exact hmodify

theorem reduceObject_settles (w : World κ σ) (o : ObjectId) (f : ObjectCell → ObjectCell) :
    w.Settles (w.reduceObject o f).2 := by
  unfold reduceObject
  split
  · exact .refl w
  · exact ⟨⟨fun _ c h => ⟨c, h, rfl⟩, fun _ c h => ⟨c, h, fun _ hg => hg⟩, rfl, rfl⟩, fun _ => rfl,
      fun _ c h => ⟨c, h, rfl, rfl⟩⟩

/-- A change of how many copies of an origin there are. -/
theorem modifyOrigin_settles (w : World κ σ) (g : Nat) (f : Nat → Nat) :
    w.Settles
      { w with origins := w.origins.modify g fun c => { c with copies := f c.copies } } where
  origins i c h := by
    by_cases hi : g = i
    · exact ⟨{ c with copies := f c.copies }, by simp [Array.getElem?_modify, hi, h], rfl⟩
    · exact ⟨c, by simp [Array.getElem?_modify, hi, h], rfl⟩
  held _ c h := ⟨c, h, fun _ hg => hg⟩
  registry := rfl
  entries := rfl
  guests _ := rfl
  handles _ c h := ⟨c, h, rfl, rfl⟩

theorem dismissOrigin_settles (w : World κ σ) (g : Nat) : w.Settles (w.dismissOrigin g).2 := by
  unfold dismissOrigin
  split
  · exact .refl w
  · have hmodify := modifyOrigin_settles w g (· - 1)
    dsimp only
    split
    · exact hmodify.trans (reduceObject_settles _ _ _)
    · exact hmodify

end World

/-- An action always gives a value, and settles what it changes. -/
def Act.Settling (m : Act κ σ α) : Prop := ∀ w, ∃ a w', m.run w = (.value a, w') ∧ w.Settles w'

namespace Act.Settling

theorem pure {a : α} : Settling (Pure.pure a : Act κ σ α) := fun w => ⟨a, w, rfl, .refl w⟩

theorem bind {m : Act κ σ β} {k : β → Act κ σ α} (hm : Settling m) (hk : ∀ b, Settling (k b)) :
    Settling (m >>= k) := by
  intro w
  obtain ⟨b, w₁, h₁, hw₁⟩ := hm w
  obtain ⟨a, w₂, h₂, hw₂⟩ := hk b w₁
  exact ⟨a, w₂, (run_bind_value h₁).trans h₂, hw₁.trans hw₂⟩

theorem make {f : World κ σ → α × World κ σ} (hf : ∀ w : World κ σ, w.Settles (f w).2) :
    Settling (Act.make f) := fun w => ⟨_, _, rfl, hf w⟩

theorem update {f : World κ σ → World κ σ} (hf : ∀ w : World κ σ, w.Settles (f w)) :
    Settling (Act.update f) := make hf

end Act.Settling

/-- What settles at the end of an action makes no difference to how it ends. -/
theorem Act.run_ensuring_settling {cleanup : Act κ σ Unit} (hc : Settling cleanup) (m : Act κ σ α)
    (w : World κ σ) :
    ∃ w', (ensuring cleanup m).run w = ((m.run w).1, w') ∧ (m.run w).2.Settles w' ∧
      (w' = (m.run w).2 ∨ w' = (cleanup.run (m.run w).2).2) := by
  obtain ⟨⟨⟩, w', hrun, hw'⟩ := hc (m.run w).2
  cases hends : (m.run w).1.ends with
  | true => exact ⟨w', run_ensuring hends rfl hrun, hw', .inr (by rw [hrun])⟩
  | false =>
    refine ⟨(m.run w).2, ?_, .refl _, .inl rfl⟩
    rw [Act.ensuring, run_after, hends]
    rfl

theorem releaseHandle_settling (a : Handle) : Settling (releaseHandle a : Act κ σ Unit) := by
  refine .bind (.make fun w => w.retire_settles a) fun o => ?_
  cases o with
  | none => exact .pure
  | some s =>
    refine .bind (.make fun w => w.dismissStore_settles s) fun e => ?_
    cases e with
    | none => exact .pure
    | some e => exact .update fun w => w.releaseEngine_settles e

theorem releaseWrappers_settling (xs : List Wrapper) :
    Settling (releaseWrappers xs : Act κ σ Unit) := by
  induction xs with
  | nil => exact .pure
  | cons x xs ih => exact .bind (releaseHandle_settling x.handle) fun _ => ih

theorem releaseItems_settling (items : List Item) : Settling (releaseItems items : Act κ σ Unit) :=
  releaseWrappers_settling (items.map Item.wrapper)

theorem releasePacked_settling {t : Nat} (p : Packed t) : Settling (releasePacked p : Act κ σ Unit) := by
  unfold releasePacked
  split
  · exact .bind (.make fun w => w.dismissOrigin_settles _) releaseWrappers_settling
  · exact .pure

theorem releasePackedAll_settling {t : Nat} (ps : List (Packed t)) :
    Settling (releasePackedAll ps : Act κ σ Unit) := by
  induction ps with
  | nil => exact .pure
  | cons p ps ih => exact .bind (releasePacked_settling p) fun _ => ih

theorem releaseVals_settling (vs : List Val) : Settling (releaseVals vs : Act κ σ Unit) := by
  induction vs with
  | nil => exact .pure
  | cons v vs ih =>
    refine .bind ?_ fun _ => ih
    unfold releaseVal
    split
    · exact releaseHandle_settling _
    · exact .bind (.make fun w => w.reduceObject_settles _ _) releaseWrappers_settling
    · exact .pure

/-! ## Conversions

One lemma for each conversion, all of one form: if it is given something that stands for `x`, it
gives something that stands for `x`, and the world it leaves is settled. That it gives anything at
all is part of the statement. -/

section Conversions

variable {w : World κ σ} {s : Nat}

/-- What belongs to a store is handed over to be used in it. -/
theorem Act.run_hand (s : Nat) : (hand s s : Act κ σ Unit).run w = (.value (), w) := by
  rw [hand, if_pos rfl]
  rfl

/-- An item of a store is found at its place. -/
theorem Act.run_place {a : Handle} {p : Guest.Place} (h : w.ItemHandle s a p) :
    (place s a : Act κ σ Guest.Place).run w = (.value p, w) := by
  obtain ⟨c, hc, hpos, rfl, htarget⟩ := h
  refine (run_bind_value (run_check hc hpos)).trans ?_
  rw [htarget]
  exact run_bind_value (run_hand c.store)

theorem Act.run_funcPlace {a i : Nat} (h : w.FuncHandle s a i) :
    (funcPlace s a : Act κ σ Nat).run w = (.value i, w) := run_bind_value (run_place h)

/-- A handle that is still owned is that of the same item. -/
theorem World.ItemHandle.settled {w' : World κ σ} {a : Handle} {p : Guest.Place} {c' : HandleCell}
    (h : w.ItemHandle s a p) (hw : ∀ a c', w'.heap.get? a = some c' →
      ∃ c, w.heap.get? a = some c ∧ c'.store = c.store ∧ c'.target = c.target)
    (hc' : w'.heap.get? a = some c') (hpos : 0 < c'.shares) : w'.ItemHandle s a p := by
  obtain ⟨c, hc, -, hs, ht⟩ := h
  obtain ⟨d, hd, hs', ht'⟩ := hw a c' hc'
  obtain rfl : c = d := Option.some.inj (hc.symm.trans hd)
  exact ⟨c', hc', hpos, hs'.trans hs, ht'.trans ht⟩

theorem World.newOrigin_settles (w : World κ σ) (o : ObjectId) : w.Settles (w.newOrigin o).2 where
  origins g c h := by
    have hlt := (Array.getElem?_eq_some_iff.mp h).1
    exact ⟨c, by simp [newOrigin, Array.getElem?_push, hlt.ne, h], rfl⟩
  held _ c h := ⟨c, h, fun _ hg => hg⟩
  registry := rfl
  entries := rfl
  guests _ := rfl
  handles _ c h := ⟨c, h, rfl, rfl⟩

/-- What is packed stands for the same. -/
theorem run_pack {v : Val} {x : Sense} (h : w.Means s v x) :
    ∃ p w', (pack s v : Act κ σ (Packed s)).run w = (.value p, w') ∧ w'.Packs p x ∧ w.Settles w' ∧
      w'.heap = w.heap := by
  cases h with
  | @func a i hf => exact ⟨_, w, run_bind_value (run_funcPlace hf), .func (some i), .refl w, rfl⟩
  | object o =>
    cases o with
    | none => exact ⟨_, w, rfl, .null, .refl w, rfl⟩
    | some o =>
      refine ⟨_, (w.newOrigin o).2, rfl, ?_, w.newOrigin_settles o, rfl⟩
      exact .object (c := ⟨o, 1⟩) (by simp [World.newOrigin])
  | _ => exact ⟨_, w, rfl, by constructor, .refl w, rfl⟩

theorem World.Means.of_heap {w' : World κ σ} {v : Val} {x : Sense} (h : w.Means s v x)
    (hw : w'.heap = w.heap) : w'.Means s v x := by
  cases h with
  | func hf =>
    refine .func ?_
    rwa [FuncHandle, ItemHandle, hw]
  | _ => constructor

theorem World.hold_settles (w : World κ σ) (s g : Nat) : w.Settles (w.hold s g) :=
  (w.modifyOrigin_settles g (· + 1)).trans
    (.modifyStore _ s (fun _ => rfl) fun _ _ h => List.mem_append_left _ h)

/-- What a store takes a copy of, it holds. -/
theorem run_adopt {p : Packed s} {x : Sense} {d : StoreCell} (h : w.Packs p x)
    (hd : w.stores[s]? = some d) : ∃ v w', (adopt s p : Act κ σ Guest.Value).run w = (.value v, w') ∧
      w'.Holds s v x ∧ w.Settles w' := by
  cases h with
  | @object g c hg =>
    refine ⟨_, w.hold s g, rfl, ?_, w.hold_settles s g⟩
    refine .object (c := { c with copies := c.copies + 1 })
      (d := { d with held := d.held ++ [g] }) ?_ ?_ (by simp)
    · simp [World.hold, World.retainOrigin, World.modifyStore, Array.getElem?_modify, hg]
    · simp [World.hold, World.retainOrigin, World.modifyStore, Array.getElem?_modify, hd]
  | func i =>
    cases i with
    | none => exact ⟨_, w, rfl, .func none, .refl w⟩
    | some i => exact ⟨_, w, run_bind_value (run_hand s), .func (some i), .refl w⟩
  | _ => exact ⟨_, w, rfl, by constructor, .refl w⟩

/-- A packed copy of what a store holds stands for the same. -/
theorem run_expose {v : Guest.Value} {x : Sense} (h : w.Holds s v x) :
    ∃ p w', (expose s v : Act κ σ (Except EngineFault (Packed s))).run w = (.value (.ok p), w') ∧
      w'.Packs p x ∧ w.Settles w' := by
  cases h with
  | @object g c d hg hd hheld =>
    refine ⟨.externref (some g), w.retainOrigin g, ?_, ?_, w.modifyOrigin_settles g (· + 1)⟩
    · have hcopy : w.copyHeld s g = (true, w.retainOrigin g) := by
        simp [World.copyHeld, hd, hheld]
      exact run_bind_value (run_make (f := (·.copyHeld s g)) hcopy)
    · exact .object (c := { c with copies := c.copies + 1 })
        (by simp [World.retainOrigin, Array.getElem?_modify, hg])
  | _ => exact ⟨_, w, rfl, by constructor, .refl w⟩

/-- A new handle takes the place of no other. -/
theorem World.FuncHandle.newHandle {a i : Nat} (h : w.FuncHandle s a i) (t : Nat) (target : Target) :
    (w.newHandle t target).2.FuncHandle s a i := by
  obtain ⟨c, hc, hrest⟩ := h
  refine ⟨c, ?_, hrest⟩
  have hfresh := Slab.get?_insert_self w.heap ⟨t, target, 1, w.chronicle.allocated.size⟩
  refine (Slab.get?_insert w.heap _ a).trans ?_
  rw [if_neg ?_, hc]
  rintro rfl
  rw [hc] at hfresh
  cases hfresh

theorem World.newHandle_preserves (w : World κ σ) (t : Nat) (target : Target) :
    w.Preserves (w.newHandle t target).2 where
  origins _ c h := ⟨c, h, rfl⟩
  held u c h := by
    have hw := Preserves.modifyStore w t (f := fun c => { c with shares := c.shares + 1 })
      fun _ _ hg => hg
    exact hw.held u c h
  registry := rfl
  entries := rfl

/-- What is unpacked stands for the same, and what other values stand for stays. -/
theorem run_unpack {p : Packed s} {x : Sense} (h : w.Packs p x) :
    ∃ v w', (unpack s p : Act κ σ Val).run w = (.value v, w') ∧ w'.Means s v x ∧ w.Preserves w' ∧
      ∀ a i, w.FuncHandle s a i → w'.FuncHandle s a i := by
  cases h with
  | func i =>
    cases i with
    | none => exact ⟨_, w, rfl, .null, .refl w, fun _ _ h => h⟩
    | some i =>
      refine ⟨_, (w.newHandle s (.item s (.func i))).2, rfl, .func ?_, w.newHandle_preserves _ _,
        fun _ _ h => h.newHandle _ _⟩
      refine ⟨⟨s, .item s (.func i), 1, w.chronicle.allocated.size⟩, ?_, Nat.one_pos, rfl, rfl⟩
      exact (Slab.get?_insert w.heap _ _).trans (if_pos rfl)
  | @object g c hg =>
    have hretain : w.retainObjectOf g = (some c.object, w.retainObject c.object) := by
      simp [World.retainObjectOf, hg]
    exact ⟨_, w.retainObject c.object, run_bind_value (run_make (f := (·.retainObjectOf g)) hretain), .object _,
      ⟨fun _ c h => ⟨c, h, rfl⟩, fun _ c h => ⟨c, h, fun _ hg => hg⟩, rfl, rfl⟩, fun _ _ h => h⟩
  | _ => exact ⟨_, w, rfl, by constructor, .refl w, fun _ _ h => h⟩

theorem World.Means.carried {w' : World κ σ} {v : Val} {x : Sense} (h : w.Means s v x)
    (hw : ∀ a i, w.FuncHandle s a i → w'.FuncHandle s a i) : w'.Means s v x := by
  cases h with
  | func hf => exact .func (hw _ _ hf)
  | _ => constructor

end Conversions

end WasmHost.Host
