import WasmHost.Proofs.Transit

/-!
# Values kept in globals and tables

What a global is set to, and what an element of a table is set to or added with, is what comes out
of it again: another value that stands for the same.

A value that is put into a global is packed, copied by the engine and released; one that is taken
out is copied, packed and unpacked. So what comes out cannot be what went in. A function comes out
under a new handle, and a host object through an origin of its own; and both must come out as long
as the store is there, even if whoever put them in has let go of them in the meantime. That is what
the relations of `Senses` are for. The lemmas say that reading and writing succeed where they
should, and what the store holds afterwards.

The operations check more than is needed for this (the kind, the bounds, whether the global may be
changed). These checks are assumed to pass, each by the condition that the code looks at; that they
are the only ones is what the successful run shows.
-/

namespace WasmHost.Host

open Act

variable {κ σ α : Type} [Keeper κ σ] {R L : Ledger κ} {known : List (Pin κ)} {w : World κ σ}
  {s : Nat} {v : Val} {x : Sense}

/-! ## Items that are there -/

/-- The context of a store is obtained; what is owned stays as it is. -/
theorem Invariant.drain (hw : Invariant (R + L) w) (s : Nat) :
    Invariant (R + L) (w.drain s) ∧ ∀ a p, w.ItemHandle s a p → (w.drain s).ItemHandle s a p := by
  refine ⟨(context_leaves (L := L) s).run_value hw (run_context s w), ?_⟩
  rintro a p ⟨c, hc, hpos, hrest⟩
  exact ⟨c, (hw.sound.drain_spares s).shared a c hc hpos, hpos, hrest⟩

/-- An item that is in a ledger is still what it was, when everything else has settled. -/
theorem Invariant.itemHandle {w' : World κ σ} {a : Handle} {p : Guest.Place}
    (hw' : Invariant (R + L) w') (ha : L.Has (.handle a (.item p.kind)))
    (h : w.ItemHandle s a p) (hw : ∀ a c', w'.heap.get? a = some c' →
      ∃ c, w.heap.get? a = some c ∧ c'.store = c.store ∧ c'.target = c.target) :
    w'.ItemHandle s a p := by
  obtain ⟨c', hc', -, hpos⟩ := World.exists_handle (hw'.pos ha)
  exact h.settled hw hc' hpos

/-- A value that refers to nothing but what is in a ledger still stands for what it stood for. -/
theorem Invariant.meansStill {w' : World κ σ} (hw' : Invariant (R + L) w') (hv : ∀ y ∈ v.shares, L.Has y)
    (h : w.Means s v x) (hw : ∀ a c', w'.heap.get? a = some c' →
      ∃ c, w.heap.get? a = some c ∧ c'.store = c.store ∧ c'.target = c.target) :
    w'.Means s v x := by
  cases h with
  | @func a i ha =>
    have hheld : L.Has (.handle a (.item (Guest.Place.func i).kind)) :=
      hv _ (by simp [Val.shares, Val.capture?]; rfl)
    exact .func (hw'.itemHandle hheld ha hw)
  | _ => constructor

/-- Values that are owned still stand for what they stood for when they were made. -/
theorem Invariant.means {vs : List Val} {ys : List Sense}
    (hw : Invariant (R + (Ledger.owns (Val.sharesAll vs) + L)) w) (h : World.Yields s ys vs w) :
    List.Forall₂ (w.Means s) vs ys := by
  obtain ⟨w₀, hvs, hsettles⟩ := h
  have hall : ∀ v ∈ vs, ∀ y ∈ v.shares, (Ledger.owns (Val.sharesAll vs) + L).Has y :=
    fun v hv y hy => Ledger.has_owns_add (List.mem_flatMap.mpr ⟨v, hv, hy⟩) L
  -- The values that are owned are fixed; the induction is on what was yielded.
  generalize Ledger.owns (Val.sharesAll vs) + L = N at hw hall
  induction hvs with
  | nil => exact .nil
  | cons hv _ ih =>
    exact .cons (hw.meansStill (hall _ (List.mem_cons_self ..)) hv hsettles.handles)
      (ih fun u hu => hall u (List.mem_cons_of_mem _ hu))

/-! ## Stores in which nothing waits -/

section Idle

omit [Keeper κ σ]

/-- No handle waits in a store. -/
def World.Idle (w : World κ σ) (s : Nat) : Prop := ∃ c, w.stores[s]? = some c ∧ c.queue = .empty

theorem World.idle_drain {c : StoreCell} (hc : w.stores[s]? = some c) : (w.drain s).Idle s :=
  ⟨_, World.drain_cell hc, rfl⟩

namespace World.Idle

theorem modifyStore (h : w.Idle s) (t : Nat) {f : StoreCell → StoreCell}
    (hf : ∀ c, (f c).queue = c.queue) : (w.modifyStore t f).Idle s := by
  obtain ⟨c, hc, hidle⟩ := h
  by_cases ht : t = s
  · exact ⟨f c, by simp [World.modifyStore, Array.getElem?_modify, ht, hc], (hf c).trans hidle⟩
  · exact ⟨c, by simp [World.modifyStore, Array.getElem?_modify, ht, hc], hidle⟩

/-- There is nothing to do when the context of such a store is obtained. -/
theorem drain_eq (h : w.Idle s) : w.drain s = w := by
  obtain ⟨c, hc, hidle⟩ := h
  have hqueue : c.queue.beginDrain = c.queue := by rw [hidle]; rfl
  -- An empty queue is replaced by an empty queue.
  have hstores : w.stores.modify s (fun d => { d with queue := c.queue.beginDrain }) = w.stores := by
    refine Array.ext_getElem? fun t => ?_
    rw [Array.getElem?_modify, hqueue]
    split
    · rename_i ht
      rw [← ht, hc]
      rfl
    · rfl
  have hbegin : w.beginDrain s = (0, w) := by
    simp only [World.beginDrain, hc, World.modifyStore, hstores]
    rw [hqueue, hidle]
    rfl
  rw [World.drain, hbegin]
  rfl

end World.Idle

end Idle

/-! ## Memories -/

omit [Keeper κ σ] in
theorem Memory.run_at {a : Handle} {i : Nat} {g : Guest.Store} {memory : Guest.Memory}
    (ha : w.ItemHandle s a (.memory i)) (hg : w.guest? s = some g)
    (hmemory : g.memories[i]? = some memory) :
    (at_ s a : Act κ σ (Nat × Guest.Memory)).run w = (.value (i, memory), w) := by
  refine (run_bind_value (run_place ha)).trans ((run_bind_value (run_guest hg)).trans ?_)
  rw [hmemory]
  rfl

/-! ## Storing a value -/

/-- A store has come to have another guest part, in which a value stands for something. The other
stores are as they were, and nothing has come to stand for something else. -/
structure World.Stored (w w' : World κ σ) (s : Nat) (g : Guest.Store) (u : Guest.Value) (x : Sense) :
    Prop where
  holds : w'.Holds s u x
  guest : w'.guest? s = some g
  others : ∀ t ≠ s, w'.guest? t = w.guest? t
  handles : ∀ a c', w'.heap.get? a = some c' →
    ∃ c, w.heap.get? a = some c ∧ c'.store = c.store ∧ c'.target = c.target
  kept : w.Preserves w'

omit [Keeper κ σ] in
/-- A guest part is replaced, and what comes before and after that only settles. -/
theorem World.Stored.of_setGuest {w₁ w' : World κ σ} {g g' : Guest.Store} {u : Guest.Value}
    (hw : w.Settles w₁) (hg : w.guest? s = some g) (hu : w₁.Holds s u x)
    (hw' : (w₁.setGuest s g').Settles w') : w.Stored w' s g' u x where
  holds := (hu.preserved (w₁.setGuest_preserves s g')).preserved hw'.toPreserves
  guest := (hw'.guests s).trans (World.guest?_setGuest ((hw.guests s).trans hg) g')
  others t ht := by
    have hset : (w₁.setGuest s g').guest? t = w₁.guest? t :=
      (guestAt_modify w₁.stores s t _).trans (if_neg ht)
    exact (hw'.guests t).trans (hset.trans (hw.guests t))
  handles a c' hc' := by
    obtain ⟨c₁, hc₁, hs₁, ht₁⟩ := hw'.handles a c' hc'
    obtain ⟨c, hc, hs, ht⟩ := hw.handles a c₁ hc₁
    exact ⟨c, hc, hs₁.trans hs, ht₁.trans ht⟩
  kept := (hw.toPreserves.trans (w₁.setGuest_preserves s g')).trans hw'.toPreserves

/-! ## Globals -/

namespace Global

/-- A global stands for something. -/
def Keeps (w : World κ σ) (s : Nat) (a : Handle) (x : Sense) : Prop :=
  ∃ i g global, w.ItemHandle s a (.global i) ∧ w.guest? s = some g ∧ g.globals[i]? = some global ∧
    w.Holds s global.value x

omit [Keeper κ σ] in
theorem run_at {a : Handle} {i : Nat} {g : Guest.Store} {global : Guest.Global}
    (ha : w.ItemHandle s a (.global i)) (hg : w.guest? s = some g)
    (hglobal : g.globals[i]? = some global) :
    (at_ s a : Act κ σ (Nat × Guest.Global)).run w = (.value (i, global), w) := by
  refine (run_bind_value (run_place ha)).trans ((run_bind_value (run_guest hg)).trans ?_)
  rw [hglobal]
  rfl

/-- The same once the context is obtained. -/
theorem run_at_drain {a : Handle} {i : Nat} {g : Guest.Store} {global : Guest.Global}
    (hw : Invariant (R + L) w) (ha : w.ItemHandle s a (.global i)) (hg : w.guest? s = some g)
    (hglobal : g.globals[i]? = some global) :
    (at_ s a : Act κ σ (Nat × Guest.Global)).run (w.drain s) = (.value (i, global), w.drain s) :=
  run_at ((hw.drain s).2 a _ ha) (((w.drain_settles s).guests s).trans hg) hglobal

/-- What a global stands for is got. -/
theorem run_get {a : Handle} (hw : Invariant (R + L) w) (h : Keeps w s a x) :
    ∃ v w', (get s a : Act κ σ Val).run w = (.value v, w') ∧ World.Yields s [x] [v] w' := by
  obtain ⟨i, g, global, ha, hg, hglobal, hx⟩ := h
  have hsettles := w.drain_settles s
  have hat := run_at_drain hw ha hg hglobal
  obtain ⟨p, w₂, hexpose, hp, hw₂⟩ := run_expose (hx.preserved hsettles.toPreserves)
  obtain ⟨v, w₃, hunpack, hv, -⟩ := run_unpack (s := s) hp
  obtain ⟨u, w₄, hrelease, hw₄⟩ := releasePacked_settling p w₃
  -- What the value stands for is known of the world in which it was unpacked; after that, things
  -- only settle.
  refine ⟨v, w₄, ?_, w₃, .cons hv .nil, hw₄⟩
  refine (run_bind_value (run_context s w)).trans ((run_bind_value hat).trans ?_)
  exact (run_bind_value hexpose).trans (run_ensuring_value hunpack hrelease)

/-- A variable that is set to a value of its kind stands for what the value stands for. -/
theorem run_set {a : Handle} {i : Nat} {g : Guest.Store} {global : Guest.Global}
    (hw : Invariant (R + L) w) (hs : .tenure s known none ∈ L)
    (hheld : L.Has (.handle a (.item .global))) (hvals : ∀ y ∈ v.shares, L.Has y)
    (ha : w.ItemHandle s a (.global i)) (hg : w.guest? s = some g)
    (hglobal : g.globals[i]? = some global) (hwritable : global.type.writable = true)
    (hkind : v.kind = global.type.content) (hv : w.Means s v x) :
    ∃ w', (set s a v : Act κ σ Unit).run w = (.value (), w') ∧ Invariant (R + L) w' ∧
      Keeps w' s a x := by
  have hsettles := w.drain_settles s
  have hat := run_at_drain hw ha hg hglobal
  obtain ⟨p, w₂, hpack, hp, hw₂, -⟩ := run_pack (hv.carried fun b j hb => (hw.drain s).2 b _ hb)
  have hw₂ := hsettles.trans hw₂
  obtain ⟨d, hd, -⟩ := Option.bind_eq_some_iff.mp ((hw₂.guests s).trans hg)
  obtain ⟨value, w₃, hadopt, hvalue, hw₃⟩ := run_adopt hp hd
  have hw₃ := hw₂.trans hw₃
  -- From here on nothing is checked any more: the value is in the hands of the engine, and is put
  -- in its place.
  let g' : Guest.Store := { g with globals := g.globals.setIfInBounds i { global with value } }
  have hstore : (onGuest s fun st : Guest.Store => ((),
      { st with globals := st.globals.setIfInBounds i { global with value } }) :
        Act κ σ Unit).run w₃ = (.value (), w₃.setGuest s g') := run_onGuest ((hw₃.guests s).trans hg) _
  obtain ⟨⟨⟩, w₄, hrelease, hw₄⟩ := releasePacked_settling p (w₃.setGuest s g')
  have hrun : (set s a v : Act κ σ Unit).run w = (.value (), w₄) := by
    refine (run_bind_value (run_context s w)).trans ((run_bind_value hat).trans ?_)
    simp only [hwritable, hkind, Bool.not_true, Bool.false_eq_true, if_false, ne_eq,
      not_true_eq_false]
    refine (run_bind_value hpack).trans (run_ensuring_value ?_ hrelease)
    exact (run_bind_value hadopt).trans hstore
  -- The run is known to keep the ledger, so what is owned is still there afterwards.
  have hinv := (set_leaves hs hheld hvals).run_value hw hrun
  have hstored : w.Stored w₄ s g' value x := .of_setGuest hw₃ hg hvalue hw₄
  have hlt := (Array.getElem?_eq_some_iff.mp hglobal).1
  exact ⟨w₄, hrun, hinv, i, g', { global with value }, hinv.itemHandle hheld ha hstored.handles,
    hstored.guest, by simp [g', hlt], hstored.holds⟩

end Global

/-! ## Tables -/

omit [Keeper κ σ] in
/-- Guest parts are as they were once a value is unpacked. -/
theorem unpack_guests (s : Nat) {t : Nat} (p : Packed t) (w : World κ σ) (u : Nat) :
    ((unpack s p : Act κ σ Val).run w).2.guest? u = w.guest? u := by
  rcases p with _ | _ | _ | _ | (_ | i) | (_ | g)
  case funcref.some => exact guestAt_modify_same w.stores s u fun _ => rfl
  case externref.some =>
    show (w.retainObjectOf g).2.guest? u = w.guest? u
    unfold World.retainObjectOf
    split <;> rfl
  all_goals rfl

namespace Table

/-- An element of a table stands for something. -/
def Keeps (w : World κ σ) (s : Nat) (a : Handle) (index : Nat) (x : Sense) : Prop :=
  ∃ i g table r, w.ItemHandle s a (.table i) ∧ w.guest? s = some g ∧ g.tables[i]? = some table ∧
    table.get? index = some r ∧ w.Holds s (.ref r) x

omit [Keeper κ σ] in
theorem run_at {a : Handle} {i : Nat} {g : Guest.Store} {table : Guest.Table}
    (ha : w.ItemHandle s a (.table i)) (hg : w.guest? s = some g)
    (htable : g.tables[i]? = some table) :
    (at_ s a : Act κ σ (Nat × Guest.Table)).run w = (.value (i, table), w) := by
  refine (run_bind_value (run_place ha)).trans ((run_bind_value (run_guest hg)).trans ?_)
  rw [htable]
  rfl

/-- The same once the context is obtained. -/
theorem run_at_drain {a : Handle} {i : Nat} {g : Guest.Store} {table : Guest.Table}
    (hw : Invariant (R + L) w) (ha : w.ItemHandle s a (.table i)) (hg : w.guest? s = some g)
    (htable : g.tables[i]? = some table) :
    (at_ s a : Act κ σ (Nat × Guest.Table)).run (w.drain s) = (.value (i, table), w.drain s) :=
  run_at ((hw.drain s).2 a _ ha) (((w.drain_settles s).guests s).trans hg) htable

omit [Keeper κ σ] in
/-- The engine takes a copy of a packed reference. -/
theorem run_adoptRef {p : Packed s} {d : StoreCell} (h : w.Packs p x) (hd : w.stores[s]? = some d)
    (href : (∃ i, x = .func i) ∨ ∃ o, x = .object o) :
    ∃ r w', (adoptRef s p : Act κ σ Guest.Ref).run w = (.value r, w') ∧ w'.Holds s (.ref r) x ∧
      w.Settles w' := by
  obtain ⟨v, w', hadopt, hv, hw'⟩ := run_adopt h hd
  obtain ⟨r, rfl⟩ : ∃ r, v = .ref r := by
    rcases href with ⟨i, rfl⟩ | ⟨o, rfl⟩ <;> cases hv <;> exact ⟨_, rfl⟩
  exact ⟨r, w', run_bind_value hadopt, hv, hw'⟩

/-- What an element stands for is got, and no guest part is changed. -/
theorem run_read {a : Handle} {index : Nat} (hw : Invariant (R + L) w) (h : Keeps w s a index x) :
    ∃ v w', (get s a index : Act κ σ (Option Val)).run w = (.value (some v), w') ∧
      World.Yields s [x] [v] w' ∧ ∀ t, w'.guest? t = w.guest? t := by
  obtain ⟨i, g, table, r, ha, hg, htable, hr, hx⟩ := h
  have hsettles := w.drain_settles s
  have hat := run_at_drain hw ha hg htable
  obtain ⟨p, w₂, hexpose, hp, hw₂⟩ := run_expose (hx.preserved hsettles.toPreserves)
  obtain ⟨v, w₃, hunpack, hv, -⟩ := run_unpack (s := s) hp
  obtain ⟨u, w₄, hrelease, hw₄⟩ := releasePacked_settling p w₃
  have hguests : ∀ t, w₃.guest? t = w₂.guest? t := fun t => by
    simpa only [hunpack] using unpack_guests s p w₂ t
  refine ⟨v, w₄, ?_, ⟨w₃, .cons hv .nil, hw₄⟩, fun t => (hw₄.guests t).trans ((hguests t).trans
    ((hsettles.trans hw₂).guests t))⟩
  refine (run_bind_value (run_context s w)).trans ((run_bind_value hat).trans ?_)
  simp only [hr]
  have hsome : (some <$> unpack s p : Act κ σ (Option Val)).run w₂ = (.value (some v), w₃) :=
    run_bind_value (k := fun v => Pure.pure (some v)) hunpack
  exact (run_bind_value hexpose).trans (run_ensuring_value hsome hrelease)

theorem run_get {a : Handle} {index : Nat} (hw : Invariant (R + L) w) (h : Keeps w s a index x) :
    ∃ v w', (get s a index : Act κ σ (Option Val)).run w = (.value (some v), w') ∧
      World.Yields s [x] [v] w' := by
  obtain ⟨v, w', hrun, hv, -⟩ := run_read hw h
  exact ⟨v, w', hrun, hv⟩

/-- What comes first in every change of a table: a reference of its kind is packed, and the engine takes
a copy of it. What was packed is released at the end. -/
def offer (s : Nat) (t : Handle) (v : Val) (k : Nat → Guest.Table → Guest.Ref → Act κ σ α) :
    Act κ σ α := do
  context s
  let (i, table) ← at_ s t
  if v.kind ≠ table.type.element then fail (.wrongKind table.type.element v.kind)
  let packed ← pack s v
  ensuring (releasePacked packed) do
    let r ← adoptRef s packed
    k i table r

/-- What comes then in setting an element, -/
def setElement (s index i : Nat) (table : Guest.Table) (r : Guest.Ref) : Act κ σ Unit :=
  match table.set? index r with
  | none => fail (.engine .tableIndex)
  | some table => onGuest s fun g => ((), g.putTable i table)

/-- and in adding elements. -/
def addElements (s delta i : Nat) (table : Guest.Table) (r : Guest.Ref) : Act κ σ Nat :=
  match table.grow? delta r with
  | none => fail (.engine (.growTable delta))
  | some grown => do
    onGuest s fun g => ((), g.putTable i grown)
    return table.size

omit [Keeper κ σ] in
theorem set_eq_offer (s : Nat) (t : Handle) (index : Nat) (v : Val) :
    (set s t index v : Act κ σ Unit) = offer s t v (setElement s index) := rfl

omit [Keeper κ σ] in
theorem grow_eq_offer (s : Nat) (t : Handle) (delta : Nat) (v : Val) :
    (grow s t delta v : Act κ σ Nat) = offer s t v (addElements s delta) := rfl

omit [Keeper κ σ] in
/-- A table that replaces another one is found in its place. -/
theorem getElem?_putTable {i : Nat} {g : Guest.Store} {table table' : Guest.Table}
    (h : g.tables[i]? = some table) : (g.putTable i table').tables[i]? = some table' := by
  have hlt := (Array.getElem?_eq_some_iff.mp h).1
  simp [Guest.Store.putTable, hlt]

section Offering

variable {a : Handle} {i : Nat} {g : Guest.Store} {table : Guest.Table}

/-- A value of another kind is not taken. -/
theorem run_offer_wrongKind (hw : Invariant (R + L) w) (ha : w.ItemHandle s a (.table i))
    (hg : w.guest? s = some g) (htable : g.tables[i]? = some table)
    (hkind : v.kind ≠ table.type.element) (k : Nat → Guest.Table → Guest.Ref → Act κ σ α) :
    (offer s a v k).run w = (.failure (.wrongKind table.type.element v.kind), w.drain s) := by
  have hat := run_at_drain hw ha hg htable
  refine (run_bind_value (run_context s w)).trans ((run_bind_value hat).trans ?_)
  simp only [hkind, ne_eq, not_false_eq_true, if_true]
  rfl

variable (hw : Invariant (R + L) w) (hs : .tenure s known none ∈ L)
  (hheld : L.Has (.handle a (.item .table))) (hvals : ∀ y ∈ v.shares, L.Has y)
  (ha : w.ItemHandle s a (.table i)) (hg : w.guest? s = some g)
  (htable : g.tables[i]? = some table) (hkind : v.kind = table.type.element)
  (href : (∃ i, x = .func i) ∨ ∃ o, x = .object o) (hv : w.Means s v x)

include hw ha hg htable hkind href hv

/-- A reference is taken, and then it depends on what is done with it. -/
theorem run_offer (k : Nat → Guest.Table → Guest.Ref → Act κ σ α) :
    ∃ r w₁, w₁.Holds s (.ref r) x ∧ w.Settles w₁ ∧
      ∀ o w₂, (k i table r).run w₁ = (o, w₂) → o.ends = true →
        ∃ w', (offer s a v k).run w = (o, w') ∧ w₂.Settles w' := by
  have hsettles := w.drain_settles s
  have hg₀ : (w.drain s).guest? s = some g := (hsettles.guests s).trans hg
  obtain ⟨p, w₁, hpack, hp, hw₁, -⟩ := run_pack (hv.carried fun b j hb => (hw.drain s).2 b _ hb)
  obtain ⟨d, hd, -⟩ := Option.bind_eq_some_iff.mp ((hw₁.guests s).trans hg₀)
  obtain ⟨r, w₂, hadopt, hr, hw₂⟩ := run_adoptRef hp hd href
  -- What was packed is released at the end, however the change ends.
  refine ⟨r, w₂, hr, hsettles.trans (hw₁.trans hw₂), fun o w₃ hk ho => ?_⟩
  obtain ⟨⟨⟩, w', hrelease, hw'⟩ := releasePacked_settling p w₃
  refine ⟨w', ?_, hw'⟩
  have hat := run_at_drain hw ha hg htable
  refine (run_bind_value (run_context s w)).trans ((run_bind_value hat).trans ?_)
  simp only [hkind, ne_eq, not_true_eq_false, if_false]
  exact (run_bind_value hpack).trans (run_ensuring ho ((run_bind_value hadopt).trans hk) hrelease)

/-- An element that there is, is set. -/
theorem run_setting {index : Nat} (hindex : index < table.size) :
    ∃ r w', (set s a index v : Act κ σ Unit).run w = (.value (), w') ∧ w.Stored w' s
      (g.putTable i { table with elements := table.elements.setIfInBounds index r }) (.ref r) x := by
  rw [set_eq_offer]
  obtain ⟨r, w₁, hr, hw₁, hrun⟩ := run_offer hw ha hg htable hkind href hv (setElement s index)
  have hset : table.set? index r =
      some { table with elements := table.elements.setIfInBounds index r } := if_pos hindex
  obtain ⟨w', hrun, hw'⟩ := hrun (.value ()) _
    (by rw [setElement, hset]; exact run_onGuest ((hw₁.guests s).trans hg) _) rfl
  exact ⟨r, w', hrun, .of_setGuest hw₁ hg hr hw'⟩

/-- An element that there is not, is not set. -/
theorem run_setting_refused {index : Nat} (hindex : ¬index < table.size) :
    ∃ w', (set s a index v : Act κ σ Unit).run w = (.failure (.engine .tableIndex), w') ∧
      w.Settles w' := by
  rw [set_eq_offer]
  obtain ⟨r, w₁, hr, hw₁, hrun⟩ := run_offer hw ha hg htable hkind href hv (setElement s index)
  have hset : table.set? index r = none := if_neg hindex
  obtain ⟨w', hrun, hw'⟩ := hrun (.failure (.engine .tableIndex)) w₁ (by rw [setElement, hset]; rfl) rfl
  exact ⟨w', hrun, hw₁.trans hw'⟩

/-- Elements are added, if the limit of the table's type allows it. -/
theorem run_growing {delta : Nat} (hdelta : table.size + delta ≤ Guest.Table.sizeLimit table.type) :
    ∃ r w', (grow s a delta v : Act κ σ Nat).run w = (.value table.size, w') ∧
      w.Stored w' s
        (g.putTable i { table with elements := table.elements ++ Array.replicate delta r }) (.ref r) x := by
  rw [grow_eq_offer]
  obtain ⟨r, w₁, hr, hw₁, hrun⟩ := run_offer hw ha hg htable hkind href hv (addElements s delta)
  have hgrow : table.grow? delta r =
      some { table with elements := table.elements ++ Array.replicate delta r } := if_pos hdelta
  obtain ⟨w', hrun, hw'⟩ := hrun (.value table.size) _
    (by rw [addElements, hgrow]; exact run_bind_value (run_onGuest ((hw₁.guests s).trans hg) _)) rfl
  exact ⟨r, w', hrun, .of_setGuest hw₁ hg hr hw'⟩

/-- No elements are added beyond that limit. -/
theorem run_growing_refused {delta : Nat}
    (hdelta : ¬table.size + delta ≤ Guest.Table.sizeLimit table.type) :
    ∃ w', (grow s a delta v : Act κ σ Nat).run w = (.failure (.engine (.growTable delta)), w') ∧
      w.Settles w' := by
  rw [grow_eq_offer]
  obtain ⟨r, w₁, hr, hw₁, hrun⟩ := run_offer hw ha hg htable hkind href hv (addElements s delta)
  have hgrow : table.grow? delta r = none := if_neg hdelta
  obtain ⟨w', hrun, hw'⟩ := hrun (.failure (.engine (.growTable delta))) w₁
    (by rw [addElements, hgrow]; rfl) rfl
  exact ⟨w', hrun, hw₁.trans hw'⟩

include hs hheld hvals

/-- An element that is set stands for what it was set to. -/
theorem run_set {index : Nat} (hindex : index < table.size) :
    ∃ w', (set s a index v : Act κ σ Unit).run w = (.value (), w') ∧ Invariant (R + L) w' ∧
      Keeps w' s a index x := by
  obtain ⟨r, w', hrun, hstored⟩ := run_setting hw ha hg htable hkind href hv hindex
  have hinv := (set_leaves hs hheld hvals index).run_value hw hrun
  refine ⟨w', hrun, hinv, i, _, _, r, hinv.itemHandle hheld ha hstored.handles,
    hstored.guest, getElem?_putTable htable, ?_, hstored.holds⟩
  have hlt : index < table.elements.size := hindex
  simp [Guest.Table.get?, hlt]

end Offering

end Table

end WasmHost.Host
