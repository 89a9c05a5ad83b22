import WasmHost.Proofs.BoundedTables
import WasmHost.Proofs.LinearMemory
import WasmHost.Proofs.Rejections
import WasmHost.Proofs.Wrapping

/-!
# Objects with several handles

An item of a store may have several handles. Whichever of them an operation is given, it does the same;
so what is written through one handle is read through another.

Every lookup makes a new handle. So two handles of one item are two entries of the heap, with counts
of their own, and the only thing they have in common is the place in the store that they stand for.
That operations depend on the place and on nothing else of a handle is visible from their text, but
it has to be said of each of them, and for this purpose they are listed as `ItemOperation`. A
function that is called is among them: what it does is the same whichever of its handles is used,
including what its closures do.

`SameObject` has the consequences as well, "what is written is read". They follow from the first
field, together with what has been shown of reading after writing through one handle. They are
spelled out because they are what a user of two handles would want to know.
-/

namespace WasmHost.Host

open Act

variable {κ σ α : Type} {w : World κ σ} {s : Nat} {a b : Handle} {p : Guest.Place}

/-! ## Operations on items

All of them begin by obtaining the context and by looking the handle up. -/

/-- An operation on an item of a kind. -/
inductive ItemOperation (κ σ : Type) : ItemKind → Type → Type 1 where
  | type {kind : ItemKind} : ItemOperation κ σ kind ItemType
  | signature : ItemOperation κ σ .func Signature
  | call (host : Runner κ σ) (args : List Val) : ItemOperation κ σ .func (List Val)
  | get : ItemOperation κ σ .global Val
  | set (v : Val) : ItemOperation κ σ .global Unit
  | pages : ItemOperation κ σ .memory Nat
  | byteCount : ItemOperation κ σ .memory Nat
  | growMemory (delta : Nat) : ItemOperation κ σ .memory Nat
  | readInto (offset : Nat) (buffer : List UInt8) :
    ItemOperation κ σ .memory (Except Error Unit × List UInt8)
  | read (offset len : Nat) : ItemOperation κ σ .memory (List UInt8)
  | write (offset : Nat) (bytes : List UInt8) : ItemOperation κ σ .memory Unit
  | withData {α : Type} (f : Guest.Memory → α × Guest.Memory) : ItemOperation κ σ .memory α
  | elementCount : ItemOperation κ σ .table Nat
  | element (index : Nat) : ItemOperation κ σ .table (Option Val)
  | setElement (index : Nat) (v : Val) : ItemOperation κ σ .table Unit
  | growTable (delta : Nat) (init : Val) : ItemOperation κ σ .table Nat

/-- The operation on the item that a handle of a store stands for. -/
def ItemOperation.on {kind : ItemKind} (s : Nat) (h : Handle) :
    ItemOperation κ σ kind α → Act κ σ α
  | .type => Item.type s ⟨kind, h⟩
  | .signature => Func.type s h
  | .call host args => Func.call host s h args
  | .get => Global.get s h
  | .set v => Global.set s h v
  | .pages => Memory.pages s h
  | .byteCount => Memory.size s h
  | .growMemory delta => Memory.grow s h delta
  | .readInto offset buffer => Memory.readInto s h offset buffer
  | .read offset len => Memory.read s h offset len
  | .write offset bytes => Memory.write s h offset bytes
  | .withData f => Memory.withData s h f
  | .elementCount => Table.size s h
  | .element index => Table.get s h index
  | .setElement index v => Table.set s h index v
  | .growTable delta init => Table.grow s h delta init

namespace Act

variable {β : Type}

/-- What is looked up once the context is obtained decides all that comes after it. -/
theorem run_inContext_congr {m m' : Act κ σ β} (h : m.run (w.drain s) = m'.run (w.drain s))
    (k : β → Act κ σ α) :
    (context s >>= fun _ => m >>= k).run w = (context s >>= fun _ => m' >>= k).run w := by
  have hcontext : ∀ m : Act κ σ β,
      (context s >>= fun _ => m >>= k).run w = (m >>= k).run (w.drain s) := fun _ =>
    run_bind_value (run_context s w)
  rw [hcontext m, hcontext m']
  exact run_after_congr _ h

/-- Handles of one item lead to the same place. -/
theorem run_place_bind_congr {k k' : Guest.Place → Act κ σ β} (ha : w.ItemHandle s a p)
    (hb : w.ItemHandle s b p) (hk : k p = k' p) :
    (place s a >>= k).run w = (place s b >>= k').run w := by
  rw [run_bind_value (run_place ha), run_bind_value (run_place hb), hk]

end Act

/-- Of several handles of one item, it does not matter which an operation is given. -/
theorem ItemOperation.run_congr {kind : ItemKind} (op : ItemOperation κ σ kind α)
    (hp : p.kind = kind) (ha : (w.drain s).ItemHandle s a p) (hb : (w.drain s).ItemHandle s b p) :
    (op.on s a).run w = (op.on s b).run w := by
  -- An item of each sort is looked up at its place.
  have hfunc : p.kind = .func →
      (funcPlace s a : Act κ σ Nat).run (w.drain s) = (funcPlace s b).run (w.drain s) := by
    intro hkind
    cases p <;> cases hkind
    exact run_place_bind_congr ha hb rfl
  have hglobal : p.kind = .global →
      (Global.at_ s a : Act κ σ _).run (w.drain s) = (Global.at_ s b).run (w.drain s) := by
    intro hkind
    cases p <;> cases hkind
    exact run_place_bind_congr ha hb rfl
  have hmemory : p.kind = .memory →
      (Memory.at_ s a : Act κ σ _).run (w.drain s) = (Memory.at_ s b).run (w.drain s) := by
    intro hkind
    cases p <;> cases hkind
    exact run_place_bind_congr ha hb rfl
  have htable : p.kind = .table →
      (Table.at_ s a : Act κ σ _).run (w.drain s) = (Table.at_ s b).run (w.drain s) := by
    intro hkind
    cases p <;> cases hkind
    exact run_place_bind_congr ha hb rfl
  -- After the lookup there is nothing about the handle in any of them.
  cases op with
  | type =>
    refine run_bind_congr (m := context s) fun _ w₁ hcontext => ?_
    cases (run_context s w).symm.trans hcontext
    refine run_bind_congr (m := guest s) fun g w₂ hguest => ?_
    obtain rfl := (guest_looking s).run_value hguest
    exact run_place_bind_congr ha hb rfl
  | signature => exact run_inContext_congr (hfunc hp) _
  | call host args => exact run_inContext_congr (hfunc hp) _
  | get => exact run_inContext_congr (hglobal hp) _
  | set v => exact run_inContext_congr (hglobal hp) _
  | pages => exact run_inContext_congr (hmemory hp) _
  | byteCount => exact run_inContext_congr (hmemory hp) _
  | growMemory delta => exact run_inContext_congr (hmemory hp) _
  | readInto offset buffer => exact run_inContext_congr (hmemory hp) _
  | read offset len => exact run_after_congr _ (run_inContext_congr (hmemory hp) _)
  | write offset bytes => exact run_inContext_congr (hmemory hp) _
  | withData f => exact run_inContext_congr (hmemory hp) _
  | elementCount => exact run_inContext_congr (htable hp) _
  | element index => exact run_inContext_congr (htable hp) _
  | setElement index v => exact run_inContext_congr (htable hp) _
  | growTable delta init => exact run_inContext_congr (htable hp) _

/-! ## What is written is read

Something is done through one handle, then something through the other. The second is replaced by
the first, and then it is about one handle. -/

section Written

variable {κ : Type} {L : Ledger (Code κ)} {known : List (Pin (Code κ))} {w : World (Code κ) Pool}
  {s : Nat} {g : Guest.Store}

/-- Two items of a store are the same object. -/
structure World.SameObject (w : World (Code κ) Pool) (s : Nat) (a b : Item) : Prop where
  kind : b.kind = a.kind
  place : ∃ p, p.kind = a.kind ∧ w.ItemHandle s a.handle p ∧ w.ItemHandle s b.handle p
  /-- What is done through one is done through the other, -/
  alike : ∀ {α : Type} (op : ItemOperation (Code κ) Pool a.kind α),
    (op.on s b.handle).run w = (op.on s a.handle).run w
  /-- so bytes that are written through one are read through the other, -/
  bytes : a.kind = .memory → ∀ (offset : Nat) (bytes buffer : List UInt8) (w' : World (Code κ) Pool),
    bytes.length = buffer.length →
    (Memory.write s a.handle offset bytes : Job κ Unit).run w = (.value (), w') →
    (Memory.readInto s b.handle offset buffer : Job κ _).run w' = (.value (.ok (), bytes), w')
  /-- what is set through one is got through the other, -/
  value : a.kind = .global → ∀ (v : Val) (w' : World (Code κ) Pool), w.user.LendsVal v →
    (Global.set s a.handle v : Job κ Unit).run w = (.value (), w') →
    ∃ x v' w'', w.Means s v x ∧ (Global.get s b.handle : Job κ Val).run w' = (.value v', w'') ∧
      w''.Means s v' x
  /-- and likewise elements of tables. -/
  element : a.kind = .table → ∀ (index : Nat) (v : Val) (w' : World (Code κ) Pool),
    w.user.LendsVal v → (Table.set s a.handle index v : Job κ Unit).run w = (.value (), w') →
    ∃ x v' w'', w.Means s v x ∧
      (Table.get s b.handle index : Job κ (Option Val)).run w' = (.value (some v'), w'') ∧
      w''.Means s v' x

variable {a : Handle} {v : Val} {w' : World (Code κ) Pool}

/-- A global that has been set gives a value that stands for the same. -/
theorem Global.run_get_of_run_set (hw : Invariant L w) (hs : .tenure s known none ∈ L)
    (hheld : L.Has (.handle a (.item .global))) (hv : w.user.LendsVal v) (hg : w.guest? s = some g)
    (hrun : (Global.set s a v : Job κ Unit).run w = (.value (), w')) :
    ∃ x v' w'', w.Means s v x ∧ (Global.get s a : Job κ Val).run w' = (.value v', w'') ∧
      w''.Means s v' x := by
  have hw₀ : Invariant (0 + L) w := by rwa [zero_add]
  have hvals := hw.has_of_lendsVal hv
  cases (setEnds_iff hw hs hheld hvals hg).mpr ⟨w', hrun⟩ with
  | done hat hwritable hkind hforeign =>
    obtain ⟨i, g, hitem, hg, hglobal⟩ := hat
    obtain ⟨x, hx⟩ := (hw₀.val_cases hvals s).resolve_right hforeign
    obtain ⟨w₁, hset, hw₁, hkeeps⟩ :=
      run_set hw₀ hs hheld hvals hitem hg hglobal hwritable hkind hx
    cases hset.symm.trans hrun
    obtain ⟨v', w₂, hget, hyields⟩ := run_get hw₁ hkeeps
    have hw₂ : Invariant (0 + (Ledger.owns (Val.sharesAll [v']) + L)) w₂ := by
      simpa using (get_leaves (Ledger.has_of_tenure hs) hheld).run_value hw₁ hget
    exact ⟨x, v', w₂, hx, hget, (List.forall₂_cons.mp (hw₂.means hyields)).1⟩

/-- An element of a table that has been set stands for the same. -/
theorem Table.run_get_of_run_set {i index : Nat} {table : Guest.Table} (hw : Invariant L w)
    (hs : .tenure s known none ∈ L) (hheld : L.Has (.handle a (.item .table)))
    (hv : w.user.LendsVal v) (h : w.HasTable s g a i table)
    (hrun : (Table.set s a index v : Job κ Unit).run w = (.value (), w')) :
    ∃ x v' w'', w.Means s v x ∧
      (Table.get s a index : Job κ (Option Val)).run w' = (.value (some v'), w'') ∧
      w''.Means s v' x := by
  have hw₀ : Invariant (0 + L) w := by rwa [zero_add]
  have hvals := hw.has_of_lendsVal hv
  have hends : Ends w s table.type v (index < table.size) .tableIndex () (.value ()) :=
    (Ends.iff_run fun _ => set_ends hw₀ h hvals).mpr ⟨w', hrun⟩
  obtain ⟨-, hkind, hforeign, hindex⟩ := hends.of_value
  obtain ⟨x, hx⟩ := (hw₀.val_cases hvals s).resolve_right hforeign
  obtain ⟨w₁, hset, hw₁, hkeeps⟩ :=
    run_set hw₀ hs hheld hvals h.item h.guest h.found hkind (h.sense hkind hx) hx hindex
  cases hset.symm.trans hrun
  obtain ⟨v', w₂, hget, hyields⟩ := run_get hw₁ hkeeps
  have hw₂ : Invariant (0 + (Ledger.owns (Val.sharesAll [v']) + L)) w₂ :=
    (get_leaves (Ledger.has_of_tenure hs) hheld _).run_value hw₁ hget
  exact ⟨x, v', w₂, hx, hget, (List.forall₂_cons.mp (hw₂.means hyields)).1⟩

/-- Handles of one item are the same object. -/
theorem Invariant.sameObject (hw : Invariant L w) (ht : w.Orderly) (hs : .tenure s known none ∈ L)
    (hg : w.guest? s = some g) {a b : Item} {p : Guest.Place} (hka : a.kind = p.kind)
    (hkb : b.kind = p.kind) (ha : w.ItemHandle s a.handle p) (hb : w.ItemHandle s b.handle p)
    (hheld : L.Has (.handle b.handle (.item b.kind))) : w.SameObject s a b := by
  have hw₀ : Invariant (0 + L) w := by rwa [zero_add]
  have halike : ∀ {α : Type} (op : ItemOperation (Code κ) Pool a.kind α),
      (op.on s b.handle).run w = (op.on s a.handle).run w := fun op =>
    op.run_congr hka.symm ((hw₀.drain s).2 _ _ hb) ((hw₀.drain s).2 _ _ ha)
  obtain ⟨kind, a⟩ := a
  obtain ⟨kind', b⟩ := b
  obtain rfl : kind = p.kind := hka
  obtain rfl : kind' = p.kind := hkb
  have hwithin := hw.within hb hg
  refine ⟨rfl, ⟨p, rfl, ha, hb⟩, halike, fun hkind offset bytes buffer w' hlen hrun => ?_,
    fun hkind v w' hv hrun => ?_, fun hkind index v w' hv hrun => ?_⟩
  · obtain ⟨i, rfl⟩ := Guest.Place.exists_memory hkind
    have hmemory : w.HasMemory s g b i g.memories[i] :=
      ⟨hg, hb, Array.getElem?_eq_getElem hwithin⟩
    exact Memory.run_readInto_of_run_write (Memory.hasMemory_drain hw₀ hmemory) hlen
      ((halike (.write offset bytes)).trans hrun)
  · obtain ⟨i, rfl⟩ := Guest.Place.exists_global hkind
    exact Global.run_get_of_run_set hw hs hheld hv hg ((halike (.set v)).trans hrun)
  · obtain ⟨i, rfl⟩ := Guest.Place.exists_table hkind
    have htable : g.tables[i]? = some g.tables[i] := Array.getElem?_eq_getElem hwithin
    exact Table.run_get_of_run_set hw hs hheld hv
      ⟨hg, hb, htable, ((ht.rooted s g hg).tables i _ htable).kind⟩
      ((halike (.setElement index v)).trans hrun)

end Written

end WasmHost.Host
