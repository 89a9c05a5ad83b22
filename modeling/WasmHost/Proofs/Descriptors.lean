import WasmHost.Proofs.Rejections
import WasmHost.Proofs.Exports

/-!
# Types come back as they were given

A type goes out to the engine as numbers when an item is made, and comes back as numbers when the item
is asked for its type. What comes back is what was given, except where the numbers cannot tell two types
apart: the greatest word as an upper limit stands for none. Limits that do not fit are refused, and
never cut off.

Between the types of the interface and those of the engine there are two translations, one in each
direction, written independently of each other. If one of them had its cases in another order or
forgot a flag, items would still be made and would still work, but would show a type that they do
not have. That the round trip is the identity is what excludes this. It is proved on the wire first,
where it is about numbers, and then for the operations, where it must be seen that the type which is
asked for is the one that was put in.

The round trip is *not* the identity in one place. A maximum is written as a word, and the greatest
word says that there is none, so this limit cannot be distinguished. `carried` is what a type has
become on the way, and the statements are about it; it differs from the type in this case only,
which is part of what is claimed.

Types are refused at two points, for limits that do not fit the engine's 32 bits, and for tables of
what is no reference. Both are decided from the wire alone and before anything is made.
-/

namespace WasmHost

theorem Kind.isReference_iff {k : Kind} : k.isReference = true ↔ k = .funcref ∨ k = .externref := by
  cases k <;> simp [isReference]

namespace Host

namespace Wire

/-! ## Limits on the wire

Reading is analysed once for limits that fit and once for limits that do not. That the two cases
exhaust all limits is why nothing is ever cut off. -/

/-- Limits as they come back: the greatest word as an upper limit has become none. -/
def carried (l : Limits) : Limits := ⟨l.min, if l.max = some unlimited then none else l.max⟩

/-- The limits fit into 32 bits, all but an upper limit that stands for none. -/
def Narrow (l : Limits) : Prop :=
  l.min.toNat < Nat.pow 2 32 ∧ ∀ m, l.max = some m → m ≠ unlimited → m.toNat < Nat.pow 2 32

/-- The limits that a memory type may have. -/
def Admits (type : MemoryType) : Prop := type.wide = true ∨ Narrow type.limits

/-- A memory type as it comes back. -/
def carriedMemory (type : MemoryType) : MemoryType := ⟨carried type.limits, type.wide, false⟩

/-- A table type as it comes back. -/
def carriedTable (type : TableType) : TableType := ⟨type.element, carried type.limits⟩

theorem carried_eq_self {l : Limits} (h : l.max ≠ some unlimited) : carried l = l := by
  simp [carried, h]

@[simp] theorem carried_carried (l : Limits) : carried (carried l) = carried l := by
  unfold carried
  split <;> simp_all

@[simp] theorem read_ofLimits (l : Limits) : (ofLimits l).read = carried l := by
  obtain ⟨min, max⟩ := l
  cases max with
  | none => simp [ofLimits, RawLimits.read, carried]
  | some m => by_cases h : m = unlimited <;> simp [ofLimits, RawLimits.read, carried, h]

theorem narrow_eq_ok {n : UInt64} (h : n.toNat < Nat.pow 2 32) : narrow n = .ok n := if_pos h

theorem narrow_eq_error {n : UInt64} (h : ¬n.toNat < Nat.pow 2 32) : narrow n = .error .narrowing :=
  if_neg h

/-- What has become of an upper limit is none, or the same limit. -/
theorem max_carried (l : Limits) :
    (carried l).max = none ∧ (∀ m, l.max = some m → m = unlimited) ∨
      ∃ m, (carried l).max = some m ∧ l.max = some m ∧ m ≠ unlimited := by
  obtain ⟨min, _ | m⟩ := l
  · exact .inl ⟨rfl, by simp⟩
  · by_cases h : m = unlimited
    · exact .inl ⟨by simp [carried, h], fun _ hm => (Option.some.inj hm).symm.trans h⟩
    · exact .inr ⟨m, by simp [carried, h], rfl, h⟩

theorem readNarrow_of_narrow {l : Limits} (h : Narrow l) :
    (ofLimits l).readNarrow = .ok (carried l) := by
  obtain ⟨hmin, hmax⟩ := h
  have hmin : narrow (carried l).min = .ok (carried l).min := narrow_eq_ok hmin
  have hself : ∀ max, (carried l).max = max →
      Except.ok (ε := EngineFault) ⟨(carried l).min, max⟩ = .ok (carried l) := by
    rintro _ rfl
    rfl
  simp only [RawLimits.readNarrow, read_ofLimits, hmin]
  rcases max_carried l with ⟨hnone, -⟩ | ⟨m, hsome, hm, hne⟩
  · simp only [hnone]
    exact hself none hnone
  · simp only [hsome, narrow_eq_ok (hmax m hm hne)]
    exact hself (some m) hsome

theorem readNarrow_of_not_narrow {l : Limits} (h : ¬Narrow l) :
    (ofLimits l).readNarrow = .error .narrowing := by
  simp only [RawLimits.readNarrow, read_ofLimits]
  by_cases hmin : l.min.toNat < Nat.pow 2 32
  · -- It is the upper limit that does not fit.
    have hmin' : narrow (carried l).min = .ok (carried l).min := narrow_eq_ok hmin
    rcases max_carried l with ⟨-, hnone⟩ | ⟨m, hsome, hm, hne⟩
    · exact absurd ⟨hmin, fun m hm hne => absurd (hnone m hm) hne⟩ h
    · have hbig : ¬m.toNat < Nat.pow 2 32 := fun hsmall => h ⟨hmin, fun m' hm' _ =>
        Option.some.inj (hm.symm.trans hm') ▸ hsmall⟩
      simp only [hmin', hsome, narrow_eq_error hbig]
      rfl
  · rw [show narrow (carried l).min = .error .narrowing from narrow_eq_error hmin]
    rfl

/-! ## Types on the wire

For each sort of type: what was written is read, and what is shown is what was written. -/

@[simp] theorem mapM_readKind (ks : List Kind) :
    (ks.map kindByte).mapM readKind = Except.ok (ε := EngineFault) ks := by
  induction ks with
  | nil => rfl
  | cons k ks ih =>
    rw [List.map_cons, List.mapM_cons, readKind_kindByte, ih]
    rfl

theorem read_ofSignature (type : Signature) : (ofSignature type).read = .ok type := by
  simp only [RawSignature.read, ofSignature, RawSignature.write, mapM_readKind]
  rfl

theorem read_ofGlobal (type : GlobalType) : (ofGlobal type).read = .ok type := by
  obtain ⟨content, writable⟩ := type
  cases writable <;> simp [RawGlobal.read, ofGlobal, RawGlobal.write, readKind_kindByte, Except.map]

theorem shown_global (type : GlobalType) : shown (.global type) = .global type := by
  obtain ⟨content, writable⟩ := type
  cases writable <;>
    simp [shown, RawGlobal.shown, toldGlobal, RawGlobal.write, shownKind_toldKind]

theorem read_ofMemory_of_admits {type : MemoryType} (h : Admits type) :
    (ofMemory type).read = .ok (carriedMemory type) := by
  obtain ⟨limits, wide, shared⟩ := type
  cases wide with
  | true => simp [RawMemory.read, ofMemory, carriedMemory]
  | false =>
    have hnarrow : Narrow limits := h.resolve_left Bool.false_ne_true
    simp [RawMemory.read, ofMemory, carriedMemory, readNarrow_of_narrow hnarrow, Except.map]

theorem read_ofMemory_of_not_admits {type : MemoryType} (h : ¬Admits type) :
    (ofMemory type).read = .error .narrowing := by
  obtain ⟨limits, wide, shared⟩ := type
  obtain ⟨hwide, hnarrow⟩ := not_or.mp h
  obtain rfl : wide = false := Bool.not_eq_true _ ▸ hwide
  simp [RawMemory.read, ofMemory, readNarrow_of_not_narrow hnarrow, Except.map]

theorem shown_carriedMemory (type : MemoryType) :
    shown (.memory (carriedMemory type)) = .memory (carriedMemory type) := by
  simp [shown, RawMemory.shown, ofMemory, carriedMemory]

theorem readReference_kindByte {k : Kind} (h : k.isReference = true) :
    readReference (kindByte k) = .ok k := by
  cases k <;> first | rfl | cases h

theorem readReference_kindByte_of_not {k : Kind} (h : k.isReference = false) :
    readReference (kindByte k) = .error (.notReferenceKind (kindByte k)) := by
  cases k <;> first | rfl | cases h

theorem read_ofTable_of_narrow {type : TableType} (href : type.element.isReference = true)
    (h : Narrow type.limits) : (ofTable type).read = .ok (carriedTable type) := by
  simp only [RawTable.read, ofTable, RawTable.write, readReference_kindByte href,
    readNarrow_of_narrow h]
  rfl

theorem read_ofTable_of_not_narrow {type : TableType} (href : type.element.isReference = true)
    (h : ¬Narrow type.limits) : (ofTable type).read = .error .narrowing := by
  simp only [RawTable.read, ofTable, RawTable.write, readReference_kindByte href,
    readNarrow_of_not_narrow h]
  rfl

theorem read_ofTable_of_not_reference {type : TableType} (href : type.element.isReference = false) :
    (ofTable type).read = .error (.notReferenceKind (kindByte type.element)) := by
  simp only [RawTable.read, ofTable, RawTable.write, readReference_kindByte_of_not href]
  rfl

theorem shown_carriedTable {type : TableType} (href : type.element.isReference = true) :
    shown (.table (carriedTable type)) = .table (carriedTable type) := by
  simp [shown, RawTable.shown, toldTable, RawTable.write, carriedTable,
    shownKind_toldReference href]

end Wire

open Act

variable {κ σ : Type} {w w' : World κ σ} {s : Nat}

/-! ## Asking for a type

The type that is shown is the one the item has in the guest part of the store. -/

/-- An item shows the type it was declared with. -/
theorem Item.run_type {item : Item} {p : Guest.Place} {g : Guest.Store} {type : ItemType}
    (hitem : (w.drain s).ItemHandle s item.handle p) (hg : w.guest? s = some g)
    (htype : g.declaredType? p = some type) :
    (Item.type s item : Act κ σ ItemType).run w = (.value (Wire.shown type), w.drain s) := by
  have hg₁ : (w.drain s).guest? s = some g := ((w.drain_settles s).guests s).trans hg
  refine (run_bind_value (run_context s w)).trans ((run_bind_value (run_guest hg₁)).trans ?_)
  refine (run_bind_value (run_place hitem)).trans ?_
  rw [htype]
  rfl

/-- A function shows the type it was declared with. -/
theorem Func.run_type {f place : Nat} {g : Guest.Store} {func : Guest.Func}
    (hf : (w.drain s).FuncHandle s f place) (hg : w.guest? s = some g)
    (hfunc : g.funcs[place]? = some func) :
    (Func.type s f : Act κ σ Signature).run w = (.value func.type, w.drain s) := by
  have hg₁ : (w.drain s).guest? s = some g := ((w.drain_settles s).guests s).trans hg
  refine (run_bind_value (run_context s w)).trans ((run_bind_value (run_funcPlace hf)).trans ?_)
  have htypeAt : (typeAt s place : Act κ σ Signature).run (w.drain s) =
      (.value func.type, w.drain s) := by
    refine (run_bind_value (run_guest hg₁)).trans ?_
    simp only [hfunc]
    rfl
  refine (run_bind_value htypeAt).trans ?_
  rw [Wire.shown_toldSignature]
  rfl

/-! ## Making an item

A function, a memory: these are made without a value, so nothing is marshalled. -/

/-- What is made is where it was put. -/
theorem run_allot {g g' : Guest.Store} {p : Guest.Place}
    {f : Guest.Store → Except EngineFault (Guest.Place × Guest.Store)}
    (hg : w.guest? s = some g) (hf : f g = .ok (p, g')) :
    ∃ h w', (allot s f : Act κ σ Handle).run w = (.value h, w') ∧ w'.ItemHandle s h p ∧
      w'.guest? s = some g' := by
  have hallot : w.allot s f = (some (.ok ((w.setGuest s g').newHandle s (.item s p)).1),
      ((w.setGuest s g').newHandle s (.item s p)).2) := by simp [World.allot, hg, hf]
  refine ⟨_, _, (run_bind_value (run_make (f := (·.allot s f)) hallot)).trans rfl,
    World.itemHandle_newHandle _ s p, ?_⟩
  exact (World.guest?_newHandle _ s _ s).trans (World.guest?_setGuest hg g')

/-- To register a closure leaves guest parts as they are, and makes nothing wait. -/
theorem World.Idle.register_idle (h : w.Idle s) (type : Signature) (code : κ) (captures : List Capture) :
    (w.register s type code captures).2.Idle s ∧
      (w.register s type code captures).2.guest? s = w.guest? s := by
  unfold World.register
  exact ⟨World.Idle.modifyStore (w := { w with registry := _, chronicle := _ }) h s fun _ => rfl,
    guestAt_modify_same w.stores s s fun _ => rfl⟩

/-- What has been registered is found under its key. -/
theorem World.registry_get?_register (w : World κ σ) (s : Nat) (type : Signature) (code : κ)
    (captures : List Capture) :
    (w.register s type code captures).2.registry.get? (w.register s type code captures).1.1 =
      some ⟨s, type, code, captures, w.chronicle.registered⟩ := by
  simp only [World.register, World.retainStore, World.modifyStore, Slab.get?_insert, if_true]

/-- A host function is put behind the functions that are there. -/
theorem World.Idle.newHostFunction_idle {g : Guest.Store} (h : w.Idle s) (hg : w.guest? s = some g)
    (key : Nat) (type : Signature) (r : Registration κ) :
    ∃ a w', w.newHostFunction s key type r = (some a, w') ∧ w'.Idle s ∧
      w'.FuncHandle s a g.funcs.size ∧ w'.guest? s = some (g.addFunc (.host key type)).2 ∧
      w'.registry = w.registry := by
  let chronicle : Chronicle κ :=
    { w.chronicle with functions := ⟨s, g.funcs.size, key, r⟩ :: w.chronicle.functions }
  have hidle : ({ w with chronicle }.setGuest s (g.addFunc (.host key type)).2).Idle s :=
    World.Idle.modifyStore (w := { w with chronicle }) h s fun _ => rfl
  have hg' : ({ w with chronicle }.setGuest s (g.addFunc (.host key type)).2).guest? s =
      some (g.addFunc (.host key type)).2 := World.guest?_setGuest (w := { w with chronicle }) hg _
  refine ⟨_, _, by simp only [World.newHostFunction, hg]; rfl, ?_, World.itemHandle_newHandle _ s _,
    (World.guest?_newHandle _ s _ s).trans hg', rfl⟩
  exact World.Idle.modifyStore hidle s fun _ => rfl

namespace Func

/-- A host function is made, whatever its type, with its closure registered for it, and nothing waits
in its store. -/
theorem run_create {g : Guest.Store} (hg : w.guest? s = some g) (type : Signature) (code : κ)
    (captures : List Capture) :
    ∃ h w' i key number g', (create s type code captures : Act κ σ Handle).run w = (.value h, w') ∧
      w'.Idle s ∧ w'.FuncHandle s h i ∧ w'.guest? s = some g' ∧
      g'.funcs[i]? = some (.host key type) ∧
      w'.registry.get? key = some ⟨s, type, code, captures, number⟩ := by
  obtain ⟨c, hc, -⟩ := Option.bind_eq_some_iff.mp hg
  have hg₁ : (w.drain s).guest? s = some g := ((w.drain_settles s).guests s).trans hg
  obtain ⟨hidle₂, hg₂⟩ := (World.idle_drain hc).register_idle type code captures
  have hfound := (w.drain s).registry_get?_register s type code captures
  rcases hregister : (w.drain s).register s type code captures with ⟨⟨key, r⟩, w₂⟩
  rw [hregister] at hidle₂ hg₂ hfound
  obtain ⟨h, w₃, hmake, hidle₃, hitem, hg₃, hregistry⟩ :=
    hidle₂.newHostFunction_idle (hg₂.trans hg₁) key type r
  refine ⟨h, w₃, _, key, _, _, ?_, hidle₃, hitem, hg₃, by simp [Guest.Store.addFunc],
    hregistry ▸ hfound⟩
  refine (run_bind_value (run_context s w)).trans ?_
  refine (run_bind_value (run_make (f := (·.register s type code captures)) hregister)).trans ?_
  rw [Wire.read_ofSignature]
  exact (run_bind_value (run_make (f := (·.newHostFunction s key type r)) hmake)).trans rfl

end Func

/-- An item that has been made in a store, with its handle. -/
def World.Made (w : World κ σ) (s : Nat) (h : Handle) (kind : ItemKind) (type : ItemType) : Prop :=
  ∃ p g, p.kind = kind ∧ w.ItemHandle s h p ∧ w.guest? s = some g ∧ g.declaredType? p = some type

namespace Memory

/-- A memory whose limits are admitted is made with the limits that come over the wire. -/
theorem run_create {g : Guest.Store} {type : MemoryType} (hg : w.guest? s = some g)
    (h : Wire.Admits type) : ∃ a w', (create s type : Act κ σ Handle).run w = (.value a, w') ∧
      w'.Made s a .memory (.memory (Wire.carriedMemory type)) := by
  have hg₁ : (w.drain s).guest? s = some g := ((w.drain_settles s).guests s).trans hg
  obtain ⟨a, w', hallot, hitem, hg'⟩ := run_allot (w := w.drain s)
    (f := fun g => .ok (.memory g.memories.size,
      { g with memories := g.memories.push (.ofType (Wire.carriedMemory type)) })) hg₁ rfl
  refine ⟨a, w', (run_bind_value (run_context s w)).trans ?_, _, _, rfl, hitem, hg', ?_⟩
  · rw [Wire.read_ofMemory_of_admits h]
    exact hallot
  · simp [Guest.Store.declaredType?, Guest.Memory.ofType]

/-- Limits that are not admitted are refused. -/
theorem run_create_refused {type : MemoryType} (h : ¬Wire.Admits type) :
    (create s type : Act κ σ Handle).run w = (.failure (.engine .narrowing), w.drain s) := by
  refine (run_bind_value (run_context s w)).trans ?_
  rw [Wire.read_ofMemory_of_not_admits h]
  rfl

end Memory

/-! ## Making an item with a value

A global or a table takes a first value, which is packed before the item is made and released after
it. The item must be shown to be still there after that. It is owned by whoever made it, and its
handle is therefore not reclaimed. -/

variable {v : Val} {x : Sense}

/-- A value that is taken over by the engine stays of its kind. -/
theorem World.Holds.kind_eq {u : Guest.Value} (hu : w'.Holds s u x) (hv : w.Means s v x) :
    u.kind = v.kind := by
  cases hv <;> cases hu <;> rfl

/-- A value is packed, the engine takes it over and makes an item with it, and what was packed is
released. -/
theorem run_filling {β : Type} (take : Packed s → Act κ σ β)
    (f : β → Guest.Store → Except EngineFault (Guest.Place × Guest.Store)) {g : Guest.Store}
    (kind : ItemKind) (type : ItemType) (hg : w.guest? s = some g) (hv : w.Means s v x)
    (htake : ∀ (p : Packed s) (w₁ : World κ σ), w₁.Packs p x → w₁.guest? s = some g →
      ∃ b w₂, (take p).run w₁ = (.value b, w₂) ∧ w₂.guest? s = some g ∧
        ∃ q g', f b g = .ok (q, g') ∧ q.kind = kind ∧ g'.declaredType? q = some type) :
    ∃ p w₁ a w₂ w₃, (pack s v : Act κ σ (Packed s)).run w = (.value p, w₁) ∧
      (take p >>= fun b => allot s (f b)).run w₁ = (.value a, w₂) ∧
      (releasePacked p : Act κ σ Unit).run w₂ = (.value (), w₃) ∧ w₂.Made s a kind type ∧
      w₂.Settles w₃ := by
  obtain ⟨p, w₁, hpack, hp, hw₁, -⟩ := run_pack hv
  obtain ⟨b, w₂, htaken, hg₂, q, g', hf, hkind, htype⟩ := htake p w₁ hp ((hw₁.guests s).trans hg)
  obtain ⟨a, w₃, hallot, hitem, hg₃⟩ := run_allot hg₂ hf
  obtain ⟨⟨⟩, w₄, hrelease, hw₄⟩ := releasePacked_settling p w₃
  exact ⟨p, w₁, a, w₃, w₄, hpack, (run_bind_value htaken).trans hallot, hrelease,
    ⟨q, g', hkind, hitem, hg₃, htype⟩, hw₄⟩

section Filled

variable [Keeper κ σ] {R L : Ledger κ} {known : List (Pin κ)}

/-- An item that has been made shows its type. -/
theorem World.Made.run_type {h : Handle} {kind : ItemKind} {type : ItemType} (hw : Invariant (R + L) w)
    (hmade : w.Made s h kind type) : (Item.type s ⟨kind, h⟩ : Act κ σ ItemType).run w =
      (.value (Wire.shown type), w.drain s) := by
  obtain ⟨p, g, -, hitem, hg, htype⟩ := hmade
  exact Item.run_type ((hw.drain s).2 h p hitem) hg htype

/-- What has been made is there once everything else has settled. -/
theorem World.Made.settles {h : Handle} {kind : ItemKind} {type : ItemType} (hmade : w.Made s h kind type)
    (hw' : Invariant (R + .own (.handle h (.item kind)) ::ₘ L) w') (hsettles : w.Settles w') :
    w'.Made s h kind type := by
  obtain ⟨p, g, rfl, hitem, hg, htype⟩ := hmade
  refine ⟨p, g, rfl, hw'.itemHandle ?_ hitem hsettles.handles, (hsettles.guests s).trans hg, htype⟩
  exact Ledger.has_own _ _

variable {g : Guest.Store} (hw : Invariant (R + L) w) (hs : .tenure s known none ∈ L)
  (hvals : ∀ y ∈ v.shares, L.Has y) (hg : w.guest? s = some g) (hv : w.Means s v x)

include hw hs hvals hg hv

/-- A global is made with the type that comes over the wire, which is its own. -/
theorem Global.run_create {type : GlobalType} (hkind : v.kind = type.content) :
    ∃ a w', (create s type v : Act κ σ Handle).run w = (.value a, w') ∧
      Invariant (R + .own (.handle a (.item .global)) ::ₘ L) w' ∧
      w'.Made s a .global (.global type) := by
  have hg₁ : (w.drain s).guest? s = some g := ((w.drain_settles s).guests s).trans hg
  have hv₁ : (w.drain s).Means s v x := hv.carried fun b j hb => (hw.drain s).2 b _ hb
  obtain ⟨p, w₁, a, w₂, w₃, hpack, htake, hrelease, hmade, hw₃⟩ := run_filling (adopt s)
    (fun value g => (Wire.addGlobal g type value).map fun p => (.global p.1, p.2))
    .global (.global type) hg₁ hv₁ fun p w₁ hp hg₁ => by
      obtain ⟨d, hd, -⟩ := Option.bind_eq_some_iff.mp hg₁
      obtain ⟨value, w₂, hadopt, hvalue, hw₂⟩ := run_adopt hp hd
      refine ⟨value, w₂, hadopt, (hw₂.guests s).trans hg₁, ?_⟩
      rw [Wire.addGlobal, if_pos ((hvalue.kind_eq hv).trans hkind)]
      exact ⟨_, _, rfl, rfl, by simp [Guest.Store.declaredType?, Guest.Store.addGlobal]⟩
  have hrun : (create s type v : Act κ σ Handle).run w = (.value a, w₃) := by
    unfold create
    simp only [hkind, ne_eq, not_true_eq_false, if_false]
    refine (run_bind_value (run_context s w)).trans ((run_bind_value hpack).trans ?_)
    refine run_ensuring_value ?_ hrelease
    rw [Wire.read_ofGlobal]
    exact htake
  have hinv := (create_leaves hs hvals).run_value hw hrun
  exact ⟨a, w₃, hrun, hinv, hmade.settles hinv hw₃⟩

/-- A table of references is made with the limits that come over the wire, if they fit. -/
theorem Table.run_create {type : TableType} (hkind : v.kind = type.element)
    (href : (∃ i, x = .func i) ∨ ∃ o, x = .object o) (helement : type.element.isReference = true)
    (h : Wire.Narrow type.limits) :
    ∃ a w', (create s type v : Act κ σ Handle).run w = (.value a, w') ∧
      Invariant (R + .own (.handle a (.item .table)) ::ₘ L) w' ∧
      w'.Made s a .table (.table (Wire.carriedTable type)) := by
  have hg₁ : (w.drain s).guest? s = some g := ((w.drain_settles s).guests s).trans hg
  have hv₁ : (w.drain s).Means s v x := hv.carried fun b j hb => (hw.drain s).2 b _ hb
  obtain ⟨p, w₁, a, w₂, w₃, hpack, htake, hrelease, hmade, hw₃⟩ := run_filling (adoptRef s)
    (fun r g => (Wire.addTable g (Wire.carriedTable type) r).map fun p => (.table p.1, p.2))
    .table (.table (Wire.carriedTable type)) hg₁ hv₁ fun p w₁ hp hg₁ => by
      obtain ⟨d, hd, -⟩ := Option.bind_eq_some_iff.mp hg₁
      obtain ⟨r, w₂, hadopt, hr, hw₂⟩ := run_adoptRef hp hd href
      have hkind' : r.kind = (Wire.carriedTable type).element := (hr.kind_eq hv).trans hkind
      refine ⟨r, w₂, hadopt, (hw₂.guests s).trans hg₁, ?_⟩
      rw [Wire.addTable, if_pos hkind']
      exact ⟨_, _, rfl, rfl, by simp [Guest.Store.declaredType?, Guest.Store.addTable, Guest.Table.ofType]⟩
  have hrun : (create s type v : Act κ σ Handle).run w = (.value a, w₃) := by
    unfold create
    simp only [hkind, ne_eq, not_true_eq_false, if_false]
    refine (run_bind_value (run_context s w)).trans ((run_bind_value hpack).trans ?_)
    refine run_ensuring_value ?_ hrelease
    rw [Wire.read_ofTable_of_narrow helement h]
    exact htake
  have hinv := (create_leaves hs hvals).run_value hw hrun
  exact ⟨a, w₃, hrun, hinv, hmade.settles hinv hw₃⟩

omit hs hvals hg in
/-- A table type that the engine does not read is refused. -/
theorem Table.run_create_refused {type : TableType} {fault : EngineFault} (hkind : v.kind = type.element)
    (h : (Wire.ofTable type).read = .error fault) :
    ∃ w', (create s type v : Act κ σ Handle).run w = (.failure (.engine fault), w') := by
  have hv₁ : (w.drain s).Means s v x := hv.carried fun b j hb => (hw.drain s).2 b _ hb
  obtain ⟨p, w₁, hpack, -⟩ := run_pack hv₁
  obtain ⟨⟨⟩, w₂, hrelease, -⟩ := releasePacked_settling p w₁
  refine ⟨w₂, ?_⟩
  unfold create
  simp only [hkind, ne_eq, not_true_eq_false, if_false]
  refine (run_bind_value (run_context s w)).trans ((run_bind_value hpack).trans ?_)
  rw [h]
  exact run_ensuring (m := fail (.engine fault)) rfl rfl hrelease

end Filled

/-! ## Embedders

In each of these cases there is a world after the making, and the type is asked for in it. -/

/-- An item of another kind than its first value is refused. -/
theorem Global.run_create_of_kind {type : GlobalType} (h : v.kind ≠ type.content) :
    (create s type v : Act κ σ Handle).run w = (.failure (.wrongKind type.content v.kind), w) := by
  unfold create
  rw [if_pos h]
  rfl

theorem Table.run_create_of_kind {type : TableType} (h : v.kind ≠ type.element) :
    (create s type v : Act κ σ Handle).run w = (.failure (.wrongKind type.element v.kind), w) := by
  unfold create
  rw [if_pos h]
  rfl

/-- What is made in a store shows the type that it was made with, as it comes over the wire. -/
structure World.KeepsDescriptors (w : World (Code κ) Pool) : Prop where
  /-- A function can be made of any type. -/
  func : ∀ (s : Nat) (g : Guest.Store) (type : Signature) (code : Code κ) (captures : List Capture),
    w.InUse s g → ∃ h w', (Func.create s type code captures : Job κ Handle).run w = (.value h, w') ∧
      ((Func.type s h : Job κ Signature).run w').1 = .value type
  global : ∀ (s : Nat) (g : Guest.Store) (type : GlobalType) (v : Val) (h : Handle)
    (w' : World (Code κ) Pool), w.InUse s g → w.user.LendsVal v →
    (Global.create s type v : Job κ Handle).run w = (.value h, w') →
    ((Item.type s ⟨.global, h⟩ : Job κ ItemType).run w').1 = .value (.global type)
  memory : ∀ (s : Nat) (g : Guest.Store) (type : MemoryType) (h : Handle) (w' : World (Code κ) Pool),
    w.InUse s g → (Memory.create s type : Job κ Handle).run w = (.value h, w') →
    ((Item.type s ⟨.memory, h⟩ : Job κ ItemType).run w').1 = .value (.memory (Wire.carriedMemory type))
  table : ∀ (s : Nat) (g : Guest.Store) (type : TableType) (v : Val) (h : Handle)
    (w' : World (Code κ) Pool), w.InUse s g → w.user.LendsVal v →
    (Table.create s type v : Job κ Handle).run w = (.value h, w') →
    ((Item.type s ⟨.table, h⟩ : Job κ ItemType).run w').1 = .value (.table (Wire.carriedTable type))
  /-- A global is made of any type that its first value is of. -/
  globalMade : ∀ (s : Nat) (g : Guest.Store) (type : GlobalType) (v : Val), w.InUse s g →
    w.user.LendsVal v → ¬w.ForeignVal s v → v.kind = type.content →
    ∃ h w', (Global.create s type v : Job κ Handle).run w = (.value h, w')
  /-- A memory is made if it is wide or if its limits fit, -/
  memoryMade : ∀ (s : Nat) (g : Guest.Store) (type : MemoryType), w.InUse s g →
    (type.wide = true ∨ Wire.Narrow type.limits) →
    ∃ h w', (Memory.create s type : Job κ Handle).run w = (.value h, w')
  /-- and is refused otherwise. -/
  memoryRefused : ∀ (s : Nat) (type : MemoryType), type.wide = false → ¬Wire.Narrow type.limits →
    (Memory.create s type : Job κ Handle).run w = (.failure (.engine .narrowing), w.drain s)
  /-- A table of references is made if its limits fit, -/
  tableMade : ∀ (s : Nat) (g : Guest.Store) (type : TableType) (v : Val), w.InUse s g →
    w.user.LendsVal v → ¬w.ForeignVal s v → v.kind = type.element → type.element.isReference = true →
    Wire.Narrow type.limits → ∃ h w', (Table.create s type v : Job κ Handle).run w = (.value h, w')
  /-- and is refused otherwise. -/
  tableRefused : ∀ (s : Nat) (g : Guest.Store) (type : TableType) (v : Val), w.InUse s g →
    w.user.LendsVal v → ¬w.ForeignVal s v → v.kind = type.element → type.element.isReference = true →
    ¬Wire.Narrow type.limits → ∃ w', (Table.create s type v : Job κ Handle).run w =
      (.failure (.engine .narrowing), w') ∧ w.Spared s w'
  /-- There are no tables of anything else. -/
  tableKind : ∀ (s : Nat) (g : Guest.Store) (type : TableType) (v : Val), w.InUse s g →
    w.user.LendsVal v → ¬w.ForeignVal s v → v.kind = type.element → type.element.isReference = false →
    ∃ fault w', (Table.create s type v : Job κ Handle).run w = (.failure (.engine fault), w') ∧
      w.Spared s w'

section Made

variable {L : Ledger (Code κ)} {w w' : World (Code κ) Pool} {g : Guest.Store} {h : Handle}
  (hw : Invariant L w) (huse : w.InUse s g) (hv : w.user.LendsVal v)

include hw huse

/-- A memory that has been made shows its type. -/
theorem Memory.type_of_create {type : MemoryType}
    (hrun : (create s type : Job κ Handle).run w = (.value h, w')) :
    ((Item.type s ⟨.memory, h⟩ : Job κ ItemType).run w').1 =
      .value (.memory (Wire.carriedMemory type)) := by
  have hw₀ : Invariant (0 + L) w := by rwa [zero_add]
  have hinv := create_leaves.run_value hw₀ hrun
  by_cases h : Wire.Admits type
  · obtain ⟨a, w₁, hrun', hmade⟩ := run_create huse.guest h
    obtain ⟨⟨⟩, rfl⟩ := Prod.mk.inj (hrun.symm.trans hrun')
    rw [hmade.run_type hinv, Wire.shown_carriedMemory]
  · cases hrun.symm.trans (run_create_refused h)

include hv

/-- A first value of the kind that a global holds is taken, or it is a function of another store. -/
theorem Global.create_cases (type : GlobalType) (hkind : v.kind = type.content) :
    (∃ a w', (create s type v : Job κ Handle).run w = (.value a, w') ∧
      Invariant (0 + .own (.handle a (.item .global)) ::ₘ L) w' ∧
      w'.Made s a .global (.global type)) ∨ w.ForeignVal s v := by
  obtain ⟨known, hs⟩ := hw.tenure_of_inUse huse
  have hvals := hw.has_of_lendsVal hv
  have hw₀ : Invariant (0 + L) w := by rwa [zero_add]
  rcases hw₀.val_cases hvals s with ⟨x, hx⟩ | hf
  · exact .inl (run_create hw₀ hs hvals huse.guest hx hkind)
  · exact .inr hf

/-- A global that has been made shows its type. -/
theorem Global.type_of_create {type : GlobalType}
    (hrun : (create s type v : Job κ Handle).run w = (.value h, w')) :
    ((Item.type s ⟨.global, h⟩ : Job κ ItemType).run w').1 = .value (.global type) := by
  by_cases hkind : v.kind = type.content
  · rcases create_cases hw huse hv type hkind with ⟨a, w₁, hrun', hinv, hmade⟩ | hf
    · obtain ⟨⟨⟩, rfl⟩ := Prod.mk.inj (hrun.symm.trans hrun')
      rw [hmade.run_type hinv, Wire.shown_global]
    · have hw₀ : Invariant (0 + L) w := by rwa [zero_add]
      exact absurd hrun (create_refused (E := fun _ => True) hw₀ hf trivial).run_ne_value
  · cases hrun.symm.trans (run_create_of_kind hkind)

/-- What becomes of a table whose first value is of the kind of its elements: it is made, or its type is
refused, or the value is a function of another store. -/
theorem Table.create_cases (type : TableType) (hkind : v.kind = type.element) :
    w.ForeignVal s v ∨
    (type.element.isReference = true ∧ Wire.Narrow type.limits ∧
      ∃ a w', (create s type v : Job κ Handle).run w = (.value a, w') ∧
        Invariant (0 + .own (.handle a (.item .table)) ::ₘ L) w' ∧
        w'.Made s a .table (.table (Wire.carriedTable type))) ∨
    ∃ fault w', (type.element.isReference = true → ¬Wire.Narrow type.limits ∧ fault = .narrowing) ∧
      (create s type v : Job κ Handle).run w = (.failure (.engine fault), w') ∧ w.Spared s w' := by
  obtain ⟨known, hs⟩ := hw.tenure_of_inUse huse
  have hvals := hw.has_of_lendsVal hv
  have hw₀ : Invariant (0 + L) w := by rwa [zero_add]
  have hspares := create_spares ((hw₀.drain s).1.backs hvals) type
  rcases hw₀.val_cases hvals s with ⟨x, hx⟩ | hf
  · right
    have hrefused : ∀ fault, (Wire.ofTable type).read = .error fault →
        ∃ w', (create s type v : Job κ Handle).run w = (.failure (.engine fault), w') ∧
          w.Spared s w' := by
      intro fault hread
      obtain ⟨w', hrun⟩ := run_create_refused hw₀ hx hkind hread
      have hspared := hspares (by rw [hrun]; trivial)
      rw [hrun] at hspared
      exact ⟨w', hrun, hspared⟩
    -- The value is own. What is left to be refused is the type.
    cases helement : type.element.isReference with
    | false =>
      obtain ⟨w', hrun, hspared⟩ := hrefused _ (Wire.read_ofTable_of_not_reference helement)
      exact .inr ⟨_, w', by simp, hrun, hspared⟩
    | true =>
      by_cases hnarrow : Wire.Narrow type.limits
      · have href : v.kind = .funcref ∨ v.kind = .externref :=
          Kind.isReference_iff.mp ((congrArg Kind.isReference hkind).trans helement)
        exact .inl ⟨rfl, hnarrow,
          run_create hw₀ hs hvals huse.guest hx hkind (hx.reference href) helement hnarrow⟩
      · obtain ⟨w', hrun, hspared⟩ := hrefused _ (Wire.read_ofTable_of_not_narrow helement hnarrow)
        exact .inr ⟨_, w', fun _ => ⟨hnarrow, rfl⟩, hrun, hspared⟩
  · exact .inl hf

/-- A table that has been made shows its type. -/
theorem Table.type_of_create {type : TableType}
    (hrun : (create s type v : Job κ Handle).run w = (.value h, w')) :
    ((Item.type s ⟨.table, h⟩ : Job κ ItemType).run w').1 =
      .value (.table (Wire.carriedTable type)) := by
  by_cases hkind : v.kind = type.element
  · rcases create_cases hw huse hv type hkind with
      hf | ⟨href, -, a, w₁, hrun', hinv, hmade⟩ | ⟨fault, w₁, -, hrun', -⟩
    · have hw₀ : Invariant (0 + L) w := by rwa [zero_add]
      exact absurd hrun (create_refused (E := fun _ => True) hw₀ hf trivial).run_ne_value
    · obtain ⟨⟨⟩, rfl⟩ := Prod.mk.inj (hrun.symm.trans hrun')
      rw [hmade.run_type hinv, Wire.shown_carriedTable href]
    · cases hrun.symm.trans hrun'
  · cases hrun.symm.trans (run_create_of_kind hkind)

end Made

theorem Invariant.keepsDescriptors {L : Ledger (Code κ)} {w : World (Code κ) Pool}
    (hw : Invariant L w) : w.KeepsDescriptors where
  func s g type code captures huse := by
    obtain ⟨h, w', i, key, number, g', hrun, hidle, hitem, hg, hfunc, -⟩ :=
      Func.run_create huse.guest type code captures
    have hitem' : (w'.drain s).FuncHandle s h i := by rwa [hidle.drain_eq]
    exact ⟨h, w', hrun, congrArg Prod.fst (Func.run_type hitem' hg hfunc)⟩
  global s g type v h w' huse hv hrun := Global.type_of_create hw huse hv hrun
  memory s g type h w' huse hrun := Memory.type_of_create hw huse hrun
  table s g type v h w' huse hv hrun := Table.type_of_create hw huse hv hrun
  globalMade s g type v huse hv hforeign hkind := by
    obtain ⟨h, w', hrun, -⟩ := (Global.create_cases hw huse hv type hkind).resolve_right hforeign
    exact ⟨h, w', hrun⟩
  memoryMade s g type huse hadmits := by
    obtain ⟨h, w', hrun, -⟩ := Memory.run_create huse.guest hadmits
    exact ⟨h, w', hrun⟩
  memoryRefused s type hwide hnarrow :=
    Memory.run_create_refused fun h => h.elim (by simp [hwide]) hnarrow
  tableMade s g type v huse hv hforeign hkind helement hnarrow := by
    rcases (Table.create_cases hw huse hv type hkind).resolve_left hforeign with
      ⟨-, -, h, w', hrun, -⟩ | ⟨fault, w', hwhy, -⟩
    · exact ⟨h, w', hrun⟩
    · exact absurd hnarrow (hwhy helement).1
  tableRefused s g type v huse hv hforeign hkind helement hnarrow := by
    rcases (Table.create_cases hw huse hv type hkind).resolve_left hforeign with
      ⟨-, hnarrow', -⟩ | ⟨fault, w', hwhy, hrun, hspared⟩
    · exact absurd hnarrow' hnarrow
    · obtain ⟨-, rfl⟩ := hwhy helement
      exact ⟨w', hrun, hspared⟩
  tableKind s g type v huse hv hforeign hkind helement := by
    rcases (Table.create_cases hw huse hv type hkind).resolve_left hforeign with
      ⟨helement', -⟩ | ⟨fault, w', -, hrun, hspared⟩
    · exact absurd (helement.symm.trans helement') Bool.false_ne_true
    · exact ⟨fault, w', hrun, hspared⟩

/-- In every world that an embedder reaches, what is made in a store shows the type that it was made
with, as it comes over the wire, and limits that do not fit are refused. Only the greatest word as an
upper limit comes over the wire as something else. -/
theorem Embedder.descriptors_kept (embedder : Embedder κ) (depth : Nat)
    (programs : List (Program κ Unit)) (order : List Nat) :
    ((embedder.start depth programs).run order).world.KeepsDescriptors ∧
      ∀ l : Limits, l.max ≠ some Wire.unlimited → Wire.carried l = l := by
  obtain ⟨Ls, -, hw⟩ := (embedder.safe_start depth programs).run order
  exact ⟨hw.keepsDescriptors, fun _ => Wire.carried_eq_self⟩

/-- A memory is made of limits that fit, and shows them; one whose limits do not fit is refused. -/
theorem Embedder.descriptors_kept_lent :
    (∃ h w, (Memory.create 0 ⟨⟨1, some 2⟩, false, false⟩ : Job Unit Handle).run Specimen.world =
        (.value h, w) ∧
      ((Item.type 0 ⟨.memory, h⟩ : Job Unit ItemType).run w).1 =
        .value (.memory ⟨⟨1, some 2⟩, false, false⟩)) ∧
    (Memory.create 0 ⟨⟨4294967296, none⟩, false, false⟩ : Job Unit Handle).run Specimen.world =
      (.failure (.engine .narrowing), Specimen.world.drain 0) := by
  obtain ⟨hkeeps, hcarried⟩ :=
    Specimen.embedder.descriptors_kept 1 Specimen.programs Specimen.order
  rw [← Specimen.world_eq] at hkeeps
  constructor
  · obtain ⟨h, w, hrun⟩ := hkeeps.memoryMade 0 _ ⟨⟨1, some 2⟩, false, false⟩ Specimen.inUse_store
      (.inr ⟨by decide, by simp⟩)
    have htype := hkeeps.memory 0 _ _ h w Specimen.inUse_store hrun
    rw [Wire.carriedMemory, hcarried _ (by decide)] at htype
    exact ⟨h, w, hrun, htype⟩
  · exact hkeeps.memoryRefused 0 ⟨⟨4294967296, none⟩, false, false⟩ rfl fun h =>
      absurd h.1 (by decide)

end Host

end WasmHost
