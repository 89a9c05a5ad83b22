import WasmHost.Proofs.Sparing
import WasmHost.Proofs.Boundary

/-!
# Rejected operations

An operation that ends with an error or a panic leaves every store as it was, but for handles that
waited and have been reclaimed. What is done keeps to what was declared: what globals and tables hold is
of their kinds, items keep their types, and constants keep their values.

That a rejected operation leaves everything alone could be read as "the world is the same", which is
not true (see `Sparing`), or as "the global is the same", which is too little, since the operation
might have done something to another store or to fuel. What is proved is in between and says
everything of the guest parts (`Spared.guests`): of all stores, all of them, bit by bit.

Calls and instances are a special case. They may fail after guest code has run, and then stores have
changed, by design. They spare the stores if they are refused *before* guest code runs, and this is
what is stated of them.

The second part, that constants keep their values and items their types, is about operations that do
take effect. It is read off from how typed stores evolve.
-/

namespace WasmHost.Host

open Act

variable {κ σ α : Type}

/-! ## Stores that are spared

Everything begins with draining. So the world is alike to the one before, or to the one after
draining, depending on what the operation checked first. -/

/-- Guest parts are as they were, with all that globals, tables and memories hold, and with their fuel,
and so are the host functions. Nothing else has been done, but that what waited in a store may have
been reclaimed. -/
structure World.Spared (s : Nat) (w w' : World κ σ) : Prop where
  guests : ∀ t, w'.guest? t = w.guest? t
  registry : w'.registry = w.registry
  functions : w'.chronicle.functions = w.chronicle.functions
  drained : w.Alike w' ∨ (w.drain s).Alike w'

namespace World.Spared

variable {s : Nat} {w w' : World κ σ}

theorem of_alike (h : w.Alike w') : w.Spared s w' := ⟨h.guests, h.registry, h.functions, .inl h⟩

theorem of_drained (h : (w.drain s).Alike w') : w.Spared s w' where
  guests t := (h.guests t).trans ((w.drain_settles s).guests t)
  registry := h.registry.trans (w.drain_settles s).registry
  functions := h.functions.trans (w.drain_aside s).functions
  drained := .inr h

end World.Spared

/-- Run from a world, an operation on a store that ends with an error or a panic has spared the
stores. -/
def Act.Spares (m : Act κ σ α) (s : Nat) (w : World κ σ) : Prop :=
  (m.run w).1.Unwinds → w.Spared s (m.run w).2

namespace Act.Spares

variable {s : Nat} {w : World κ σ}

/-- Something is checked before the context is obtained. -/
theorem guard {c : Prop} {_ : Decidable c} {e : Error} {k : Unit → Act κ σ α}
    (hk : (k ()).Spares s w) : (if c then (Act.fail e >>= k) else k ()).Spares s w := by
  split
  · exact fun _ => .of_alike (.refl w)
  · exact hk

/-- Once the context is obtained, what is left is sparing. -/
theorem context {k : Unit → Act κ σ α} (hk : (k ()).Sparing (w.drain s)) :
    (Act.context s >>= k).Spares s w := by
  unfold Spares
  rw [run_bind_value (run_context s w)]
  exact fun h => .of_drained (hk h)

end Act.Spares

/-! ## Operations on items

Each proof reads like the operation: first what is looked at and checked, then what is packed, and
at the end the one step that takes effect, which always gives a value. -/

theorem Act.Sparing.allot {w : World κ σ} (s : Nat)
    (f : Guest.Store → Except EngineFault (Guest.Place × Guest.Store)) :
    (Host.allot s f : Act κ σ Handle).Sparing w := by
  intro h
  unfold Host.allot at h ⊢
  cases hg : w.guest? s with
  | none =>
    have hout : w.allot s f = (none, w) := by simp [World.allot, hg]
    rw [run_bind_value (run_make hout)] at h
    exact h.elim
  | some g =>
    cases hf : f g with
    | error fault =>
      have hout : w.allot s f = (some (.error fault), w) := by simp [World.allot, hg, hf]
      rw [run_bind_value (run_make hout)]
      exact .refl w
    | ok p =>
      rcases hout : w.allot s f with ⟨r, w'⟩
      obtain ⟨a, rfl⟩ : ∃ a, some (.ok a) = r :=
        ⟨_, by simpa [World.allot, hg, hf] using congrArg Prod.fst hout⟩
      rw [run_bind_value (run_make hout)] at h
      exact h.elim

section Items

variable {w : World κ σ} {s : Nat} {a : Handle} {v : Val}

theorem Global.at_looking (s : Nat) (a : Handle) :
    (Global.at_ s a : Act κ σ (Nat × Guest.Global)).Looking := by
  refine .bind (place_looking s a) fun p => ?_
  split
  · exact .bind (guest_looking s) fun g => .bind .orAbort fun _ => .pure
  · exact .abort

theorem Memory.at_looking (s : Nat) (a : Handle) :
    (Memory.at_ s a : Act κ σ (Nat × Guest.Memory)).Looking := by
  refine .bind (place_looking s a) fun p => ?_
  split
  · exact .bind (guest_looking s) fun g => .bind .orAbort fun _ => .pure
  · exact .abort

theorem Table.at_looking (s : Nat) (a : Handle) :
    (Table.at_ s a : Act κ σ (Nat × Guest.Table)).Looking := by
  refine .bind (place_looking s a) fun p => ?_
  split
  · exact .bind (guest_looking s) fun g => .bind .orAbort fun _ => .pure
  · exact .abort

theorem Global.create_spares (hv : (w.drain s).Backs v) (type : GlobalType) :
    (Global.create s type v : Act κ σ Handle).Spares s w := by
  unfold Global.create
  refine .guard (.context (.packing hv fun p w₁ => ?_))
  split
  · exact .fail
  · exact .bind (adopt_harmless s p w₁) fun _ _ _ => .allot s _

theorem Global.set_spares (hv : (w.drain s).Backs v) (a : Handle) :
    (Global.set s a v : Act κ σ Unit).Spares s w := by
  refine .context (.looking (Global.at_looking s a) fun (i, global) _ => ?_)
  refine .guard (.guard (.packing hv fun p w₁ => ?_))
  exact .bind (adopt_harmless s p w₁) fun _ _ _ => .onGuest s _

theorem Table.create_spares (hv : (w.drain s).Backs v) (type : TableType) :
    (Table.create s type v : Act κ σ Handle).Spares s w := by
  unfold Table.create
  refine .guard (.context (.packing hv fun p w₁ => ?_))
  split
  · exact .fail
  · exact .bind (adoptRef_harmless s p w₁) fun _ _ _ => .allot s _

theorem Table.set_spares (hv : (w.drain s).Backs v) (a : Handle) (index : Nat) :
    (Table.set s a index v : Act κ σ Unit).Spares s w := by
  refine .context (.looking (Table.at_looking s a) fun (i, table) _ => ?_)
  refine .guard (.packing hv fun p w₁ => .bind (adoptRef_harmless s p w₁) fun r w₂ _ => ?_)
  split
  · exact .fail
  · exact .onGuest s _

theorem Table.grow_spares (hv : (w.drain s).Backs v) (a : Handle) (delta : Nat) :
    (Table.grow s a delta v : Act κ σ Nat).Spares s w := by
  refine .context (.looking (Table.at_looking s a) fun (i, table) _ => ?_)
  refine .guard (.packing hv fun p w₁ => .bind (adoptRef_harmless s p w₁) fun r w₂ _ => ?_)
  split
  · exact .fail
  · exact .last (.onGuest s _)

theorem Memory.create_spares (s : Nat) (type : MemoryType) :
    (Memory.create s type : Act κ σ Handle).Spares s w := by
  refine .context ?_
  split
  · exact .fail
  · exact .allot s _

theorem Memory.grow_spares (s : Nat) (a : Handle) (delta : Nat) :
    (Memory.grow s a delta : Act κ σ Nat).Spares s w := by
  refine .context (.looking (Memory.at_looking s a) ?_)
  rintro ⟨i, memory⟩ -
  dsimp only
  split
  · exact .fail
  · exact .last (.onGuest s _)

theorem Memory.write_spares (s : Nat) (a : Handle) (offset : Nat) (bytes : List UInt8) :
    (Memory.write s a offset bytes : Act κ σ Unit).Spares s w := by
  refine .context (.looking (Memory.at_looking s a) ?_)
  rintro ⟨i, memory⟩ -
  dsimp only
  split
  · exact .onGuest s _
  · exact .fail

end Items

/-! ## Calls and instances

A foreign function among arguments is found while they are packed, at the latest. Of what comes
after this point nothing needs to be known. -/

/-- What is refused gives no value. -/
theorem Act.Refused.run_ne_value {E : Error → Prop} {m : Act κ σ α} {w w' : World κ σ} {a : α}
    (h : m.Refused E w) : m.run w ≠ (.value a, w') := by
  intro hrun
  unfold Refused at h
  rw [hrun] at h
  exact h

section Calls

variable [Keeper κ σ] {R L : Ledger κ} {w : World κ σ} {s : Nat}

/-- The host has clones of the objects that it owns. -/
theorem Invariant.backs (hw : Invariant (R + L) w) {v : Val} (hv : ∀ x ∈ v.shares, L.Has x) :
    w.Backs v := by
  rintro o rfl
  exact elim_pos.mp (hw.pos (hv (.object o) (by simp [Val.shares, Val.capture?, Capture.share])))

/-- A call is refused its function or one of its arguments. -/
theorem Func.call_spares (host : Runner κ σ) (hw : Invariant (R + L) w) {f : Handle}
    {args : List Val} (hargs : ∀ v ∈ args, ∀ x ∈ v.shares, L.Has x)
    (h : w.Foreign s f ∨ ∃ v ∈ args, w.ForeignVal s v) : (Func.call host s f args).Spares s w := by
  have hdrain := (hw.drain s).1
  rcases h with hf | ⟨v, hv, hf⟩
  · refine .context (.looking (funcPlace_looking s f) fun place hrun => ?_)
    exact absurd hrun (funcPlace_refused (E := fun _ => False) (hw.foreign_drain hf)).run_ne_value
  · refine .context (.looking (funcPlace_looking s f) fun place _ => ?_)
    refine .looking (typeAt_looking s place) fun type _ => .looking .ofExcept fun _ _ => ?_
    refine .bind (packAll_harmless fun v hv => hdrain.backs (hargs v hv)) fun packed w₁ hrun => ?_
    refine absurd hrun (packAll_refused (E := fun _ => False) (fun u hu => ?_) ?_).run_ne_value
    · exact hdrain.val_cases (hargs u hu) s
    · exact ⟨v, hv, hf.drain hw⟩

/-- The making of an instance is refused one of its imports. -/
theorem Instance.create_spares (host : Runner κ σ) (hw : Invariant (R + L) w) {module : Nat}
    {imports : List Item} (himports : ∀ x ∈ Item.sharesAll imports, L.Has x)
    (hf : ∃ i ∈ imports, w.Foreign s i.handle) :
    (Instance.create host s module imports).Spares s w := by
  refine .context (.looking .world fun w' _ => .looking .orAbort fun cell _ => ?_)
  refine .looking .orAbort fun store _ => .guard (.guard ?_)
  refine .looking (checkAll_looking s imports) fun _ hrun => ?_
  have hrefused : (checkAll s imports : Act κ σ Unit).Refused (fun _ => False) (w.drain s) :=
    checkAll_refused (hw.drain s).1 himports (hf.imp fun i h => ⟨h.1, hw.foreign_drain h.2⟩)
  exact absurd hrun hrefused.run_ne_value

end Calls

/-! ## The order of the checks in setting a global

Several things may be wrong at the same time. Which of them is reported is determined, and this says
how. -/

namespace Global

/-- A handle of a store stands for a global. -/
def At (w : World κ σ) (s : Nat) (a : Handle) (global : Guest.Global) : Prop :=
  ∃ i g, w.ItemHandle s a (.global i) ∧ w.guest? s = some g ∧ g.globals[i]? = some global

/-- How the setting of a global ends. What comes first decides: a global of another store, a constant,
a value of another kind, and then a function of another store. -/
inductive SetEnds (w : World κ σ) (s : Nat) (a : Handle) (v : Val) : Outcome Unit → Prop
  | foreign (h : w.Foreign s a) : SetEnds w s a v (.panic (.text foreignMessage))
  | constant {global : Guest.Global} (hat : At w s a global)
      (hconstant : global.type.writable = false) :
      SetEnds w s a v (.failure (.engine .immutableGlobal))
  | kind {global : Guest.Global} (hat : At w s a global) (hwritable : global.type.writable = true)
      (hkind : v.kind ≠ global.type.content) :
      SetEnds w s a v (.failure (.wrongKind global.type.content v.kind))
  | foreignVal {global : Guest.Global} (hat : At w s a global)
      (hwritable : global.type.writable = true) (hkind : v.kind = global.type.content)
      (hv : w.ForeignVal s v) : SetEnds w s a v (.panic (.text foreignMessage))
  | done {global : Guest.Global} (hat : At w s a global) (hwritable : global.type.writable = true)
      (hkind : v.kind = global.type.content) (hv : ¬w.ForeignVal s v) : SetEnds w s a v (.value ())

variable [Keeper κ σ] {R L : Ledger κ} {known : List (Pin κ)} {w : World κ σ} {s : Nat}
  {a : Handle} {v : Val} {o : Outcome Unit}

/-- The checks that a global passes are passed. -/
theorem run_set_at {global : Guest.Global} (hw : Invariant (R + L) w) (hat : At w s a global) :
    ∃ i, (at_ s a : Act κ σ (Nat × Guest.Global)).run (w.drain s) =
      (.value (i, global), w.drain s) := by
  obtain ⟨i, g, hitem, hg, hglobal⟩ := hat
  exact ⟨i, run_at_drain hw hitem hg hglobal⟩

theorem SetEnds.run (hw : Invariant (R + L) w) (hs : .tenure s known none ∈ L)
    (hheld : L.Has (.handle a (.item .global))) (hvals : ∀ x ∈ v.shares, L.Has x)
    (h : SetEnds w s a v o) : ∃ w', (set s a v : Act κ σ Unit).run w = (o, w') := by
  cases h with
  | foreign hf => exact (set_refused hw hf v).panics
  | constant hat hconstant =>
    obtain ⟨i, hrun⟩ := run_set_at hw hat
    refine ⟨w.drain s, (run_bind_value (run_context s w)).trans ((run_bind_value hrun).trans ?_)⟩
    simp only [hconstant]
    rfl
  | kind hat hwritable hkind =>
    obtain ⟨i, hrun⟩ := run_set_at hw hat
    refine ⟨w.drain s, (run_bind_value (run_context s w)).trans ((run_bind_value hrun).trans ?_)⟩
    simp only [hwritable, hkind, ne_eq, not_false_eq_true, if_true]
    rfl
  | foreignVal hat hwritable hkind hv =>
    obtain ⟨i, hrun⟩ := run_set_at hw hat
    refine Act.Refused.panics (.first (run_context s w) (.first hrun ?_))
    simp only [hwritable, hkind, Bool.not_true, Bool.false_eq_true, if_false, ne_eq,
      not_true_eq_false]
    exact .here (pack_refused (hv.drain hw))
  | done hat hwritable hkind hv =>
    obtain ⟨i, g, hitem, hg, hglobal⟩ := hat
    obtain ⟨x, hx⟩ := (hw.val_cases hvals s).resolve_right hv
    obtain ⟨w', hrun, -⟩ := run_set hw hs hheld hvals hitem hg hglobal hwritable hkind hx
    exact ⟨w', hrun⟩

/-- One of the cases is there. -/
theorem exists_setEnds (hw : Invariant L w) (hheld : L.Has (.handle a (.item .global)))
    {g : Guest.Store} (hg : w.guest? s = some g) (v : Val) : ∃ o, SetEnds w s a v o := by
  have hw₀ : Invariant (0 + L) w := by rwa [zero_add]
  -- The cases are gone through in the order of the checks.
  rcases hw₀.item_cases hheld s with ⟨p, hp, hitem⟩ | hf
  · obtain ⟨i, rfl⟩ := Guest.Place.exists_global hp
    obtain ⟨global, hglobal⟩ : ∃ global, g.globals[i]? = some global :=
      ⟨_, Array.getElem?_eq_getElem (hw.within hitem hg)⟩
    have hat : At w s a global := ⟨i, g, hitem, hg, hglobal⟩
    cases hwritable : global.type.writable with
    | false => exact ⟨_, .constant hat hwritable⟩
    | true =>
      by_cases hkind : v.kind = global.type.content
      · by_cases hv : w.ForeignVal s v
        · exact ⟨_, .foreignVal hat hwritable hkind hv⟩
        · exact ⟨_, .done hat hwritable hkind hv⟩
      · exact ⟨_, .kind hat hwritable hkind⟩
  · exact ⟨_, .foreign hf⟩

/-- The setting of a global ends as the order of the checks has it, and in no other way: one of the
cases is always there, and the operation ends in one way only. -/
theorem setEnds_iff (hw : Invariant L w) (hs : .tenure s known none ∈ L)
    (hheld : L.Has (.handle a (.item .global))) (hvals : ∀ x ∈ v.shares, L.Has x)
    {g : Guest.Store} (hg : w.guest? s = some g) :
    SetEnds w s a v o ↔ ∃ w', (set s a v : Act κ σ Unit).run w = (o, w') := by
  have hw₀ : Invariant (0 + L) w := by rwa [zero_add]
  refine ⟨SetEnds.run hw₀ hs hheld hvals, fun ⟨w', hrun⟩ => ?_⟩
  obtain ⟨o', hends⟩ := exists_setEnds hw hheld hg v
  obtain ⟨w'', hrun'⟩ := hends.run hw₀ hs hheld hvals
  have ho : o' = o := congrArg Prod.fst (hrun'.symm.trans hrun)
  exact ho ▸ hends

end Global

/-! ## What is declared

A type is fixed when an item is made. That later writes respect it is part of how typed worlds
evolve. -/

namespace World

/-- What globals and tables hold is of the kinds that were declared. -/
structure HoldsDeclared (w : World κ σ) : Prop where
  globals : ∀ (s i : Nat) g global, w.guest? s = some g → g.globals[i]? = some global →
    global.value.kind = global.type.content
  elements : ∀ (s i index : Nat) g table r, w.guest? s = some g → g.tables[i]? = some table →
    table.get? index = some r → r.kind = table.type.element

/-- Items keep their types, and constants their values, for as long as their store is there. -/
structure KeepsDeclared (w w' : World κ σ) : Prop where
  globals : ∀ (s i : Nat) g g' global, w.guest? s = some g → w'.guest? s = some g' →
    g.globals[i]? = some global → ∃ global', g'.globals[i]? = some global' ∧
      global'.type = global.type ∧ (global.type.writable = false → global'.value = global.value)
  tables : ∀ (s i : Nat) g g' table, w.guest? s = some g → w'.guest? s = some g' →
    g.tables[i]? = some table → ∃ table', g'.tables[i]? = some table' ∧ table'.type = table.type
  memories : ∀ (s i : Nat) g g' memory, w.guest? s = some g → w'.guest? s = some g' →
    g.memories[i]? = some memory →
    ∃ memory', g'.memories[i]? = some memory' ∧ memory'.type = memory.type

variable {w w' : World κ σ}

theorem Typed.holdsDeclared (hw : w.Typed) : w.HoldsDeclared where
  globals s i g global hg hglobal := ((hw.guests s g hg).globals i global hglobal).kind
  elements s i _ g table r hg htable hr :=
    ((hw.guests s g hg).tables i table htable r (Array.mem_of_getElem? hr)).kind

theorem Evolves.guest (h : w.Evolves w') {s : Nat} {g g' : Guest.Store} (hg : w.guest? s = some g)
    (hg' : w'.guest? s = some g') : g.Evolves g' := by
  obtain ⟨c, hc, -⟩ := Option.bind_eq_some_iff.mp hg
  obtain ⟨g₀, hg₀, he⟩ := h.guests s (Array.getElem?_eq_some_iff.mp hc).1 g' hg'
  obtain rfl : g = g₀ := Option.some.inj (hg.symm.trans hg₀)
  exact he

theorem Evolves.keepsDeclared (h : w.Evolves w') : w.KeepsDeclared w' where
  globals s i g g' global hg hg' hglobal := by
    obtain ⟨global', hglobal', htype, hconstant⟩ := (h.guest hg hg').globals i global hglobal
    exact ⟨global', hglobal', htype, fun hc => congrArg Guest.Global.value (hconstant hc)⟩
  tables s i g g' table hg hg' := (h.guest hg hg').tables i table
  memories s i g g' memory hg hg' := (h.guest hg hg').memories i memory

end World

/-! ## Embedders

There is one field for each operation that may be rejected. -/

variable {L : Ledger (Code κ)} {w : World (Code κ) Pool}

/-- Operations that are rejected spare the stores, whatever the reason. -/
structure World.SparesStores (w : World (Code κ) Pool) : Prop where
  globalCreate : ∀ (s : Nat) (type : GlobalType) (v : Val), w.user.LendsVal v →
    (Global.create s type v : Job κ Handle).Spares s w
  globalSet : ∀ (s : Nat) (a : Handle) (v : Val), w.user.LendsVal v →
    (Global.set s a v : Job κ Unit).Spares s w
  tableCreate : ∀ (s : Nat) (type : TableType) (v : Val), w.user.LendsVal v →
    (Table.create s type v : Job κ Handle).Spares s w
  tableSet : ∀ (s index : Nat) (a : Handle) (v : Val), w.user.LendsVal v →
    (Table.set s a index v : Job κ Unit).Spares s w
  tableGrow : ∀ (s delta : Nat) (a : Handle) (v : Val), w.user.LendsVal v →
    (Table.grow s a delta v : Job κ Nat).Spares s w
  memoryCreate : ∀ (s : Nat) (type : MemoryType),
    (Memory.create s type : Job κ Handle).Spares s w
  memoryGrow : ∀ (s delta : Nat) (a : Handle), (Memory.grow s a delta : Job κ Nat).Spares s w
  memoryWrite : ∀ (s offset : Nat) (a : Handle) (bytes : List UInt8),
    (Memory.write s a offset bytes : Job κ Unit).Spares s w
  /-- A call whose arguments do not fit fails. -/
  call : ∀ (host : Runner (Code κ) Pool) (s : Nat) (f : Handle) (args : List Val) (e : Error),
    Func.Rejects s f args w e →
    ∃ w', (Func.call host s f args).run w = (.failure e, w') ∧ w.Spared s w'
  callForeign : ∀ (host : Runner (Code κ) Pool) (s : Nat) (f : Handle) (args : List Val),
    (∀ v ∈ args, w.user.LendsVal v) → (w.Foreign s f ∨ ∃ v ∈ args, w.ForeignVal s v) →
    (Func.call host s f args).Spares s w
  /-- The making of an instance fails if its module belongs to another engine, or if the imports are too
  many or too few. -/
  instance_ : ∀ (host : Runner (Code κ) Pool) (s module : Nat) (imports : List Item) (e : Error),
    Instance.Rejects s module imports w e →
    ∃ w', (Instance.create host s module imports).run w = (.failure e, w') ∧ w.Spared s w'
  instanceForeign : ∀ (host : Runner (Code κ) Pool) (s module : Nat) (imports : List Item),
    (∀ i ∈ imports, w.user.Lends (.wrapper i.wrapper)) →
    (∃ i ∈ imports, w.Foreign s i.handle) → (Instance.create host s module imports).Spares s w
  /-- The checks in setting a global are in a fixed order. -/
  setting : ∀ (s : Nat) (g : Guest.Store) (a : Handle) (v : Val) (o : Outcome Unit),
    w.InUse s g → w.user.Lends (.wrapper ⟨a, .item .global⟩) → w.user.LendsVal v →
    (Global.SetEnds w s a v o ↔ ∃ w', (Global.set s a v : Job κ Unit).run w = (o, w'))

theorem Invariant.sparesStores (hw : Invariant L w) : w.SparesStores := by
  have hw₀ : Invariant (0 + L) w := by rwa [zero_add]
  have hbacks : ∀ {v : Val} (s : Nat), w.user.LendsVal v → (w.drain s).Backs v :=
    fun s hv => (hw₀.drain s).1.backs (hw.has_of_lendsVal hv)
  exact {
    globalCreate := fun s type v hv => Global.create_spares (hbacks s hv) type
    globalSet := fun s a v hv => Global.set_spares (hbacks s hv) a
    tableCreate := fun s type v hv => Table.create_spares (hbacks s hv) type
    tableSet := fun s index a v hv => Table.set_spares (hbacks s hv) a index
    tableGrow := fun s delta a v hv => Table.grow_spares (hbacks s hv) a delta
    memoryCreate := Memory.create_spares
    memoryGrow := fun s delta a => Memory.grow_spares s a delta
    memoryWrite := fun s offset a bytes => Memory.write_spares s a offset bytes
    call := fun host s f args e h => ⟨_, Func.run_of_rejects h host, .of_drained (.refl _)⟩
    callForeign := fun host s f args hargs h =>
      Func.call_spares host hw₀ (fun v hv => hw.has_of_lendsVal (hargs v hv)) h
    instance_ := fun host s module imports e h =>
      ⟨_, Instance.run_of_rejects h host, .of_drained (.refl _)⟩
    instanceForeign := fun host s module imports himports h => by
      refine Instance.create_spares host hw₀ (fun x hx => ?_) h
      obtain ⟨i, hi, rfl⟩ := List.mem_map.mp hx
      exact hw.has_of_lends (himports i hi)
    setting := fun s g a v o huse ha hv => by
      obtain ⟨known, hs⟩ := hw.tenure_of_inUse huse
      exact Global.setEnds_iff hw hs (hw.has_of_lends ha) (hw.has_of_lendsVal hv) huse.guest }

/-- In every world that an embedder reaches, operations that are rejected leave all stores as they
were, and what is held is of its declared kind. From there on items keep their types, and constants
their values. -/
theorem Embedder.stores_spared (embedder : Embedder κ) (depth : Nat)
    (programs : List (Program κ Unit)) (order order' : List Nat) :
    let threads := (embedder.start depth programs).run order
    threads.world.SparesStores ∧ threads.world.HoldsDeclared ∧
      threads.world.KeepsDeclared (threads.run order').world := by
  obtain ⟨Ls, -, hw⟩ := (embedder.safe_start depth programs).run order
  obtain ⟨htyped, hleads⟩ := embedder.typed_run depth programs order order'
  exact ⟨hw.sparesStores, htyped.holdsDeclared, hleads.evolves.keepsDeclared⟩

/-- A global is set to a number of its kind, and to no other. -/
theorem Embedder.stores_spared_lent :
    (∃ w, (Global.set 0 2 (.i32 7) : Job Unit Unit).run Specimen.world = (.value (), w)) ∧
    ∃ w, (Global.set 0 2 (.i64 7) : Job Unit Unit).run Specimen.world =
      (.failure (.wrongKind .i32 .i64), w) ∧ Specimen.world.Spared 0 w := by
  have hspares : Specimen.world.SparesStores :=
    Specimen.world_eq ▸ (Specimen.embedder.stores_spared 1 Specimen.programs Specimen.order []).1
  have hat : Global.At Specimen.world 0 2 ⟨⟨.i32, true⟩, .i32 0⟩ :=
    ⟨0, Specimen.store, Specimen.globalHandle, Specimen.inUse_store.guest, rfl⟩
  have hi64 : Specimen.world.user.LendsVal (.i64 7) := by
    intro c hc
    cases hc
  constructor
  · refine (hspares.setting 0 _ 2 (.i32 7) _ Specimen.inUse_store Specimen.lends_global
      (Specimen.lendsVal_i32 7)).mp (.done hat rfl rfl ?_)
    rintro ⟨h, hv, -⟩
    cases hv
  · obtain ⟨w, hrun⟩ := (hspares.setting 0 _ 2 (.i64 7) _ Specimen.inUse_store Specimen.lends_global
      hi64).mp (.kind hat rfl (by decide))
    have hspared := hspares.globalSet 0 2 (.i64 7) hi64
    rw [Act.Spares, hrun] at hspared
    exact ⟨w, hrun, hspared trivial⟩

end WasmHost.Host
