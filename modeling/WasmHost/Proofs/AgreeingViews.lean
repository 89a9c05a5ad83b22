import WasmHost.Proofs.CallingInstances

/-!
# The views of exports agree in every world

In whatever world an embedder reaches, inside of host functions as well as outside, what an instance
exports can be looked up in four ways. They agree on which names there are, on the kinds of what has
them, and on the objects themselves: what is done to an object that one of them has given is seen
through what another one gives.

The difference to `ExportViews` is that nothing is assumed here of what was looked up before, by
whom or when. The list of all exports may have been obtained in one world and the single item in
another, after other threads have gone on; or inside of a closure, of which the statement knows only
that guest code has called it. To carry what was true in the first world over to the second is what
the modules on typing provide.

"The same object" is not equality of handles. It says that no operation can tell the two apart, and
that what is written through one is read through the other.
-/

namespace WasmHost.Host

open Act

variable {κ : Type} {R L : Ledger (Code κ)} {known : List (Pin (Code κ))}
  {w w' w₁ w₂ : World (Code κ) Pool} {s n : Nat} {g : Guest.Store} {i : Handle}
  {inst : Guest.Instance} {t : ExportType} {handles : List Handle}

/-! ## Instances that are lent

A wrapper of an instance can be lent for a use with any store. It is one of the store, or its use is
refused. -/

/-- A handle of an instance of a store in use is lent. -/
structure World.LendsInstance (w : World (Code κ) Pool) (s : Nat) (g : Guest.Store) (i : Handle)
    (n : Nat) (inst : Guest.Instance) : Prop where
  use : w.InUse s g
  lent : w.user.Lends (.wrapper ⟨i, .instance_⟩)
  handle : w.InstanceHandle s i n
  found : g.instances[n]? = some inst

theorem World.LendsInstance.hasInstance (h : w.LendsInstance s g i n inst) (ht : w.Orderly) :
    w.HasInstance s n inst := ht.hasInstance h.use.guest h.found

/-- Whoever is lent an instance is lent one of the store or one of another store. -/
theorem Invariant.instance_cases (hw : Invariant L w) (ht : w.Orderly) (huse : w.InUse s g)
    (hlent : w.user.Lends (.wrapper ⟨i, .instance_⟩)) :
    (∃ n inst, w.LendsInstance s g i n inst) ∨ w.Foreign s i := by
  have hw₀ : Invariant (0 + L) w := by rwa [zero_add]
  obtain ⟨c, hc, hsort, hpos⟩ := World.exists_handle (hw₀.pos (hw.has_of_lends hlent))
  by_cases hs : c.store = s
  · have hpair := hw.sound.queued.paired i c hc
    have hdeclared := ht.targets i c hc
    obtain ⟨store, target, shares, number⟩ := c
    subst hs
    -- The sort of a handle says that it is an instance, so its target cannot be anything else.
    cases target with
    | instance_ t n =>
      obtain rfl : t = store := hpair
      have hlt := hdeclared.2 g huse.guest
      exact .inl ⟨n, _, huse, hlent, ⟨_, hc, hpos, rfl, rfl⟩, Array.getElem?_eq_getElem hlt⟩
    | _ => simp [Target.sort] at hsort
  · exact .inr ⟨c, hc, hpos, hs⟩

/-! ## The same objects

What was handed out for one export, by whomever, stands for one place. -/

theorem World.IsExport.handsOut {item : Item} (h : w.IsExport s inst t item)
    (hands : w.HandsOut w' handles) : w'.IsExport s inst t item := by
  obtain ⟨hkind, p, hp, hsame, hitem⟩ := h
  exact ⟨hkind, p, hp, hsame, hands.itemHandle hitem⟩

/-- Whatever has been handed out for one export is one object. -/
theorem World.IsExport.sameObject {a b : Item} (ha : w.IsExport s inst t a)
    (hb : w.IsExport s inst t b) (hw : Invariant L w) (ht : w.Orderly)
    (hs : .tenure s known none ∈ L) (hat : w.HasInstance s n inst)
    (hheld : L.Has (.handle b.handle (.item b.kind))) : w.SameObject s a b := by
  obtain ⟨g, hg, -⟩ := hat
  obtain ⟨-, p, hp, hka, hitem⟩ := ha
  obtain ⟨-, p', hp', hkb, hitem'⟩ := hb
  obtain rfl : p = p' := Option.some.inj (hp.symm.trans hp')
  exact hw.sameObject ht hs hg hka.symm hkb.symm hitem hitem' hheld

/-- An item that is lent is of the kind of what it stands for. -/
theorem Invariant.kind_of_lends (hw : Invariant L w) {item : Item} {p : Guest.Place}
    (hlent : w.user.Lends (.wrapper item.wrapper)) (hitem : w.ItemHandle s item.handle p) :
    item.kind = p.kind := by
  have hw₀ : Invariant (0 + L) w := by rwa [zero_add]
  obtain ⟨c, hc, -, hstore, htarget⟩ := hitem
  rcases hw₀.item_cases (hw.has_of_lends hlent) s with
    ⟨p', hkind, c', hc', -, -, htarget'⟩ | ⟨c', hc', -, hforeign⟩
  · obtain rfl : c = c' := Option.some.inj (hc.symm.trans hc')
    cases htarget.symm.trans htarget'
    exact hkind.symm
  · obtain rfl : c = c' := Option.some.inj (hc.symm.trans hc')
    exact absurd hstore hforeign

/-- An action looks up by a name what is in a list of items: if the list has the name, it hands out
an item that is the same object as the one in the list; otherwise it hands out nothing. -/
structure World.LooksUp (w : World (Code κ) Pool) (s : Nat) (items : List (String × Item))
    (name : String) (m : Job κ (Option Item)) : Prop where
  listed : ∀ item, (name, item) ∈ items → ∃ found w', m.run w = (.value (some found), w') ∧
    w.HandsOut w' [found.handle] ∧ w'.SameObject s item found ∧ w'.SameObject s found item
  unlisted : (∀ item, (name, item) ∉ items) → ∃ w', m.run w = (.value none, w') ∧ w.HandsOut w' []

/-- The exported function with a name, as an item. -/
def Instance.getFuncItem (s : Nat) (i : Handle) (name : String) : Job κ (Option Item) := do
  return (← Instance.getFunc s i name).map fun f => ⟨.func, f⟩

theorem Instance.getFuncItem_leaves (hheld : L.Has (.handle i .instance_)) (name : String) :
    (getFuncItem s i name : Job κ (Option Item)).Leaves L
      (fun i => Ledger.owns (Item.sharesAll i.toList) + L) L := by
  refine Leaves.bind (getFunc_leaves hheld name) fun f => Leaves.pure ?_
  cases f <;> rfl

theorem Instance.getFuncItem_steady (s : Nat) (i : Handle) (name : String) :
    (getFuncItem s i name : Job κ (Option Item)).Steady :=
  .bind (getFunc_steady s i name) fun _ => .pure

section Listed

variable {items : List (String × Item)} {m : Job κ (Option Item)} {name : String}
  (hw : Invariant (0 + L) w) (ht : w.Orderly) (hs : .tenure s known none ∈ L)
  (hat : w.HasInstance s n inst)

include hw ht hs hat

/-- What is handed out for an export is the same object as what has been handed out before. -/
theorem Invariant.sameObjects (hm : m.Leaves L (fun i => Ledger.owns (Item.sharesAll i.toList) + L) L)
    (hsteady : m.Steady) {item found : Item} (hitem : w.IsExport s inst t item)
    (hheld : L.Has (.handle item.handle (.item item.kind)))
    (hrun : m.run w = (.value (some found), w')) (hands : w.HandsOut w' [found.handle])
    (hfound : w'.IsExport s inst t found) :
    w'.SameObject s item found ∧ w'.SameObject s found item := by
  obtain ⟨hlead, -, hw'⟩ := (hsteady w).run_value hm hw ht hrun
  rw [zero_add] at hw'
  have hs' : .tenure s known none ∈ Ledger.owns (Item.sharesAll [found]) + L :=
    Multiset.mem_add.mpr (.inr hs)
  have howned : (Ledger.owns (Item.sharesAll [found]) + L).Has
      (.handle found.handle (.item found.kind)) :=
    Ledger.has_owns_add (List.mem_singleton_self _) L
  have hat' := hat.of_guests hands.guests
  have hitem' := hitem.handsOut hands
  exact ⟨hitem'.sameObject hfound hw' hlead.orderly hs' hat' howned,
    hfound.sameObject hitem' hw' hlead.orderly hs' hat' (hheld.add _)⟩

variable (hhas : ∀ e ∈ items, L.Has (.handle e.2.handle (.item e.2.kind)))
  (hlisted : List.Forall₂ (fun t e => e.1 = t.name ∧ w.IsExport s inst t e.2)
    inst.module.viewedExports items)

include hhas hlisted

/-- Whoever looks up by a name finds what is in the list of all exports. Both the list and the
lookup are known by what the module lists, so it is enough to pass from the one to the other through
the module. -/
theorem Invariant.looksUp (hm : m.Leaves L (fun i => Ledger.owns (Item.sharesAll i.toList) + L) L)
    (hsteady : m.Steady) (hlook : m.run w = (handOutNamed s inst name).run (w.drain s)) :
    w.LooksUp s items name m where
  listed item hmem := by
    obtain ⟨t, hviewed, hname, hexport⟩ := Guest.exists_of_forall₂ hlisted.flip hmem
    obtain ⟨found, w', hrun, hands, hfound⟩ := hw.lookUp_listed hat hm hlook hviewed hname.symm
    exact ⟨found, w', hrun, hands,
      hw.sameObjects ht hs hat hm hsteady hexport (hhas _ hmem) hrun hands hfound⟩
  unlisted hnone := by
    refine hw.lookUp_unlisted hat hm hlook fun t hviewed hname => ?_
    obtain ⟨⟨name', item⟩, hmem, hname', -⟩ := Guest.exists_of_forall₂ hlisted hviewed
    obtain rfl : name' = name := hname'.trans hname
    exact hnone item hmem

/-- Whoever looks up a function finds the functions of the list. -/
theorem Invariant.looksUp_func (hheld : L.Has (.handle i .instance_)) (hi : w.InstanceHandle s i n) :
    w.LooksUp s (items.filter fun e => e.2.kind = .func) name (Instance.getFuncItem s i name) where
  listed item hmem := by
    obtain ⟨hmem, hkind⟩ := List.mem_filter.mp hmem
    obtain ⟨t, hviewed, hname, hexport⟩ := Guest.exists_of_forall₂ hlisted.flip hmem
    obtain rfl : name = t.name := hname
    obtain ⟨f, w', hrun, hands, hfound⟩ := Instance.run_getFunc_listed hw hat hheld hi hviewed
      (hexport.kind.symm.trans (of_decide_eq_true hkind))
    have hrun : (Instance.getFuncItem s i t.name : Job κ _).run w = (.value (some ⟨.func, f⟩), w') :=
      run_bind_value hrun
    exact ⟨⟨.func, f⟩, w', hrun, hands, hw.sameObjects ht hs hat
      (Instance.getFuncItem_leaves hheld _) (Instance.getFuncItem_steady s i _) hexport
      (hhas _ hmem) hrun hands hfound⟩
  unlisted hnone := by
    have hothers : ∀ t ∈ inst.module.viewedExports, t.name = name → t.type.kind ≠ .func := by
      intro t hviewed hname hkind
      obtain ⟨⟨name', item⟩, hmem, hname', hexport⟩ := Guest.exists_of_forall₂ hlisted hviewed
      obtain rfl : name' = name := hname'.trans hname
      exact hnone item (List.mem_filter.mpr ⟨hmem, decide_eq_true (hexport.kind.trans hkind)⟩)
    obtain ⟨w', hrun, hands⟩ := Instance.run_getFunc_unlisted hw hat hheld hi hothers
    exact ⟨w', run_bind_value hrun, hands⟩

end Listed

/-! ## In every world

The fields are in two groups. Those up to `callerNone` say what each way of asking gives, compared
with the module; `agree` and `same` put the ways side by side. -/

/-- What the exports of an instance look like in a world. -/
structure World.ExportsAgree (w : World (Code κ) Pool) (host : Runner (Code κ) Pool) : Prop where
  /-- An instance that is made is one of the module that it is made of, -/
  made : ∀ (s module : Nat) (g : Guest.Store) (imports : List Item) (cell : ModuleCell) (h : Handle)
    (w' : World (Code κ) Pool), w.InUse s g →
    (∀ item ∈ imports, w.user.Lends (.wrapper item.wrapper)) → w.modules[module]? = some cell →
    (Instance.create host s module imports).run w = (.value h, w') →
    ∃ n g' inst, w'.guest? s = some g' ∧ w'.InstanceHandle s h n ∧ g'.instances[n]? = some inst ∧
      inst.module = cell.compiled.code
  /-- and whatever handle of an instance is lent is that of an instance of the store, or of another
  store. -/
  present : ∀ (s : Nat) (g : Guest.Store) (i : Handle), w.InUse s g →
    w.user.Lends (.wrapper ⟨i, .instance_⟩) →
    (∃ n inst, w.LendsInstance s g i n inst) ∨ w.Foreign s i
  /-- A module lists its exports in order, each once, and shows what kind each is of; -/
  listed : ∀ (m : Nat) (cell : ModuleCell), w.modules[m]? = some cell →
    Wire.listExports cell.compiled.code =
      cell.compiled.code.exportTypes.map (fun t => ⟨t.name, Wire.shown t.type⟩) ∧
    ((Wire.listExports cell.compiled.code).map (·.name)).Nodup ∧
    ∀ t ∈ cell.compiled.code.exportTypes, (Wire.shown t.type).kind = t.type.kind
  /-- an instance hands out all of them in this order, under their names and of their kinds, leaving
  out the shared memories, -/
  exports : ∀ (s n : Nat) (g : Guest.Store) (i : Handle) (inst : Guest.Instance),
    w.LendsInstance s g i n inst →
    ∃ items w', (Instance.exports s i : Job κ _).run w = (.value items, w') ∧
      w.HandsOut w' (items.map (·.2.handle)) ∧ (items.map (·.1)).Nodup ∧
      List.Forall₂ (fun t e => e.1 = t.name ∧ w'.IsExport s inst t e.2) inst.module.viewedExports items
  /-- and each of them by its name, -/
  getExport : ∀ (s n : Nat) (g : Guest.Store) (i : Handle) (inst : Guest.Instance),
    w.LendsInstance s g i n inst → ∀ t ∈ inst.module.viewedExports,
    ∃ item w', (Instance.getExport s i t.name : Job κ _).run w = (.value (some item), w') ∧
      w.HandsOut w' [item.handle] ∧ w'.IsExport s inst t item
  /-- but nothing by any other name; -/
  getNone : ∀ (s n : Nat) (g : Guest.Store) (i : Handle) (inst : Guest.Instance) (name : String),
    w.LendsInstance s g i n inst → (∀ t ∈ inst.module.viewedExports, t.name ≠ name) →
    ∃ w', (Instance.getExport s i name : Job κ _).run w = (.value none, w') ∧ w.HandsOut w' []
  /-- as functions it hands out those that are functions, -/
  getFunc : ∀ (s n : Nat) (g : Guest.Store) (i : Handle) (inst : Guest.Instance),
    w.LendsInstance s g i n inst → ∀ t ∈ inst.module.viewedExports, t.type.kind = .func →
    ∃ f w', (Instance.getFunc s i t.name : Job κ _).run w = (.value (some f), w') ∧
      w.HandsOut w' [f] ∧ w'.IsExport s inst t ⟨.func, f⟩
  /-- but nothing by any other name, even that of something else. -/
  getNoFunc : ∀ (s n : Nat) (g : Guest.Store) (i : Handle) (inst : Guest.Instance) (name : String),
    w.LendsInstance s g i n inst →
    (∀ t ∈ inst.module.viewedExports, t.name = name → t.type.kind ≠ .func) →
    ∃ w', (Instance.getFunc s i name : Job κ _).run w = (.value none, w') ∧ w.HandsOut w' []
  /-- A host function that is called on behalf of the instance is handed out each of them by its name, -/
  caller : ∀ (s n : Nat) (g : Guest.Store) (inst : Guest.Instance), w.InUse s g →
    g.instances[n]? = some inst → ∀ t ∈ inst.module.viewedExports,
    ∃ item w', (Caller.getExport ⟨s, some n⟩ t.name : Job κ _).run w = (.value (some item), w') ∧
      w.HandsOut w' [item.handle] ∧ w'.IsExport s inst t item
  /-- but nothing by any other name, -/
  callerNone : ∀ (s n : Nat) (g : Guest.Store) (inst : Guest.Instance) (name : String), w.InUse s g →
    g.instances[n]? = some inst → (∀ t ∈ inst.module.viewedExports, t.name ≠ name) →
    ∃ w', (Caller.getExport ⟨s, some n⟩ name : Job κ _).run w = (.value none, w') ∧ w.HandsOut w' []
  /-- and this is how it is called by code of the instance. If host code calls it itself, it is called
  on behalf of nobody, or else, if it is the start function of an instance, on behalf of this instance. -/
  called : ∀ {α : Type} (m : Job κ α) (s place key : Nat) (default caller : Option Nat)
    (given args : List Guest.Value) (w₁ w₂ : World (Code κ) Pool),
    Asks host s place given m w default w₁ →
    PlaceCallsOut host s place default given key caller args w₁ w₂ →
    (∃ n inst, caller = some n ∧ w₂.HasInstance s n inst ∧ w₂.CalledFrom s n key args) ∨
      caller = default ∧ (w₂.In s fun g => ∃ type, g.funcs[place]? = some (.host key type)) ∧
        ∀ n, caller = some n → ∃ inst, w₂.HasInstance s n inst
  /-- After all exports have been handed out, each of these ways finds just what has been handed out:
  something by the same names, of the same kinds, and the same objects. -/
  agree : ∀ (s n : Nat) (g : Guest.Store) (i : Handle) (inst : Guest.Instance)
    (items : List (String × Item)) (w₁ : World (Code κ) Pool) (name : String),
    w.LendsInstance s g i n inst → (Instance.exports s i : Job κ _).run w = (.value items, w₁) →
    w₁.LooksUp s items name (Instance.getExport s i name) ∧
      w₁.LooksUp s items name (Caller.getExport ⟨s, some n⟩ name) ∧
      w₁.LooksUp s (items.filter fun e => e.2.kind = .func) name (Instance.getFuncItem s i name)
  /-- Items that stand for the same place are one object, however long ago they were handed out. -/
  same : ∀ (s : Nat) (g : Guest.Store) (a b : Item) (p : Guest.Place), w.InUse s g →
    w.user.Lends (.wrapper a.wrapper) → w.user.Lends (.wrapper b.wrapper) →
    w.ItemHandle s a.handle p → w.ItemHandle s b.handle p → w.SameObject s a b

/-- An instance stays one of its module, and its exports stay where they are. -/
def World.KeepsExports (w w' : World (Code κ) Pool) : Prop :=
  ∀ (s n : Nat) (g g' : Guest.Store) (inst : Guest.Instance), w.guest? s = some g →
    w'.guest? s = some g' → g.instances[n]? = some inst →
    ∃ inst', g'.instances[n]? = some inst' ∧ inst'.module = inst.module ∧
      inst'.exports = inst.exports

theorem World.Leads.keepsExports (h : w.Leads w') : w.KeepsExports w' := by
  intro s n g g' inst hg hg' hfound
  obtain ⟨g₀, hg₀, he⟩ := h.evolves.guests s (World.lt_size_of_guest? hg) g' hg'
  obtain rfl : g = g₀ := Option.some.inj (hg.symm.trans hg₀)
  obtain ⟨inst', hfound', halike⟩ := he.instances n inst hfound
  refine ⟨inst', hfound', halike.module, ?_⟩
  obtain ⟨hmodule, hfuncs, hglobals, htables, hmemories⟩ := halike
  simp only [Guest.Instance.exports, Guest.Instance.place?, hmodule, hfuncs, hglobals, htables,
    hmemories]

theorem Invariant.exportsAgree (hw : Invariant L w) (ht : w.Orderly) {host : Runner (Code κ) Pool}
    (hfair : Fair host) (hsteady : Steady host) : w.ExportsAgree host := by
  have hw₀ : Invariant (0 + L) w := by rwa [zero_add]
  have hheld : ∀ {s n : Nat} {g : Guest.Store} {i : Handle} {inst : Guest.Instance},
      w.LendsInstance s g i n inst → L.Has (.handle i .instance_) := fun h => hw.has_of_lends h.lent
  exact {
    made := fun s module g imports cell h w' huse hlent hmodule hrun => by
      obtain ⟨known, hs⟩ := hw.tenure_of_inUse huse
      refine Instance.made_of_run hfair hsteady hw₀ ht hs (fun x hx => ?_) hmodule hrun
      obtain ⟨item, hitem, rfl⟩ := List.mem_map.mp hx
      exact hw.has_of_lends (hlent item hitem)
    present := fun s g i huse hlent => hw.instance_cases ht huse hlent
    listed := fun m cell hcell => by
      have hlist := Wire.listExports_eq cell.compiled.code
      obtain ⟨features, hvalid⟩ := cell.compiled.valid
      refine ⟨hlist, ?_, fun t _ => Wire.kind_shown t.type⟩
      have hnodup := Wasm.Module.nodup_exports hvalid
      rw [hlist, List.map_map, Wasm.Module.exportTypes, List.map_map]
      exact hnodup
    exports := fun s n g i inst h =>
      Instance.run_exports_listed hw₀ (h.hasInstance ht) (hheld h) h.handle
    getExport := fun s n g i inst h t hviewed =>
      Instance.run_getExport_listed hw₀ (h.hasInstance ht) (hheld h) h.handle hviewed
    getNone := fun s n g i inst name h hname =>
      Instance.run_getExport_unlisted hw₀ (h.hasInstance ht) (hheld h) h.handle hname
    getFunc := fun s n g i inst h t hviewed hkind =>
      Instance.run_getFunc_listed hw₀ (h.hasInstance ht) (hheld h) h.handle hviewed hkind
    getNoFunc := fun s n g i inst name h hname =>
      Instance.run_getFunc_unlisted hw₀ (h.hasInstance ht) (hheld h) h.handle hname
    caller := fun s n g inst huse hfound t hviewed =>
      Caller.run_getExport_listed hw₀ (ht.hasInstance huse.guest hfound) hviewed
    callerNone := fun s n g inst name huse hfound hname =>
      Caller.run_getExport_unlisted hw₀ (ht.hasInstance huse.guest hfound) hname
    called := fun m s place key default caller given args w₁ w₂ hasks hout =>
      hasks.calling hfair hsteady hw ht hout
    agree := fun s n g i inst items w₁ name h hrun => by
      obtain ⟨items', w₁', hrun', hands, -, hlisted⟩ :=
        Instance.run_exports_listed hw₀ (h.hasInstance ht) (hheld h) h.handle
      cases hrun.symm.trans hrun'
      obtain ⟨known, hs⟩ := hw.tenure_of_inUse h.use
      obtain ⟨hlead, -, hw₁⟩ := (Instance.exports_steady s i w).run_value
        (Instance.exports_leaves (hheld h)) hw₀ ht hrun
      have hs₁ : .tenure s known none ∈ Ledger.owns (Item.sharesAll (items.map (·.2))) + L :=
        Multiset.mem_add.mpr (.inr hs)
      have hhas : ∀ e ∈ items, (Ledger.owns (Item.sharesAll (items.map Prod.snd)) + L).Has
          (.handle e.2.handle (.item e.2.kind)) := fun e he =>
        Ledger.has_owns_add (List.mem_map_of_mem (List.mem_map_of_mem he)) L
      have hat := (h.hasInstance ht).of_guests hands.guests
      have hi := hands.instanceHandle h.handle
      have hheld₁ := (hheld h).add (Ledger.owns (Item.sharesAll (items.map (·.2))))
      exact ⟨hw₁.looksUp hlead.orderly hs₁ hat hhas hlisted (Instance.getExport_leaves hheld₁ name)
          (Instance.getExport_steady s i name)
          (Instance.run_getExport hat (hw₁.instanceHandle hi) name),
        hw₁.looksUp hlead.orderly hs₁ hat hhas hlisted (Caller.getExport_leaves ⟨s, some n⟩ name)
          (Caller.getExport_steady ⟨s, some n⟩ name) (Caller.run_getExport hat name),
        hw₁.looksUp_func hlead.orderly hs₁ hat hhas hlisted hheld₁ hi⟩
    same := fun s g a b p huse ha hb hpa hpb => by
      obtain ⟨known, hs⟩ := hw.tenure_of_inUse huse
      exact hw.sameObject ht hs huse.guest (hw.kind_of_lends ha hpa) (hw.kind_of_lends hb hpb) hpa hpb
        (hw.has_of_lends hb) }

/-- In every world that an embedder reaches, the views of the exports of an instance agree, and so they
do with those of later worlds. -/
theorem Embedder.exports_agree (embedder : Embedder κ) (depth : Nat)
    (programs : List (Program κ Unit)) (order order' : List Nat) (nesting : Nat) :
    ((embedder.start depth programs).run order).world.ExportsAgree (embedder.hostTo nesting) ∧
      ((embedder.start depth programs).run order).world.KeepsExports
        (((embedder.start depth programs).run order).run order').world := by
  obtain ⟨Ls, -, hw⟩ := (embedder.safe_start depth programs).run order
  obtain ⟨horderly, hlead⟩ := embedder.typed_run depth programs order order'
  exact ⟨hw.exportsAgree horderly (embedder.fair_hostTo nesting) (embedder.steady_hostTo nesting),
    hlead.keepsExports⟩

/-- The memory that an instance exports is handed out by its name, and nothing is by another. -/
theorem Embedder.exports_agree_lent :
    Specimen.world.LendsInstance 0 Specimen.store 5 0 Specimen.listing ∧
      (∃ item w, (Instance.getExport 0 5 "memory" : Job Unit (Option Item)).run Specimen.world =
          (.value (some item), w) ∧ Specimen.world.HandsOut w [item.handle] ∧
        w.IsExport 0 Specimen.listing ⟨"memory", .memory ⟨⟨1, none⟩, false, false⟩⟩ item) ∧
      ∃ w, (Instance.getExport 0 5 "table" : Job Unit (Option Item)).run Specimen.world =
        (.value none, w) ∧ Specimen.world.HandsOut w [] := by
  have hagree : Specimen.world.ExportsAgree (Specimen.embedder.hostTo 1) :=
    Specimen.world_eq ▸
      (Specimen.embedder.exports_agree 1 Specimen.programs Specimen.order [] 1).1
  have hlends : Specimen.world.LendsInstance 0 Specimen.store 5 0 Specimen.listing :=
    ⟨Specimen.inUse_store, Specimen.lends_instance,
      ⟨_, Specimen.get?_world (by rw [Specimen.slots_world]; rfl), Nat.one_pos, rfl, rfl⟩, rfl⟩
  refine ⟨hlends, ?_, ?_⟩
  · exact hagree.getExport 0 0 _ 5 _ hlends ⟨"memory", .memory ⟨⟨1, none⟩, false, false⟩⟩
      (by decide +kernel)
  · exact hagree.getNone 0 0 _ 5 _ "table" hlends (by decide +kernel)

end WasmHost.Host
