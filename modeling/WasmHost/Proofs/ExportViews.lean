import WasmHost.Proofs.FreshHandles
import WasmHost.Proofs.LogLines
import WasmHost.Proofs.ModuleExports
import WasmHost.Proofs.SharedObjects
import WasmHost.Proofs.Teardown

/-!
# The views of exports agree

A module lists its exports. An instance of it gives them all at once, or one by its name, or a function
by its name; and a host function that code of the instance calls can look them up as well. All of these
agree: each knows just the exports that are no shared memories, under the same names, of the same kinds,
and at the same places. So what is done through one view is seen through the others. Whatever is
answered, nothing but the items that are handed out is left behind.

There are four ways of asking, with four implementations, and each of them skips, filters or
releases something on its own. To compare them pairwise would be six statements. They are compared
with the module's list instead, which does not depend on any world: each way gives, for each name,
what the list has under it. The common part of the four is made explicit as `handOutNamed`, the
export of an instance with a given name.

"Nothing but the items that are handed out is left behind" is `HandsOut`. It matters because an
export without a view is first made and then released: a lookup that forgot to release would agree
with the others in its answers, and would leave a handle that nobody ever reclaims.
-/

namespace WasmHost.Wasm

/-- The exports of a module that the host has a view of. -/
def Module.viewedExports (m : Module) : List ExportType :=
  m.exportTypes.filter fun t => !t.type.isSharedMemory

end WasmHost.Wasm

namespace WasmHost.Guest

open Wasm

theorem exists_of_forall₂ {α β : Type} {R : α → β → Prop} {xs : List α} {ys : List β}
    (h : List.Forall₂ R xs ys) {x : α} (hx : x ∈ xs) : ∃ y ∈ ys, R x y := by
  induction h with
  | nil => cases hx
  | cons hxy _ ih =>
    rcases List.mem_cons.mp hx with rfl | hx
    · exact ⟨_, List.mem_cons_self, hxy⟩
    · obtain ⟨y, hy, hr⟩ := ih hx
      exact ⟨y, List.mem_cons_of_mem _ hy, hr⟩

variable {s : Store} {i : Instance}

/-- What a module lists is found in an instance of it under its name, -/
theorem Instance.Typed.exists_export (h : i.Typed s) {t : ExportType}
    (ht : t ∈ i.module.exportTypes) :
    ∃ place, i.export? t.name = some place ∧ s.ExportFits (t.name, place) t := by
  obtain ⟨⟨name, place⟩, hmem, hfit⟩ := exists_of_forall₂ h.exports_fit.flip ht
  obtain rfl : name = t.name := hfit.name
  exact ⟨place, h.export?_eq_some_iff.mpr hmem, hfit⟩

/-- and nothing else is. -/
theorem Instance.Typed.exists_listed (h : i.Typed s) {name : String} {place : Place}
    (hplace : i.export? name = some place) :
    ∃ t ∈ i.module.exportTypes, t.name = name ∧ s.ExportFits (name, place) t := by
  obtain ⟨t, ht, hfit⟩ := exists_of_forall₂ h.exports_fit (h.export?_eq_some_iff.mp hplace)
  exact ⟨t, ht, hfit.name.symm, hfit⟩

/-- No two exports of an instance have the same name, in the host's view either. -/
theorem Instance.Typed.nodup_viewed (h : i.Typed s) : (i.module.viewedExports.map (·.name)).Nodup := by
  have hnames : (i.module.exportTypes.map (·.name)).Nodup := by
    obtain ⟨features, hvalid⟩ := h.valid
    rw [Module.exportTypes, List.map_map]
    exact Module.nodup_exports hvalid
  exact hnames.sublist (List.filter_sublist.map _)

end WasmHost.Guest

namespace WasmHost.Host

open Act

variable {κ σ : Type}

/-! ## Looking up

An answer is described by the export that it is of (`IsExport`), and not by the handle, which is new
each time. -/

/-- A handle of a store is owned, and is that of an instance. -/
def World.InstanceHandle (w : World κ σ) (s : Nat) (h : Handle) (n : Nat) : Prop :=
  ∃ c, w.heap.get? h = some c ∧ 0 < c.shares ∧ c.store = s ∧ c.target = .instance_ s n

/-- A store has an instance. -/
def World.HasInstance (w : World κ σ) (s n : Nat) (inst : Guest.Instance) : Prop :=
  ∃ g, w.guest? s = some g ∧ g.instances[n]? = some inst ∧ inst.Typed g

theorem World.HasInstance.of_guests {w w' : World κ σ} {s n : Nat} {inst : Guest.Instance}
    (h : w.HasInstance s n inst) (hguests : ∀ t, w'.guest? t = w.guest? t) :
    w'.HasInstance s n inst := by
  obtain ⟨g, hg, hfound⟩ := h
  exact ⟨g, (hguests s).trans hg, hfound⟩

/-- Instances of an orderly world are typed. -/
theorem World.Orderly.hasInstance {w : World κ σ} {s n : Nat} {g : Guest.Store}
    {inst : Guest.Instance} (ht : w.Orderly) (hg : w.guest? s = some g)
    (hfound : g.instances[n]? = some inst) : w.HasInstance s n inst :=
  ⟨g, hg, hfound, (ht.guests s g hg).instances n inst hfound⟩

theorem World.HandsOut.instanceHandle {w w' : World κ σ} {s n : Nat} {i : Handle}
    {handles : List Handle} (h : w.HandsOut w' handles) (hi : w.InstanceHandle s i n) :
    w'.InstanceHandle s i n := by
  obtain ⟨c, hc, hpos, hrest⟩ := hi
  exact ⟨c, h.kept i c hc hpos, hpos, hrest⟩

/-- An item is what an export of an instance is: of the kind that the module declares, and at the place
where the instance has it. -/
structure World.IsExport (w : World κ σ) (s : Nat) (inst : Guest.Instance) (t : ExportType)
    (item : Item) : Prop where
  kind : item.kind = t.type.kind
  place : ∃ p, inst.export? t.name = some p ∧ p.kind = item.kind ∧ w.ItemHandle s item.handle p

/-- The export of an instance with a name, if the host has a view of it. -/
def handOutNamed (s : Nat) (inst : Guest.Instance) (name : String) : Act κ σ (Option Item) :=
  match inst.export? name with
  | none => pure none
  | some place => handOut s place

section Runs

variable {w w' : World κ σ} {s n : Nat} {g : Guest.Store} {i : Handle} {inst : Guest.Instance}

theorem Instance.run_at (hi : w.InstanceHandle s i n) (hat : w.HasInstance s n inst) :
    (Instance.at_ s i : Act κ σ Guest.Instance).run w = (.value inst, w) := by
  obtain ⟨c, hc, hpos, rfl, htarget⟩ := hi
  obtain ⟨g, hg, hfound, -⟩ := hat
  refine (run_bind_value (run_check hc hpos)).trans ?_
  rw [htarget]
  refine (run_bind_value (run_hand c.store)).trans ((run_bind_value (run_guest hg)).trans ?_)
  rw [hfound]
  rfl

/-- Exports that fit a list are handed out in the order of the list, without shared memories. By
induction on how they fit. What has been handed out before is kept by what is handed out later. -/
theorem run_handOutAll_fits (hs : 0 < w.recorded (.store s)) (hg : w.guest? s = some g)
    {exports : List (String × Guest.Place)} {ts : List ExportType}
    (h : List.Forall₂ g.ExportFits exports ts) :
    ∃ items w', (handOutAll s exports : Act κ σ (List (String × Item))).run w = (.value items, w') ∧
      w.Adds w' (items.map (·.2.handle)) ∧ (∀ t, w'.guest? t = w.guest? t) ∧
      List.Forall₂ (fun t e => e.1 = t.name ∧ e.2.kind = t.type.kind ∧
        ∃ p, (t.name, p) ∈ exports ∧ p.kind = e.2.kind ∧ w'.ItemHandle s e.2.handle p)
        (ts.filter fun t => !t.type.isSharedMemory) items := by
  induction h generalizing w with
  | nil => exact ⟨[], w, rfl, .refl w, fun _ => rfl, .nil⟩
  | @cons e t exports ts he _ ih =>
    obtain ⟨type, htype, -⟩ := he.shared
    obtain ⟨item, w₁, hrun, hadds, hs₁, hguest, hitem, hplace⟩ := handOut_adds hs hg htype
    obtain ⟨items, w₂, hruns, hadds₂, hguests, hitems⟩ := ih hs₁ ((hguest s).trans hg)
    have hitems : List.Forall₂ (fun t e' => e'.1 = t.name ∧ e'.2.kind = t.type.kind ∧
        ∃ p, (t.name, p) ∈ e :: exports ∧ p.kind = e'.2.kind ∧ w₂.ItemHandle s e'.2.handle p)
        (ts.filter fun t => !t.type.isSharedMemory) items :=
      hitems.imp fun _ _ ⟨hname, hkind, p, hmem, hp⟩ =>
        ⟨hname, hkind, p, List.mem_cons_of_mem _ hmem, hp⟩
    have hboth := hadds.trans hadds₂
    rw [he.views] at hitem
    -- The instance and the list are gone through together. The host has a view of this export, or
    -- it has none.
    cases hshared : t.type.isSharedMemory with
    | true =>
      obtain rfl : item = none := by simpa [hshared] using hitem
      refine ⟨items, w₂, (run_bind_value hrun).trans (run_bind_value hruns), by simpa using hboth,
        fun t => (hguests t).trans (hguest t), ?_⟩
      rw [List.filter_cons_of_neg (by simp [hshared])]
      exact hitems
    | false =>
      obtain ⟨item, rfl, hkind⟩ : ∃ i, item = some i ∧ i.kind = e.2.kind := by
        simpa [hshared] using hitem
      refine ⟨(e.1, item) :: items, w₂, (run_bind_value hrun).trans (run_bind_value hruns),
        by simpa using hboth, fun t => (hguests t).trans (hguest t), ?_⟩
      rw [List.filter_cons_of_pos (by simp [hshared])]
      refine .cons ⟨he.name, hkind.trans he.kind, e.2, ?_, hkind.symm,
        hadds₂.itemHandle (hplace item rfl)⟩ hitems
      rw [← he.name]
      exact List.mem_cons_self

variable (hat : w.HasInstance s n inst)

include hat

section Handed

variable (hs : 0 < w.recorded (.store s))

include hs

/-- What the module lists is handed out by its name, unless it is a shared memory. -/
theorem run_handOutNamed_listed {t : ExportType} (ht : t ∈ inst.module.viewedExports) :
    ∃ item w', (handOutNamed s inst t.name : Act κ σ (Option Item)).run w = (.value (some item), w') ∧
      w.Adds w' [item.handle] ∧ (∀ t, w'.guest? t = w.guest? t) ∧ w'.IsExport s inst t item := by
  obtain ⟨g, hg, -, htyped⟩ := hat
  obtain ⟨hlisted, hview⟩ := List.mem_filter.mp ht
  obtain ⟨place, hplace, hfit⟩ := htyped.exists_export hlisted
  obtain ⟨type, htype, -⟩ := hfit.shared
  obtain ⟨item, w', hrun, hadds, -, hguests, hkind, hitem⟩ :=
    handOut_adds (κ := κ) (σ := σ) hs hg htype
  rw [if_pos (hfit.views.trans hview)] at hkind
  obtain ⟨item, rfl, hsame⟩ := Option.map_eq_some_iff.mp hkind
  refine ⟨item, w', ?_, hadds, hguests, hsame.trans hfit.kind, place, hplace, hsame.symm,
    hitem item rfl⟩
  rw [handOutNamed, hplace]
  exact hrun

/-- Nothing is handed out by any other name. -/
theorem run_handOutNamed_unlisted {name : String}
    (hname : ∀ t ∈ inst.module.viewedExports, t.name ≠ name) :
    ∃ w', (handOutNamed s inst name : Act κ σ (Option Item)).run w = (.value none, w') ∧
      w.Adds w' [] ∧ ∀ t, w'.guest? t = w.guest? t := by
  obtain ⟨g, hg, -, htyped⟩ := hat
  cases hplace : inst.export? name with
  | none =>
    refine ⟨w, ?_, .refl w, fun _ => rfl⟩
    rw [handOutNamed, hplace]
    rfl
  | some place =>
    -- What has the name is a shared memory.
    obtain ⟨t, ht, rfl, hfit⟩ := htyped.exists_listed hplace
    have hview : views g place = false := by
      by_contra hview
      exact hname t (List.mem_filter.mpr ⟨ht, hfit.views.symm.trans (by simpa using hview)⟩) rfl
    obtain ⟨type, htype, -⟩ := hfit.shared
    obtain ⟨item, w', hrun, hadds, -, hguests, hkind, -⟩ :=
      handOut_adds (κ := κ) (σ := σ) hs hg htype
    obtain rfl : item = none := by simpa [hview] using hkind
    refine ⟨w', ?_, hadds, hguests⟩
    rw [handOutNamed, hplace]
    exact hrun

end Handed

/-- An export is looked up by its name once the context is obtained, -/
theorem Instance.run_getExport (hi : (w.drain s).InstanceHandle s i n) (name : String) :
    (Instance.getExport s i name : Act κ σ (Option Item)).run w =
      (handOutNamed s inst name).run (w.drain s) :=
  (run_bind_value (run_context s w)).trans
    (run_bind_value (Instance.run_at hi (hat.of_guests (w.drain_settles s).guests)))

/-- and likewise by a host function that code of the instance calls. -/
theorem Caller.run_getExport (name : String) :
    (Caller.getExport ⟨s, some n⟩ name : Act κ σ (Option Item)).run w =
      (handOutNamed s inst name).run (w.drain s) := by
  obtain ⟨g, hg, hfound, -⟩ := hat
  have hexport : exportOf g (some n) name = inst.export? name := by
    rw [exportOf, Option.bind_some, hfound, Option.bind_some]
  unfold handOutNamed
  cases hplace : inst.export? name with
  | none => exact Caller.run_getExport_none hg (hexport.trans hplace)
  | some place => exact Caller.run_getExport_some hg (hexport.trans hplace)

omit hat

/-- Keeps what has been looked up if it is a function, and lets go of it otherwise. -/
def Instance.keepFunc : Option Item → Act κ σ (Option Handle)
  | some ⟨.func, f⟩ => pure (some f)
  | some item => do
    releaseHandle item.handle
    return none
  | none => pure none

theorem Instance.run_getFunc {found : Option Item} {name : String}
    (h : (Instance.getExport s i name : Act κ σ (Option Item)).run w = (.value found, w')) :
    (Instance.getFunc s i name : Act κ σ (Option Handle)).run w = (keepFunc found).run w' :=
  run_bind_value (k := keepFunc) h

end Runs

/-! ## Answers

The lookup happens after the queue is drained, and drained handles are none of those that are lent;
so an instance that is lent is still there. -/

section Answers

variable [Keeper κ σ] {R L : Ledger κ} {w : World κ σ} {s n : Nat} {g : Guest.Store} {i : Handle}
  {inst : Guest.Instance}

theorem Invariant.recorded_store (hw : Invariant L w) (hg : w.guest? s = some g) :
    0 < w.recorded (.store s) := by
  obtain ⟨c, hc, hguest⟩ := Option.bind_eq_some_iff.mp hg
  exact hw.sound.pos_of_mem_refs (World.store_mem_refs_of_guest hc (by simp [hguest]))

theorem Invariant.instanceHandle (hw : Invariant L w) (hi : w.InstanceHandle s i n) :
    (w.drain s).InstanceHandle s i n := by
  obtain ⟨c, hc, hpos, hrest⟩ := hi
  exact ⟨c, (hw.sound.drain_spares s).shared i c hc hpos, hpos, hrest⟩

variable (hw : Invariant (R + L) w) (hat : w.HasInstance s n inst)

include hw hat

theorem Invariant.recorded_drain : 0 < (w.drain s).recorded (.store s) := by
  obtain ⟨g, hg, -⟩ := hat
  exact (hw.drain s).1.recorded_store (((w.drain_settles s).guests s).trans hg)

section LooksUp

variable {m : Act κ σ (Option Item)} {name : String}
  (hm : m.Leaves L (fun i => Ledger.owns (Item.sharesAll i.toList) + L) L)
  (hlook : m.run w = (handOutNamed s inst name).run (w.drain s))

include hm hlook

/-- Whoever looks up what is listed gets it, -/
theorem Invariant.lookUp_listed {t : ExportType} (ht : t ∈ inst.module.viewedExports)
    (hname : t.name = name) :
    ∃ item w', m.run w = (.value (some item), w') ∧ w.HandsOut w' [item.handle] ∧
      w'.IsExport s inst t item := by
  subst hname
  have hsettles := w.drain_settles s
  obtain ⟨item, w', hrun, hadds, hguests, hexport⟩ :=
    run_handOutNamed_listed (hat.of_guests hsettles.guests) (hw.recorded_drain hat) ht
  have hrun := hlook.trans hrun
  exact ⟨item, w', hrun, hadds.handsOut hw.sound (hm.run_value hw hrun).sound
    fun t => (hguests t).trans (hsettles.guests t), hexport⟩

/-- and nothing under any other name. -/
theorem Invariant.lookUp_unlisted (hname : ∀ t ∈ inst.module.viewedExports, t.name ≠ name) :
    ∃ w', m.run w = (.value none, w') ∧ w.HandsOut w' [] := by
  have hsettles := w.drain_settles s
  obtain ⟨w', hrun, hadds, hguests⟩ :=
    run_handOutNamed_unlisted (hat.of_guests hsettles.guests) (hw.recorded_drain hat) hname
  have hrun := hlook.trans hrun
  exact ⟨w', hrun, hadds.handsOut hw.sound (hm.run_value hw hrun).sound
    fun t => (hguests t).trans (hsettles.guests t)⟩

end LooksUp

variable (hheld : L.Has (.handle i .instance_)) (hi : w.InstanceHandle s i n)

include hheld hi

namespace Instance

/-- All exports are handed out, in the order of the module, without shared memories. -/
theorem run_exports_listed :
    ∃ items w', (exports s i : Act κ σ (List (String × Item))).run w = (.value items, w') ∧
      w.HandsOut w' (items.map (·.2.handle)) ∧ (items.map (·.1)).Nodup ∧
      List.Forall₂ (fun t e => e.1 = t.name ∧ w'.IsExport s inst t e.2) inst.module.viewedExports
        items := by
  have hsettles := w.drain_settles s
  have hat₀ := hat.of_guests hsettles.guests
  obtain ⟨g, hg, -, htyped⟩ := hat₀
  obtain ⟨items, w', hrun, hadds, hguests, hitems⟩ :=
    run_handOutAll_fits (hw.recorded_drain hat) hg htyped.exports_fit
  have hexports : (exports s i : Act κ σ (List (String × Item))).run w = (.value items, w') := by
    rw [exports_eq]
    exact (run_bind_value (run_context s w)).trans
      ((run_bind_value (run_at (hw.instanceHandle hi) (hat.of_guests hsettles.guests))).trans hrun)
  have hw' := (exports_leaves hheld).run_value hw hexports
  have hnames : items.map (·.1) = inst.module.viewedExports.map (·.name) :=
    List.forall₂_eq_eq_eq ▸ List.forall₂_map_left_iff.mpr (List.forall₂_map_right_iff.mpr
      (hitems.flip.imp fun _ _ h => h.1))
  refine ⟨items, w', hexports,
    hadds.handsOut hw.sound hw'.sound fun t => (hguests t).trans (hsettles.guests t),
    hnames ▸ htyped.nodup_viewed, ?_⟩
  exact hitems.imp fun t e ⟨hname, hkind, p, hmem, hp⟩ =>
    ⟨hname, hkind, p, htyped.export?_eq_some_iff.mpr hmem, hp⟩

theorem run_getExport_listed {t : ExportType} (ht : t ∈ inst.module.viewedExports) :
    ∃ item w', (getExport s i t.name : Act κ σ (Option Item)).run w = (.value (some item), w') ∧
      w.HandsOut w' [item.handle] ∧ w'.IsExport s inst t item :=
  hw.lookUp_listed hat (getExport_leaves hheld t.name)
    (run_getExport hat (hw.instanceHandle hi) t.name) ht rfl

theorem run_getExport_unlisted {name : String}
    (hname : ∀ t ∈ inst.module.viewedExports, t.name ≠ name) :
    ∃ w', (getExport s i name : Act κ σ (Option Item)).run w = (.value none, w') ∧
      w.HandsOut w' [] :=
  hw.lookUp_unlisted hat (getExport_leaves hheld name)
    (run_getExport hat (hw.instanceHandle hi) name) hname

/-- A function that is listed is handed out. -/
theorem run_getFunc_listed {t : ExportType} (ht : t ∈ inst.module.viewedExports)
    (hkind : t.type.kind = .func) :
    ∃ f w', (getFunc s i t.name : Act κ σ (Option Handle)).run w = (.value (some f), w') ∧
      w.HandsOut w' [f] ∧ w'.IsExport s inst t ⟨.func, f⟩ := by
  obtain ⟨⟨kind, f⟩, w', hrun, hands, hexport⟩ := run_getExport_listed hw hat hheld hi ht
  obtain rfl : kind = .func := hexport.kind.trans hkind
  exact ⟨f, w', run_getFunc hrun, hands, hexport⟩

/-- Under any other name there is none, even if something else has the name. -/
theorem run_getFunc_unlisted {name : String}
    (hname : ∀ t ∈ inst.module.viewedExports, t.name = name → t.type.kind ≠ .func) :
    ∃ w', (getFunc s i name : Act κ σ (Option Handle)).run w = (.value none, w') ∧
      w.HandsOut w' [] := by
  -- Either there is nothing with the name, or something that is no function. In the second case a
  -- handle is made and let go of.
  by_cases hlisted : ∃ t ∈ inst.module.viewedExports, t.name = name
  swap
  · obtain ⟨w', hrun, hands⟩ := run_getExport_unlisted hw hat hheld hi
      fun t ht heq => hlisted ⟨t, ht, heq⟩
    exact ⟨w', run_getFunc hrun, hands⟩
  obtain ⟨t, ht, rfl⟩ := hlisted
  have hsettles := w.drain_settles s
  obtain ⟨g, hg, -, htyped⟩ := hat.of_guests hsettles.guests
  obtain ⟨hmodule, hview⟩ := List.mem_filter.mp ht
  obtain ⟨place, hplace, hfit⟩ := htyped.exists_export hmodule
  have hkind : place.kind ≠ .func := fun h => hname t ht rfl (hfit.kind.symm.trans h)
  -- The item that was handed out for it is let go of at once.
  have hget := run_getExport (κ := κ) (σ := σ) hat (hw.instanceHandle hi) t.name
  rw [handOutNamed, hplace] at hget
  have hget := hget.trans (run_handOut_of_views hg (hfit.views.trans hview))
  obtain ⟨w', hrelease, hadds, -, hguests⟩ :=
    World.run_releaseHandle_newHandle (hw.recorded_drain hat) (.item s place)
  have hrun : (getFunc s i t.name : Act κ σ (Option Handle)).run w = (.value none, w') := by
    rw [run_getFunc hget]
    cases place with
    | func => exact absurd rfl hkind
    | _ => exact run_bind_value hrelease
  have hw' := (getFunc_leaves hheld t.name).run_value hw hrun
  exact ⟨w', hrun,
    hadds.handsOut hw.sound hw'.sound fun t => (hguests t).trans (hsettles.guests t)⟩

end Instance

omit hheld hi

namespace Caller

/-- A host function that code of the instance calls looks up the same exports, -/
theorem run_getExport_listed {t : ExportType} (ht : t ∈ inst.module.viewedExports) :
    ∃ item w', (getExport ⟨s, some n⟩ t.name : Act κ σ (Option Item)).run w =
        (.value (some item), w') ∧
      w.HandsOut w' [item.handle] ∧ w'.IsExport s inst t item :=
  hw.lookUp_listed hat (getExport_leaves ⟨s, some n⟩ t.name) (run_getExport hat t.name) ht rfl

/-- and finds no others. -/
theorem run_getExport_unlisted {name : String}
    (hname : ∀ t ∈ inst.module.viewedExports, t.name ≠ name) :
    ∃ w', (getExport ⟨s, some n⟩ name : Act κ σ (Option Item)).run w = (.value none, w') ∧
      w.HandsOut w' [] :=
  hw.lookUp_unlisted hat (getExport_leaves ⟨s, some n⟩ name) (run_getExport hat name) hname

end Caller

end Answers

/-! ## Instances that are made

What the views are compared with is the module. So it has to be known that an instance is one of the
module that it was made of, whatever its start function did before the handle was made. -/

section Made

variable [Keeper κ σ] {R L : Ledger κ} {known : List (Pin κ)} {w w' : World κ σ} {s module : Nat}
  {imports : List Item} {host : Runner κ σ}

omit [Keeper κ σ] in
/-- An instance that is made has been linked and started, and a handle is made for it. -/
theorem Instance.enters_of_run {h : Handle}
    (hrun : (Instance.create host s module imports).run w = (.value h, w')) :
    ∃ started w₁ w₂, Instance.Enters s module imports w (.ok started) w₁ ∧
      (callStart host s started).run w₁ = (.value (.ok ()), w₂) ∧
      w₂.newHandle s (.instance_ s started.instance_) = (h, w') := by
  have hrun := (run_bind_value (run_context s w)).symm.trans hrun
  have hrun := (run_bind_value (m := Act.world) rfl).symm.trans hrun
  obtain ⟨cell, w₁, hfound, hrun⟩ := run_bind_eq_value hrun
  obtain ⟨hmodule, rfl⟩ := run_orAbort hfound
  obtain ⟨store, w₁, hfound, hrun⟩ := run_bind_eq_value hrun
  obtain ⟨hstore, rfl⟩ := run_orAbort hfound
  by_cases hengine : store.engine = cell.engine
  swap
  · rw [if_pos hengine] at hrun
    cases hrun
  rw [if_neg (not_not.mpr hengine)] at hrun
  by_cases hcount : imports.length = cell.compiled.code.imports.size
  swap
  · rw [if_pos hcount] at hrun
    cases hrun
  rw [if_neg (not_not.mpr hcount)] at hrun
  obtain ⟨u, w₁, hcheck, hrun⟩ := run_bind_eq_value hrun
  obtain rfl := (checkAll_looking s imports).run_value hcheck
  obtain ⟨places, w₁, hplaces, hrun⟩ := run_bind_eq_value hrun
  obtain rfl := (places_looking s imports).run_value hplaces
  obtain ⟨res, w₁, hlink, hrun⟩ := run_bind_eq_value hrun
  have henters : Enters s module imports w res w₁ :=
    ⟨cell, store, places, hmodule, hstore, hengine, hcount, hcheck, hplaces, hlink⟩
  cases res with
  | error failure => exact absurd hrun (run_raise_ne_value failure)
  | ok started =>
    obtain ⟨res, w₂, hstart, hrun⟩ := run_bind_eq_value hrun
    cases res with
    | error failure => exact absurd hrun (run_raise_ne_value failure)
    | ok u =>
      refine ⟨started, w₁, w₂, henters, hstart, ?_⟩
      cases hrun
      rfl

theorem Instance.Enters.invariant {res : Except Guest.Failure Guest.Started}
    (h : Instance.Enters s module imports w res w') (hw : Invariant (R + L) w) :
    Invariant (R + L) w' := by
  obtain ⟨cell, store, places, -, -, -, -, -, -, hlink⟩ := h
  exact (onGuest_leaves fun g => Guest.instantiate_extends g _ _ places).run_value (hw.drain s).1 hlink

/-- An instance that is made is one of the module that it is made of. -/
theorem Instance.made_of_run {cell : ModuleCell} {h : Handle} (hfair : Fair host)
    (hsteady : Steady host) (hw : Invariant (R + L) w) (ht : w.Orderly)
    (hs : .tenure s known none ∈ L) (himports : ∀ x ∈ Item.sharesAll imports, L.Has x)
    (hmodule : w.modules[module]? = some cell)
    (hrun : (Instance.create host s module imports).run w = (.value h, w')) :
    ∃ n g inst, w'.guest? s = some g ∧ w'.InstanceHandle s h n ∧ g.instances[n]? = some inst ∧
      inst.module = cell.compiled.code := by
  obtain ⟨started, w₁, w₂, henters, hstart, hnew⟩ := enters_of_run hrun
  obtain ⟨hlead, hstartable, cell', hmodule', hmade⟩ := henters.typed hw ht
  obtain rfl : cell = cell' := by
    rw [World.modules_drain] at hmodule'
    exact Option.some.inj (hmodule.symm.trans hmodule')
  -- Whatever the start function does, the instance stays.
  have hw₁ := henters.invariant hw
  obtain ⟨L, rfl⟩ := Multiset.exists_cons_of_mem hs
  obtain ⟨hlead₂, -⟩ := (callStart_promises hsteady hstartable).run
    (callStart_meets hfair started) hw₁ hlead.orderly
  rw [hstart] at hlead₂
  have hmade := hmade.lead hlead₂
  obtain rfl : (w₂.newHandle s (.instance_ s started.instance_)).1 = h := congrArg Prod.fst hnew
  obtain rfl : (w₂.newHandle s (.instance_ s started.instance_)).2 = w' := congrArg Prod.snd hnew
  -- The store is there, since whoever has the use of it has it still.
  obtain ⟨c, g, -, hg, -⟩ :=
    ((create_leaves hfair hs himports module).run_value hw hrun).tenured
      (Multiset.mem_cons_of_mem (Multiset.mem_cons_self _ _))
  obtain ⟨inst, hfound, hcode⟩ := hmade.2 g ((w₂.guest?_newHandle s _ s).symm.trans hg)
  exact ⟨started.instance_, g, inst, hg,
    ⟨_, (Slab.get?_insert w₂.heap _ _).trans (if_pos rfl), Nat.one_pos, rfl, rfl⟩, hfound, hcode⟩

end Made

end WasmHost.Host
