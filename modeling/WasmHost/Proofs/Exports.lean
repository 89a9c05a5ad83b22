import WasmHost.Proofs.Transit
import WasmHost.Proofs.WorldTyping

/-!
# Exports as they are handed out

The exports of an instance are handed out in the order of its module, each under its name, and with an
item of its kind. Those the host has no view of are left out. Nothing of the store's guest part changes
with that.

Three operations hand out exports: one gives all of them, one looks for a name, one for a function
with a name. They have their last step in common, `handOut`, and so what is said of it here serves
the three (`ExportViews`) and the caller's view (`AgreeingViews`).

Whether the host has a view of an item cannot be told before a handle has been made for it, because
the item's type comes back with the handle. If there is no view, the handle is released again, and
this has effects that can be seen: an address is used for a moment, and the store has one more
handle to reclaim. `FreshHandles` is about these.
-/

namespace WasmHost.Wasm

/-- What a valid module exports is in one of its index spaces. -/
theorem Module.exports_of_isValid {m : Module} {features : Features}
    (h : m.isValid features = true) :
    ∀ e ∈ m.exports, (m.context features).hasIndex e.kind e.index = true := by
  simp only [Module.isValid, Bool.and_eq_true] at h
  exact Array.all_eq_true'.mp h.1.1.1.1.1.2

end WasmHost.Wasm

namespace WasmHost.Guest

theorem Instance.Typed.declared_place {s : Store} {i : Instance} (h : i.Typed s)
    {features : Wasm.Features} {kind : ItemKind} {index : Nat}
    (hindex : (i.module.context features).hasIndex kind index = true) {place : Place}
    (hplace : i.place? kind index = some place) : (s.declaredType? place).isSome := by
  -- A valid index is within the index space of the instance, and what is there is within the store.
  -- For functions it is known that all of them are in the store. Of the others it is known for each
  -- index.
  cases kind with
  | func =>
    obtain ⟨p, hp, rfl⟩ := Option.map_eq_some_iff.mp hplace
    have hlt := h.within p (Array.mem_of_getElem? hp)
    simp [Store.declaredType?, hlt]
  | global =>
    obtain ⟨p, hp, rfl⟩ := Option.map_eq_some_iff.mp hplace
    obtain ⟨p', hp', g, hg, -⟩ :=
      h.globals index _ (Array.getElem?_eq_getElem (of_decide_eq_true hindex))
    obtain rfl : p = p' := Option.some.inj (hp.symm.trans hp')
    simp [Store.declaredType?, hg]
  | memory =>
    obtain ⟨p, hp, rfl⟩ := Option.map_eq_some_iff.mp hplace
    obtain ⟨p', hp', m, hm, -⟩ :=
      h.memories index _ (Array.getElem?_eq_getElem (of_decide_eq_true hindex))
    obtain rfl : p = p' := Option.some.inj (hp.symm.trans hp')
    simp [Store.declaredType?, hm]
  | table =>
    obtain ⟨p, hp, rfl⟩ := Option.map_eq_some_iff.mp hplace
    obtain ⟨p', hp', t, ht, -⟩ :=
      h.tables index _ (Array.getElem?_eq_getElem (of_decide_eq_true hindex))
    obtain rfl : p = p' := Option.some.inj (hp.symm.trans hp')
    simp [Store.declaredType?, ht]

/-- The exports of an instance are items of its store. -/
theorem Instance.Typed.declared {s : Store} {i : Instance} (h : i.Typed s) :
    ∀ e ∈ i.exports, (s.declaredType? e.2).isSome := by
  intro e he
  obtain ⟨x, hx, hx'⟩ := List.mem_filterMap.mp he
  obtain ⟨place, hplace, rfl⟩ := Option.map_eq_some_iff.mp hx'
  obtain ⟨features, hvalid⟩ := h.valid
  exact h.declared_place
    (Wasm.Module.exports_of_isValid hvalid x (Array.mem_toList_iff.mp hx)) hplace

end WasmHost.Guest

namespace WasmHost.Host

open Act

variable {κ σ : Type}

/-- The host has a view of the item at a place. It has none of shared memories. -/
def views (g : Guest.Store) (place : Guest.Place) : Bool :=
  match g.declaredType? place with
  | some (.memory type) => !type.shared
  | some _ => true
  | none => false

variable {w : World κ σ} {s : Nat} {g : Guest.Store} {place : Guest.Place} {type : ItemType}

theorem exportTarget_of_views (htype : g.declaredType? place = some type) :
    exportTarget s place type = if views g place then .item s place else .unsupported s := by
  unfold views exportTarget
  rw [htype]
  cases type with
  | memory type => cases h : type.shared <;> simp [h]
  | _ => rfl

theorem World.guest?_newHandle (w : World κ σ) (store : Nat) (target : Target) (s : Nat) :
    (w.newHandle store target).2.guest? s = w.guest? s := by
  unfold newHandle retainStore World.guest?
  simp only [modifyStore, Array.getElem?_modify]
  split
  · rename_i h
    subst h
    cases w.stores[store]? <;> rfl
  · rfl

theorem World.itemHandle_newHandle (w : World κ σ) (s : Nat) (place : Guest.Place) :
    (w.newHandle s (.item s place)).2.ItemHandle s (w.newHandle s (.item s place)).1 place :=
  ⟨_, (Slab.get?_insert w.heap _ _).trans (if_pos rfl), Nat.one_pos, rfl, rfl⟩

theorem World.newExport_eq (hg : w.guest? s = some g) (htype : g.declaredType? place = some type) :
    w.newExport s place =
      (some ((w.newHandle s (exportTarget s place type)).1, exportTarget s place type),
        (w.newHandle s (exportTarget s place type)).2) := by
  simp only [newExport, hg, Option.bind_some, htype]

/-- An export that the host has a view of is handed out as a new handle. -/
theorem run_handOut_of_views (hg : w.guest? s = some g) (hview : views g place = true) :
    (handOut s place : Act κ σ (Option Item)).run w =
      (.value (some ⟨place.kind, (w.newHandle s (.item s place)).1⟩),
        (w.newHandle s (.item s place)).2) := by
  obtain ⟨type, htype⟩ : ∃ type, g.declaredType? place = some type := by
    cases htype : g.declaredType? place with
    | none => simp [views, htype] at hview
    | some type => exact ⟨type, rfl⟩
  have hnew := World.newExport_eq (w := w) hg htype
  rw [exportTarget_of_views htype, if_pos hview] at hnew
  exact (run_bind_value (run_make (f := (·.newExport s place)) hnew)).trans rfl

/-- For any other export a new handle is made as well, and let go of at once. -/
theorem run_handOut_of_not_views (hg : w.guest? s = some g)
    (htype : g.declaredType? place = some type) (hview : views g place = false) :
    (handOut s place : Act κ σ (Option Item)).run w =
      (do
        releaseHandle (w.newHandle s (.unsupported s)).1
        return none : Act κ σ (Option Item)).run (w.newHandle s (.unsupported s)).2 := by
  have hnew := World.newExport_eq (w := w) hg htype
  rw [exportTarget_of_views htype, hview] at hnew
  exact run_bind_value (run_make (f := (·.newExport s place)) hnew)

/-- An export is handed out if the host has a view of it. -/
theorem run_handOut (hg : w.guest? s = some g) (htype : g.declaredType? place = some type) :
    ∃ item w', (handOut s place : Act κ σ (Option Item)).run w = (.value item, w') ∧
      (∀ t, w'.guest? t = w.guest? t) ∧
      item.map Item.kind = (if views g place then some place.kind else none) ∧
      ∀ i, item = some i → w'.ItemHandle s i.handle place := by
  cases hview : views g place with
  | true =>
    refine ⟨_, _, run_handOut_of_views hg hview, w.guest?_newHandle s _, rfl, fun i hi => ?_⟩
    obtain rfl := Option.some.inj hi
    exact w.itemHandle_newHandle s place
  | false =>
    obtain ⟨_, w', hrun, hw'⟩ :=
      releaseHandle_settling (w.newHandle s (.unsupported s)).1 (w.newHandle s (.unsupported s)).2
    exact ⟨none, w', (run_handOut_of_not_views hg htype hview).trans (run_bind_value hrun),
      fun t => (hw'.guests t).trans (w.guest?_newHandle s _ t), rfl, fun i hi => by cases hi⟩

/-- There is no handle for something that is not in the store. -/
theorem run_handOut_undeclared (hg : w.guest? s = some g) (htype : g.declaredType? place = none) :
    (handOut s place : Act κ σ (Option Item)).run w = (.aborted .stuck, w.fault .stuck) := by
  have hnew : w.newExport s place = (none, w) := by
    simp only [World.newExport, hg, Option.bind_some, htype]
  have habort : (orAbort .stuck none : Act κ σ (Handle × Target)).run w =
      (.aborted .stuck, w.fault .stuck) := rfl
  exact (run_bind_value (run_make (f := (·.newExport s place)) hnew)).trans (run_bind_aborted habort)

/-- Exports are handed out in order, without those the host has no view of, or as far as the first
that is not in the store. By induction on the exports; the guest part of the store, which tells what
is viewed, is the same for the rest of them. -/
theorem run_handOutAll (hg : w.guest? s = some g) (exports : List (String × Guest.Place)) :
    ∃ o w', (handOutAll s exports : Act κ σ (List (String × Item))).run w = (o, w') ∧
      (∀ t, w'.guest? t = w.guest? t) ∧
      ((∃ items, o = .value items ∧ items.map (fun i => (i.1, i.2.kind)) =
        (exports.filter fun e => views g e.2).map fun e => (e.1, e.2.kind)) ∨
      o = .aborted .stuck ∧ ∃ e ∈ exports, g.declaredType? e.2 = none) := by
  induction exports generalizing w with
  | nil => exact ⟨_, w, rfl, fun _ => rfl, .inl ⟨[], rfl, rfl⟩⟩
  | cons e exports ih =>
    -- An export that is not in the store ends the whole operation. In an orderly world there is
    -- none.
    cases htype : g.declaredType? e.2 with
    | none =>
      exact ⟨_, _, run_bind_aborted (run_handOut_undeclared hg htype), fun _ => rfl,
        .inr ⟨rfl, e, List.mem_cons_self, htype⟩⟩
    | some type =>
      obtain ⟨item, w₁, hrun, hguest, hitem, -⟩ := run_handOut hg htype
      obtain ⟨o, w₂, hruns, hguests, ho⟩ := ih ((hguest s).trans hg)
      have hguests' : ∀ t, w₂.guest? t = w.guest? t := fun t => (hguests t).trans (hguest t)
      obtain ⟨items, rfl, hitems⟩ | ⟨rfl, e', he', hnone⟩ := ho
      · refine ⟨.value ((item.map fun i => (e.1, i)).toList ++ items), w₂,
          (run_bind_value hrun).trans ((run_bind_value hruns).trans ?_), hguests',
          .inl ⟨_, rfl, ?_⟩⟩
        · cases item <;> rfl
        · rw [List.map_append, hitems]
          cases item with
          | none =>
            have hview : views g e.2 = false := by simpa using hitem
            simp [hview]
          | some item =>
            have hview : views g e.2 = true ∧ item.kind = e.2.kind := by simpa using hitem
            simp [hview]
      · exact ⟨_, w₂, (run_bind_value hrun).trans (run_bind_aborted hruns), hguests',
          .inr ⟨rfl, e', List.mem_cons_of_mem _ he', hnone⟩⟩

theorem run_exports {i : Handle} {inst : Guest.Instance} (hg : w.guest? s = some g)
    (hi : (Instance.at_ s i : Act κ σ Guest.Instance).run (w.drain s) = (.value inst, w.drain s)) :
    ∃ o w', (Instance.exports s i : Act κ σ (List (String × Item))).run w = (o, w') ∧
      (∀ t, w'.guest? t = w.guest? t) ∧
      ((∃ items, o = .value items ∧ items.map (fun i => (i.1, i.2.kind)) =
        (inst.exports.filter fun e => views g e.2).map fun e => (e.1, e.2.kind)) ∨
      o = .aborted .stuck ∧ ∃ e ∈ inst.exports, g.declaredType? e.2 = none) := by
  have hdrain := (w.drain_settles s).guests
  obtain ⟨o, w', hrun, hguests, ho⟩ := run_handOutAll ((hdrain s).trans hg) inst.exports
  refine ⟨o, w', ?_, fun t => (hguests t).trans (hdrain t), ho⟩
  rw [Instance.exports_eq]
  exact (run_bind_value (run_context s w)).trans ((run_bind_value hi).trans hrun)

end WasmHost.Host
