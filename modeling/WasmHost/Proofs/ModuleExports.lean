import WasmHost.Proofs.Exports
import WasmHost.Proofs.NamedImports

/-!
# Exports as a module lists them

The host reads the list of a module's exports entry by entry, and misses none. The instances of the
module export the same under the same names, in the same order, and of the same kinds; whether the host
has a view of an export depends on the type that the module declares for it, and on nothing else. No
two exports have the same name.

A module lists its exports before there is an instance, from the types it declares, and an instance
hands them out later, from the items that it has. That the two agree is a consequence of typing. The
place to which a valid index leads holds an item that *suits* what the module declares at the index,
also if it was imported, and so of a type that is not quite the same: the limits of a memory may be
narrower. Whether a memory is shared must agree, and this is all that a view depends on.

Names are compared by the validator, on a sorted list, with neighbours only. That this is enough,
and that `lookup` therefore finds the one export of a name, is shown in the first section and used
wherever something is found by name.
-/

namespace WasmHost

/-- The type of a shared memory. -/
def ItemType.isSharedMemory : ItemType → Bool
  | .memory type => type.shared
  | _ => false

/-! ## Names of exports

The validator sorts because comparing each with each takes too long for the modules that compilers
make. -/

namespace Wasm

/-- Neighbours in a sorted list are all that must differ. -/
theorem nodup_of_sorted {names : List String} (hsorted : names.Pairwise (· ≤ ·))
    (h : ((names.zip (names.drop 1)).all fun (a, b) => a != b) = true) : names.Nodup := by
  induction names with
  | nil => exact List.nodup_nil
  | cons a names ih =>
    cases names with
    | nil => exact List.nodup_singleton a
    | cons b names =>
      simp only [List.drop_succ_cons, List.drop_zero, List.zip_cons_cons, List.all_cons,
        Bool.and_eq_true, bne_iff_ne] at h ih
      obtain ⟨hab, hall⟩ := List.pairwise_cons.mp hsorted
      have hbs := (List.pairwise_cons.mp hall).1
      refine List.nodup_cons.mpr ⟨fun hmem => ?_, ih hall h.2⟩
      -- A name that comes again is not less than the one after its first occurrence.
      rcases List.mem_cons.mp hmem with rfl | hmem
      · exact h.1 rfl
      · exact h.1 (String.le_antisymm (hab b List.mem_cons_self) (hbs a hmem))

theorem nodup_of_distinct {names : List String} (h : distinct names = true) : names.Nodup := by
  have hsorted : (names.mergeSort (· ≤ ·)).Pairwise (· ≤ ·) := by
    have htrans : ∀ a b c : String, decide (a ≤ b) = true → decide (b ≤ c) = true →
        decide (a ≤ c) = true := fun a b c hab hbc =>
      decide_eq_true (String.le_trans (of_decide_eq_true hab) (of_decide_eq_true hbc))
    have htotal : ∀ a b : String, (decide (a ≤ b) || decide (b ≤ a)) = true := by
      simp [String.le_total]
    exact (List.pairwise_mergeSort htrans htotal names).imp of_decide_eq_true
  exact (List.mergeSort_perm names _).nodup_iff.mp (nodup_of_sorted hsorted h)

variable {m : Module} {features : Features}

theorem Module.nodup_exports (h : m.isValid features = true) :
    (m.exports.toList.map (·.name)).Nodup := by
  simp only [Module.isValid, Bool.and_eq_true] at h
  exact nodup_of_distinct h.1.1.1.1.2

/-- A function of a valid module has a signature. -/
theorem Module.Valid.isSome_signature? (h : m.Valid features) {index : Nat}
    (hindex : index < m.funcTypes.size) : (m.signature? index).isSome := by
  have htype : ∀ t ∈ m.funcTypes, t < m.types.size := by
    intro t ht
    rw [Module.funcTypes, Array.mem_append, Array.mem_filterMap] at ht
    rcases ht with ⟨i, hi, ht⟩ | ht
    · have htyped := h.imports i hi
      cases hdesc : i.desc with
      | func t' =>
        rw [hdesc] at ht
        cases ht
        simpa [Context.importTyped, hdesc, Module.context] using htyped
      | _ => rw [hdesc] at ht; cases ht
    · exact h.funcs t ht
  have hlt := htype _ (Array.getElem_mem hindex)
  simp [Module.signature?, hindex, hlt]

end Wasm

/-! ## Exports of instances

An instance leaves out an export whose index leads nowhere. In a typed store there is none, so its
list is as long as that of the module. -/

namespace Guest

/-- An export of an instance is what the module lists: it has the name and the kind, and it is a shared
memory if the list says so. -/
structure Store.ExportFits (s : Store) (e : String × Place) (t : ExportType) : Prop where
  name : e.1 = t.name
  kind : e.2.kind = t.type.kind
  shared : ∃ type, s.declaredType? e.2 = some type ∧ type.isSharedMemory = t.type.isSharedMemory

/-- What a valid index leads to is of the type that the module declares. -/
theorem Instance.Typed.export_fits {s : Store} {i : Instance} (h : i.Typed s)
    {features : Wasm.Features} (hvalid : i.module.Valid features) {e : Wasm.Export}
    (hindex : (i.module.context features).hasIndex e.kind e.index = true) :
    ∃ place, i.place? e.kind e.index = some place ∧
      s.ExportFits (e.name, place) (i.module.exportType e) := by
  obtain ⟨name, kind, index⟩ := e
  cases kind with
  | func =>
    obtain ⟨t, ht⟩ := Option.isSome_iff_exists.mp
      (hvalid.isSome_signature? (of_decide_eq_true hindex))
    obtain ⟨p, hp, f, hf, -⟩ := h.funcs index t ht
    exact ⟨.func p, by simp [Instance.place?, hp], rfl, rfl, .func f.type,
      by simp [Store.declaredType?, hf], rfl⟩
  | global =>
    obtain ⟨p, hp, g, hg, -⟩ :=
      h.globals index _ (Array.getElem?_eq_getElem (of_decide_eq_true hindex))
    exact ⟨.global p, by simp [Instance.place?, hp], rfl, rfl, .global g.type,
      by simp [Store.declaredType?, hg], rfl⟩
  | memory =>
    have htype := Array.getElem?_eq_getElem (of_decide_eq_true hindex)
    obtain ⟨p, hp, x, hx, hsuits⟩ := h.memories index _ htype
    refine ⟨.memory p, by simp [Instance.place?, hp], rfl, rfl, .memory x.type,
      by simp [Store.declaredType?, hx], ?_⟩
    have hdeclared : i.module.memoryTypes[index]? = some _ := htype
    simp only [Wasm.Module.exportType, hdeclared, Option.getD_some, ItemType.isSharedMemory]
    exact hsuits.shared
  | table =>
    obtain ⟨p, hp, t, ht, -⟩ :=
      h.tables index _ (Array.getElem?_eq_getElem (of_decide_eq_true hindex))
    exact ⟨.table p, by simp [Instance.place?, hp], rfl, rfl, .table t.type,
      by simp [Store.declaredType?, ht], rfl⟩

/-- The exports of an instance are those that its module lists. -/
theorem Instance.Typed.exports_fit {s : Store} {i : Instance} (h : i.Typed s) :
    List.Forall₂ s.ExportFits i.exports i.module.exportTypes := by
  obtain ⟨features, hvalid⟩ := h.valid
  have hindices : ∀ e ∈ i.module.exports.toList,
      (i.module.context features).hasIndex e.kind e.index = true := fun e he =>
    Wasm.Module.exports_of_isValid hvalid e (Array.mem_toList_iff.mp he)
  unfold Instance.exports Wasm.Module.exportTypes
  -- From here on it does not matter where the list comes from, only that its indices are valid.
  generalize i.module.exports.toList = listed at hindices ⊢
  induction listed with
  | nil => exact .nil
  | cons e listed ih =>
    rw [List.forall_mem_cons] at hindices
    obtain ⟨place, hplace, hfits⟩ :=
      h.export_fits (Wasm.Module.valid_of_isValid hvalid) hindices.1
    simp only [List.filterMap_cons, hplace, Option.map_some, List.map_cons]
    exact .cons hfits (ih hindices.2)

theorem Instance.Typed.names {s : Store} {i : Instance} (h : i.Typed s) :
    i.exports.map Prod.fst = i.module.exports.toList.map (·.name) := by
  have hnames : i.exports.map Prod.fst = i.module.exportTypes.map (·.name) :=
    List.forall₂_eq_eq_eq ▸
      List.forall₂_map_left_iff.mpr (List.forall₂_map_right_iff.mpr
        (h.exports_fit.imp fun _ _ hfits => hfits.name))
  rw [hnames, Wasm.Module.exportTypes, List.map_map]
  rfl

/-- No two exports of an instance have the same name. -/
theorem Instance.Typed.nodup_exports {s : Store} {i : Instance} (h : i.Typed s) :
    (i.exports.map Prod.fst).Nodup := by
  obtain ⟨features, hvalid⟩ := h.valid
  rw [h.names]
  exact Wasm.Module.nodup_exports hvalid

/-- An export is found under its name. -/
theorem Instance.Typed.export?_eq_some_iff {s : Store} {i : Instance} (h : i.Typed s) {name : String}
    {place : Place} : i.export? name = some place ↔ (name, place) ∈ i.exports := by
  have hnodup := h.nodup_exports
  unfold Instance.export?
  generalize i.exports = exports at hnodup ⊢
  induction exports with
  | nil => simp
  | cons e exports ih =>
    obtain ⟨hnew, hrest⟩ := List.nodup_cons.mp hnodup
    obtain ⟨name', place'⟩ := e
    by_cases hname : name = name'
    · subst hname
      rw [List.lookup_cons_self, List.mem_cons]
      refine ⟨fun hsome => .inl (by rw [Option.some.inj hsome]), ?_⟩
      -- The name is not among those of the other exports.
      rintro (heq | hmem)
      · exact congrArg some (Prod.ext_iff.mp heq).2.symm
      · exact absurd (List.mem_map_of_mem hmem) hnew
    · rw [List.lookup_cons, beq_false_of_ne hname, List.mem_cons]
      refine (ih hrest).trans ⟨.inr, ?_⟩
      rintro (heq | hmem)
      · exact absurd (Prod.ext_iff.mp heq).1 hname
      · exact hmem

end Guest

/-- The host has a view of an export unless the module declares it as a shared memory. -/
theorem Guest.Store.ExportFits.views {s : Guest.Store} {e : String × Guest.Place} {t : ExportType}
    (h : s.ExportFits e t) : Host.views s e.2 = !t.type.isSharedMemory := by
  obtain ⟨-, -, type, htype, hshared⟩ := h
  rw [← hshared, Host.views, htype]
  cases type <;> rfl

/-! ## Lists on the wire

As for imports, entry by entry. -/

namespace Host.Wire

/-- An export is shown as the engine knows it. -/
structure EngineExport.ShownAs (e : EngineExport) (shown : ExportType) : Prop where
  name : shown.name = e.name
  type : ∃ type, e.type = .item type ∧ shown.type = Wire.shown type

theorem EngineExport.shown_of_write {e : EngineExport} {r : RawExport} (h : e.write = some r) :
    ∃ shown, r.read = some shown ∧ e.ShownAs shown := by
  obtain ⟨raw, hraw, rfl⟩ := Option.map_eq_some_iff.mp h
  obtain ⟨type, htype, hread⟩ := read_write hraw
  exact ⟨⟨e.name, shown type⟩, by simp only [RawExport.read, hread]; rfl, rfl, type, htype, rfl⟩

/-- From the list that a module was loaded with, the host reads every export, in order. -/
theorem readExports_of_write {exports : List EngineExport} {raws : List RawExport}
    (h : writeExports exports = some raws) :
    List.Forall₂ EngineExport.ShownAs exports (readExports raws) := by
  rw [readExports, filterMap_entries]
  exact forall₂_of_mapM (fun _ _ => EngineExport.shown_of_write) h

theorem kind_shown (type : ItemType) : (shown type).kind = type.kind := by
  cases type <;> rfl

/-- The host lists what a module exports. -/
theorem listExports_eq (m : Wasm.Module) :
    listExports m = m.exportTypes.map fun e => ⟨e.name, shown e.type⟩ := by
  have hwrites : ∀ e ∈ engineExports m, e.write.isSome := by
    simp [engineExports, EngineExport.write, EngineType.isSome_write]
  obtain ⟨raws, hraws⟩ := exists_mapM hwrites
  have hread := readExports_of_write hraws
  rw [engineExports, List.forall₂_map_left_iff] at hread
  have hlist : listExports m = readExports raws := by
    have hwritten : writeExports (engineExports m) = some raws := hraws
    rw [listExports, hwritten, Option.map_some, Option.getD_some]
  rw [hlist, ← List.forall₂_eq_eq_eq, List.forall₂_map_right_iff]
  refine hread.flip.imp fun shown e hshown => ?_
  obtain ⟨hname, type, htype, hshown⟩ := hshown
  cases htype
  cases shown
  cases hname
  cases hshown
  rfl

end Host.Wire

end WasmHost
