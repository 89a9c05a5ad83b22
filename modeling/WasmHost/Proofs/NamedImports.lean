import WasmHost.Host.TypeLists
import WasmHost.Proofs.Books
import WasmHost.Proofs.Failures

/-!
# Imports by name

A module that was loaded has a list of imports from which nothing is missing: each import is in the
list, at its position and under its names. So a linker that has a definition for each import finds as
many items as an instance must be given, in the order in which it must be given them, and what it does
with them is what anyone does who looks the definitions up and gives them one by one.

An instance is given its imports as a list, by position, and the engine knows no names. A linker
turns names into positions, and it does so from the list of imports that the host has read from the
module when it was loaded. This is where an error could hide. If an entry of that list were skipped
because it could not be read, all later imports would move up by one position, and the engine would
link the wrong items, as long as their types agree. So the first half of the module is about the
list, and says of each entry that it is read, at its own position.

Once the list is known to be complete, the rest follows from the text of the operation, as it asks
the linker for one name after the other. "What anyone does who looks the definitions up" is an
action too, `Linker.collect`, so that the two can be compared.
-/

namespace WasmHost.Host

open Act

variable {κ σ : Type}

/-! ## Lists of imports

Lists are read by `filterMap`, which leaves out what gives nothing. The lemmas show that there is
nothing to be left out, from what was written. -/

namespace Wire

/-- What is written is read as the type that is shown. -/
theorem read_write {t : EngineType} {r : RawItem} (h : t.write = some r) :
    ∃ type, t = .item type ∧ r.read = some (shown type) := by
  cases t with
  | other => cases h
  | item type =>
    refine ⟨type, rfl, ?_⟩
    cases type <;> cases h <;> rfl

/-- No entry is passed over when a list is read entry by entry. -/
theorem filterMap_entries {α : Type} (xs : List α) :
    (List.range xs.length).filterMap (xs[·]?) = xs := by
  have hall : (List.range xs.length).map (xs[·]?) = xs.map some := by
    apply List.ext_getElem?
    intro i
    by_cases hi : i < xs.length <;> simp [hi]
  calc (List.range xs.length).filterMap (xs[·]?)
      = ((List.range xs.length).map (xs[·]?)).filterMap id := by rw [List.filterMap_map]; rfl
    _ = (xs.map some).filterMap id := by rw [hall]
    _ = xs := by simp [List.filterMap_map]

/-- A list that was written entry by entry can be read, if its entries can. -/
theorem forall₂_of_mapM {α β γ : Type} {write : α → Option β} {read : β → Option γ}
    {P : α → γ → Prop} (hread : ∀ a b, write a = some b → ∃ c, read b = some c ∧ P a c) {as : List α}
    {bs : List β} (h : as.mapM write = some bs) : List.Forall₂ P as (bs.filterMap read) := by
  induction as generalizing bs with
  | nil =>
    obtain rfl : [] = bs := by simpa using h
    exact .nil
  | cons a as ih =>
    obtain ⟨b, hb, rest, hrest, rfl⟩ :
        ∃ b, write a = some b ∧ ∃ rest, as.mapM write = some rest ∧ b :: rest = bs := by
      simpa [List.mapM_cons, Option.bind_eq_some_iff] using h
    obtain ⟨c, hc, hP⟩ := hread a b hb
    rw [List.filterMap_cons_some hc]
    exact .cons hP (ih hrest)

/-- A list is written if its entries can be. -/
theorem exists_mapM {α β : Type} {write : α → Option β} {as : List α}
    (h : ∀ a ∈ as, (write a).isSome) : ∃ bs, as.mapM write = some bs := by
  induction as with
  | nil => exact ⟨[], rfl⟩
  | cons a as ih =>
    rw [List.forall_mem_cons] at h
    obtain ⟨b, hb⟩ := Option.isSome_iff_exists.mp h.1
    obtain ⟨bs, hbs⟩ := ih h.2
    exact ⟨b :: bs, by simp [List.mapM_cons, hb, hbs]⟩

/-- What is written entry by entry has as many entries. -/
theorem length_of_mapM {α β : Type} {write : α → Option β} {as : List α} {bs : List β}
    (h : as.mapM write = some bs) : bs.length = as.length := by
  induction as generalizing bs with
  | nil =>
    obtain rfl : [] = bs := by simpa using h
    rfl
  | cons a as ih =>
    obtain ⟨b, -, rest, hrest, rfl⟩ :
        ∃ b, write a = some b ∧ ∃ rest, as.mapM write = some rest ∧ b :: rest = bs := by
      simpa [List.mapM_cons, Option.bind_eq_some_iff] using h
    rw [List.length_cons, ih hrest, List.length_cons]

/-- The type of an item can be written. -/
theorem EngineType.isSome_write (type : ItemType) : (EngineType.write (.item type)).isSome := by
  cases type <;> rfl

/-- An import is shown as the engine knows it. -/
structure EngineImport.ShownAs (i : EngineImport) (shown : ImportType) : Prop where
  module : shown.module = i.module
  name : shown.name = i.name
  type : ∃ type, i.type = .item type ∧ shown.type = Wire.shown type

theorem EngineImport.shown_of_write {i : EngineImport} {r : RawImport} (h : i.write = some r) :
    ∃ shown, r.read = some shown ∧ i.ShownAs shown := by
  obtain ⟨raw, hraw, rfl⟩ := Option.map_eq_some_iff.mp h
  obtain ⟨type, htype, hread⟩ := read_write hraw
  exact ⟨⟨i.module, i.name, shown type⟩, by simp only [RawImport.read, hread]; rfl, rfl, rfl, type,
    htype, rfl⟩

/-- From the list that a module was loaded with, the host reads every import, in order. -/
theorem readImports_of_write {imports : List EngineImport} {raws : List RawImport}
    (h : writeImports imports = some raws) :
    List.Forall₂ EngineImport.ShownAs imports (readImports raws) := by
  rw [readImports, filterMap_entries]
  exact forall₂_of_mapM (fun _ _ => EngineImport.shown_of_write) h

theorem writeImports_items (imports : List ImportType) :
    ∃ raws, writeImports (imports.map fun i => ⟨i.module, i.name, .item i.type⟩) = some raws := by
  have hwrites : ∀ i ∈ imports.map fun i => (⟨i.module, i.name, .item i.type⟩ : EngineImport),
      i.write.isSome := by
    simp [EngineImport.write, EngineType.isSome_write]
  exact exists_mapM hwrites

end Wire

/-! ## Definitions of imports

`resolve` stops at the first name that is missing. -/

namespace Definitions

variable {defs : Definitions}

theorem resolve_congr {imports imports' : List ImportType}
    (h : List.Forall₂ (fun i j => j.module = i.module ∧ j.name = i.name) imports imports') :
    resolve defs imports' = resolve defs imports := by
  induction h with
  | nil => rfl
  | cons hij _ ih => simp only [resolve, hij.1, hij.2, ih]

theorem resolve_of_defined (imports : List ImportType)
    (h : ∀ i ∈ imports, (get? defs i.module i.name).isSome) :
    ∃ items, resolve defs imports = .ok items ∧
      List.Forall₂ (fun i item => get? defs i.module i.name = some item) imports items := by
  induction imports with
  | nil => exact ⟨[], rfl, .nil⟩
  | cons i imports ih =>
    obtain ⟨item, hitem⟩ := Option.isSome_iff_exists.mp (h i List.mem_cons_self)
    obtain ⟨items, hitems, hall⟩ := ih fun j hj => h j (List.mem_cons_of_mem _ hj)
    refine ⟨item :: items, ?_, .cons hitem hall⟩
    simp only [resolve, hitem, hitems]
    rfl

theorem getElem?_of_defined {imports : List ImportType} {items : List Item}
    (h : List.Forall₂ (fun i item => get? defs i.module i.name = some item) imports items) (n : Nat) :
    items[n]? = (imports[n]?).bind fun i => get? defs i.module i.name := by
  induction h generalizing n with
  | nil => rfl
  | cons hi _ ih =>
    cases n with
    | zero => exact hi.symm
    | succ n => exact ih n

theorem resolve_of_missing {before rest : List ImportType} {i : ImportType}
    (hbefore : ∀ j ∈ before, (get? defs j.module j.name).isSome)
    (hi : get? defs i.module i.name = none) :
    resolve defs (before ++ i :: rest) = .error (.unknownImport i.module i.name) := by
  induction before with
  | nil => simp only [List.nil_append, resolve, hi]
  | cons j before ih =>
    obtain ⟨item, hitem⟩ := Option.isSome_iff_exists.mp (hbefore j List.mem_cons_self)
    simp only [List.cons_append, resolve, hitem, ih fun j hj => hbefore j (List.mem_cons_of_mem _ hj)]
    rfl

end Definitions

/-! ## Instances by names

Looking definitions up retains them, and retaining touches neither linkers nor modules, so it does
not matter how many have been retained before. -/

namespace World

@[simp] theorem modules_retainItems (w : World κ σ) (items : List Item) :
    (w.retainItems items).modules = w.modules := by
  induction items generalizing w with
  | nil => rfl
  | cons item items ih => exact ih (w.retainHandle item.handle)

@[simp] theorem linkers_retainItems (w : World κ σ) (items : List Item) :
    (w.retainItems items).linkers = w.linkers := by
  induction items generalizing w with
  | nil => rfl
  | cons item items ih => exact ih (w.retainHandle item.handle)

@[simp] theorem modules_drain (w : World κ σ) (s : Nat) : (w.drain s).modules = w.modules := by
  have hnext : ∀ w : World κ σ, (w.reclaimNext s).modules = w.modules := by
    intro w
    unfold reclaimNext
    split
    · rfl
    · unfold reclaim
      split <;> rfl
  have hbegin : (w.beginDrain s).2.modules = w.modules := by
    rw [beginDrain_eq]
    rfl
  exact drain_induction (P := fun w' => w'.modules = w.modules) s hbegin
    fun w' h => (hnext w').trans h

end World

namespace Linker

variable {w : World κ σ} {l : Nat} {c : LinkerCell}

/-- Looks up the definitions of imports, one after the other. -/
def collect (l : Nat) : List ImportType → Act κ σ (List Item)
  | [] => pure []
  | i :: rest => do
    let item ← get? l i.module i.name
    let items ← collect l rest
    return item.toList ++ items

theorem run_collect (hc : w.linkers[l]? = some c) {imports : List ImportType} {items : List Item}
    (h : List.Forall₂ (fun i item => Definitions.get? c.definitions i.module i.name = some item)
      imports items) : (collect l imports).run w = (.value items, w.retainItems items) := by
  induction h generalizing w with
  | nil => rfl
  | @cons i item imports items hi _ ih =>
    have hget := run_get?_eq hc i.module i.name
    rw [hi] at hget
    -- What one lookup retains is no matter for the next: the definitions are the same.
    have hrest := ih (w := w.retainItems [item]) (by simpa using hc)
    exact (run_bind_value hget).trans ((run_bind_value hrest).trans rfl)

variable {m : ModuleCell} {module : Nat}

theorem run_instantiate_error (hc : w.linkers[l]? = some c) (hm : w.modules[module]? = some m)
    {e : Error} (h : Definitions.resolve c.definitions m.compiled.imports = .error e)
    (host : Runner κ σ) (s : Nat) : (instantiate host s l module).run w = (.failure e, w) := by
  refine (run_bind_value (m := Act.world) rfl).trans ?_
  rw [hm]
  refine (run_bind_value (m := Act.orAbort .stuck (some m)) rfl).trans ?_
  exact run_bind_failed (run_take_error hc h)

theorem run_instantiate_ok (hc : w.linkers[l]? = some c) (hm : w.modules[module]? = some m)
    {items : List Item} (h : Definitions.resolve c.definitions m.compiled.imports = .ok items)
    (host : Runner κ σ) (s : Nat) : (instantiate host s l module).run w =
      (ensuring (releaseItems items) (Instance.create host s module items)).run
        (w.retainItems items) := by
  refine (run_bind_value (m := Act.world) rfl).trans ?_
  rw [hm]
  refine (run_bind_value (m := Act.orAbort .stuck (some m)) rfl).trans ?_
  exact run_bind_value (run_take_ok hc h)

end Linker

/-- A list of items as long as the module's imports is never refused for its length. -/
theorem Instance.create_counted {host : Runner κ σ} (hhost : Unfailing host) {w : World κ σ}
    {s module : Nat} {m : ModuleCell} {items : List Item} (hm : w.modules[module]? = some m)
    (hcount : items.length = m.compiled.code.imports.size) (expected actual : Nat) :
    ((Instance.create host s module items).run w).1 ≠ .failure (.importCount expected actual) := by
  intro hfailure
  rcases rejects_or_fails hhost (Prod.ext hfailure rfl) with hrejects | ⟨failure, -, hfailure⟩
  -- No check before the start of guest code says that the number is wrong, and nothing after it can.
  · generalize herror : Error.importCount expected actual = e at hrejects
    cases hrejects with
    | engine => cases herror
    | count hmodule _ _ hne =>
      rw [World.modules_drain, hm] at hmodule
      obtain rfl := Option.some.inj hmodule
      exact hne hcount
  · by_cases htraps : failure.Traps
    · rw [Guest.Failure.toError_of_traps htraps] at hfailure
      cases hfailure
    · obtain ⟨fault, -, hfault⟩ := Guest.Failure.toError_of_not_traps htraps
      rw [hfault] at hfailure
      cases hfailure

/-! ## By names and by positions

Nothing is assumed of the world here. Where a linker or a module is not there, the fields say
nothing. -/

/-- Making an instance by names is making it with the list of its imports' definitions. -/
structure World.InstantiatesByName (w : World κ σ) (host : Runner κ σ) : Prop where
  /-- From the list that a module is loaded with, each import is read at its position, and nothing
  else. A module whose imports are all items is loaded, and a linker finds the same for what is read. -/
  listed : (∀ imports raws, Wire.writeImports imports = some raws → raws.length = imports.length ∧
      List.Forall₂ Wire.EngineImport.ShownAs imports (Wire.readImports raws)) ∧
    ∀ m : CompiledModule, ∃ raws, Wire.writeImports (Wire.engineImports m.code) = some raws ∧
      raws.length = m.code.imports.size ∧ (Wire.readImports raws).length = m.code.imports.size ∧
      ∀ defs, Definitions.resolve defs (Wire.readImports raws) = Definitions.resolve defs m.imports
  /-- The first import without a definition is the error, and nothing has happened. -/
  unknown : ∀ s l module c m before i rest, w.linkers[l]? = some c → w.modules[module]? = some m →
    m.compiled.imports = before ++ i :: rest →
    (∀ j ∈ before, (Definitions.get? c.definitions j.module j.name).isSome) →
    Definitions.get? c.definitions i.module i.name = none →
    (Linker.instantiate host s l module).run w = (.failure (.unknownImport i.module i.name), w)
  /-- Else there is a list of the imports' definitions, one for each, that can as well be looked up
  one by one. The instance is made with that list, which is let go of in the end. -/
  known : ∀ s l module c m, w.linkers[l]? = some c → w.modules[module]? = some m →
    (∀ i ∈ m.compiled.imports, (Definitions.get? c.definitions i.module i.name).isSome) →
    ∃ items : List Item, items.length = m.compiled.code.imports.size ∧
      (∀ n : Nat, items[n]? =
        (m.compiled.imports[n]?).bind fun i => Definitions.get? c.definitions i.module i.name) ∧
      (Linker.collect l m.compiled.imports).run w = (.value items, w.retainItems items) ∧
      (Linker.instantiate host s l module).run w =
        (ensuring (releaseItems items) (Instance.create host s module items)).run
          (w.retainItems items) ∧
      ((Linker.instantiate host s l module).run w).1 =
        ((Instance.create host s module items).run (w.retainItems items)).1 ∧
      ((Instance.create host s module items).run (w.retainItems items)).2.Settles
        ((Linker.instantiate host s l module).run w).2
  /-- The number of imports is never wrong. -/
  counted : ∀ s l module c m expected actual, w.linkers[l]? = some c →
    w.modules[module]? = some m →
    ((Linker.instantiate host s l module).run w).1 ≠ .failure (.importCount expected actual)

theorem CompiledModule.length_imports (m : CompiledModule) :
    m.imports.length = m.code.imports.size := by
  simp [CompiledModule.imports, Wasm.Module.importTypes]

/-- What is found for the imports of a module, or for those of them that the host reads. -/
theorem Wire.resolve_readImports {m : CompiledModule} {raws : List RawImport}
    (h : writeImports (engineImports m.code) = some raws) (defs : Definitions) :
    Definitions.resolve defs (readImports raws) = Definitions.resolve defs m.imports := by
  have hshown := readImports_of_write h
  rw [engineImports, List.forall₂_map_left_iff] at hshown
  exact Definitions.resolve_congr (hshown.imp fun _ _ h => ⟨h.module, h.name⟩)

/-- An import has a definition, or there is a first one that has none. -/
theorem Definitions.defined_cases (defs : Definitions) (imports : List ImportType) :
    (∀ i ∈ imports, (get? defs i.module i.name).isSome) ∨
    ∃ before i rest, imports = before ++ i :: rest ∧
      (∀ j ∈ before, (get? defs j.module j.name).isSome) ∧ get? defs i.module i.name = none := by
  induction imports with
  | nil => exact .inl (by simp)
  | cons i imports ih =>
    cases hi : get? defs i.module i.name with
    | none => exact .inr ⟨[], i, imports, rfl, by simp, hi⟩
    | some item =>
      -- The first import has a definition, so the first without one is among the rest, if there is one.
      rcases ih with hall | ⟨before, j, rest, rfl, hbefore, hj⟩
      · exact .inl (List.forall_mem_cons.mpr ⟨by rw [hi]; rfl, hall⟩)
      · exact .inr ⟨i :: before, j, rest, rfl, List.forall_mem_cons.mpr ⟨by rw [hi]; rfl, hbefore⟩, hj⟩

theorem World.instantiatesByName (w : World κ σ) {host : Runner κ σ} (hhost : Unfailing host) :
    w.InstantiatesByName host where
  listed := by
    refine ⟨fun imports raws h => ?_, fun m => ?_⟩
    · exact ⟨Wire.length_of_mapM h, Wire.readImports_of_write h⟩
    · obtain ⟨raws, hraws⟩ := Wire.writeImports_items m.imports
      have hwritten : Wire.writeImports (Wire.engineImports m.code) = some raws := hraws
      have hsize : (Wire.engineImports m.code).length = m.code.imports.size := by
        rw [Wire.engineImports, List.length_map, ← CompiledModule.length_imports]
        rfl
      exact ⟨raws, hwritten, (Wire.length_of_mapM hwritten).trans hsize,
        (Wire.readImports_of_write hwritten).length_eq.symm.trans hsize,
        Wire.resolve_readImports hwritten⟩
  unknown s l module c m before i rest hc hm himports hbefore hi := by
    refine Linker.run_instantiate_error hc hm ?_ host s
    rw [himports]
    exact Definitions.resolve_of_missing hbefore hi
  known s l module c m hc hm hall := by
    obtain ⟨items, hresolve, hitems⟩ := Definitions.resolve_of_defined _ hall
    have hrun := Linker.run_instantiate_ok hc hm hresolve host s
    obtain ⟨w', houter, hsettles, -⟩ := run_ensuring_settling (releaseItems_settling items)
      (Instance.create host s module items) (w.retainItems items)
    refine ⟨items, ?_, Definitions.getElem?_of_defined hitems, Linker.run_collect hc hitems, hrun,
      ?_, ?_⟩
    · rw [← hitems.length_eq, CompiledModule.length_imports]
    · rw [hrun, houter]
    · rw [hrun, houter]
      exact hsettles
  counted s l module c m expected actual hc hm := by
    -- Either all imports are defined, so that the list is as long as it must be, or one is missing
    -- and no list is made.
    rcases Definitions.defined_cases c.definitions m.compiled.imports with hall |
      ⟨before, i, rest, himports, hbefore, hi⟩
    · obtain ⟨items, hresolve, hitems⟩ := Definitions.resolve_of_defined _ hall
      obtain ⟨w', houter, -, -⟩ := run_ensuring_settling (releaseItems_settling items)
        (Instance.create host s module items) (w.retainItems items)
      rw [Linker.run_instantiate_ok hc hm hresolve host s, houter]
      refine Instance.create_counted hhost (m := m) ?_ ?_ expected actual
      · rw [World.modules_retainItems, hm]
      · rw [← hitems.length_eq, CompiledModule.length_imports]
    · have hresolve : Definitions.resolve c.definitions m.compiled.imports =
          .error (.unknownImport i.module i.name) := by
        rw [himports]
        exact Definitions.resolve_of_missing hbefore hi
      rw [Linker.run_instantiate_error hc hm hresolve host s]
      exact fun h => by cases h

/-- Whatever embedder there is, and in whatever state its world is: a linker finds the imports of a
module as if they had been given in order. -/
theorem Embedder.instances_by_name {κ : Type} (embedder : Embedder κ) (depth : Nat)
    (w : World (Code κ) Pool) : w.InstantiatesByName (embedder.hostTo depth) :=
  w.instantiatesByName (embedder.unfailing_hostTo depth)

end WasmHost.Host
