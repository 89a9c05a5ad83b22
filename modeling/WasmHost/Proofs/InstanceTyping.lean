import WasmHost.Proofs.ThreadTyping

/-!
# Typed instances

The places of imports that passed the check lead to items of the types that are asked for. What a
module defines is added behind what the store had, of the declared types as well, so an instance of a
valid module is typed, and so is the store that it was made in. Writing segments keeps it so.

An instance is made in steps during which nothing is typed: its functions are added before its
globals, and the globals are computed in an instance that has no globals of its own yet. To go
through this step by step would mean to find an invariant for each intermediate stage, and none of
them is of interest. So the result is computed instead. The lemmas `addFuncs_eq` and its like say
which arrays come out, `Instance.complete` and `Store.complete` are what they come to together, and
typing is proved of these, once. Only the globals cannot be given by a formula, since evaluating
their initialisers may fail; of these it is known what was evaluated to what.

The imports come first in every index space. That they fit is known from the check in front of the
allocation, which compares the *declared* type of an item with the import. What a store knows of its
items is enough for it, whatever has happened to them since they were made.

Afterwards segments are written, which is like executing instructions, and may end in a trap. Then
there is no instance for the host, but the store has one, with all it has defined; so the store must
be typed in this case as well.
-/

namespace WasmHost.Wasm

/-! ## Valid modules -/

/-- What the check of a module says of what it imports and defines. -/
structure Module.Valid (features : Features) (m : Module) : Prop where
  imports : ∀ i ∈ m.imports, (m.context features).importTyped i = true
  funcs : ∀ t ∈ m.funcs, t < m.types.size
  tables : ∀ t ∈ m.tables, t.element.isReference = true
  globals : ∀ (k : Nat) g, m.globals[k]? = some g →
    (m.context features).constTyped (m.importedGlobals.size + k) g.init g.type.content = true
  bodies : ∀ (k : Nat) t, m.funcs[k]? = some t →
    ∃ b, m.bodies[k]? = some b ∧ (m.context features).functionTyped t b = true

theorem Module.valid_of_isValid {features : Features} {m : Module} (h : m.isValid features = true) :
    m.Valid features := by
  simp only [isValid, Bool.and_eq_true] at h
  obtain ⟨⟨⟨⟨⟨⟨⟨⟨⟨⟨⟨⟨⟨-, himports⟩, hfuncs⟩, htables⟩, -⟩, -⟩, -⟩, hglobals⟩, -⟩, -⟩, -⟩, -⟩, -⟩, hbodies⟩ := h
  refine ⟨Array.all_eq_true'.mp himports, ?_, ?_, ?_, ?_⟩
  · intro t ht
    simpa using Array.all_eq_true'.mp hfuncs t ht
  · intro t ht
    have hallowed := Array.all_eq_true'.mp htables t ht
    simp only [Features.allowsTable, Bool.and_eq_true] at hallowed
    exact hallowed.1.1.1
  · intro k g hg
    have hk := (Array.getElem?_eq_some_iff.mp hg).1
    have hglobal := List.all_eq_true.mp hglobals k (List.mem_range.mpr hk)
    simp only [hg, Option.any_some, Bool.and_eq_true] at hglobal
    exact hglobal.2
  · intro k t ht
    have hk := (Array.getElem?_eq_some_iff.mp ht).1
    have hbody := List.all_eq_true.mp hbodies k (List.mem_range.mpr hk)
    rw [ht] at hbody
    exact (Option.any_eq_true ..).mp hbody

end WasmHost.Wasm

namespace WasmHost.Guest

open Wasm

/-! ## Places

The functions, tables, memories and globals are added in the same way, so what can be said of all of
them is said of arrays of anything, with places and types in order. -/

/-- Places of an array lead to things of certain types, in order. -/
def Placed {α τ : Type} (Q : α → τ → Prop) (xs : Array α) (places : List Nat) (ts : List τ) : Prop :=
  List.Forall₂ (fun place t => ∃ x, xs[place]? = some x ∧ Q x t) places ts

/-- The places of things that are added to an array of a size. -/
def newPlaces (size count : Nat) : List Nat := List.range' size count

@[simp] theorem newPlaces_zero (size : Nat) : newPlaces size 0 = [] := rfl

@[simp] theorem newPlaces_succ (size count : Nat) :
    newPlaces size (count + 1) = size :: newPlaces (size + 1) count := rfl

namespace Placed

variable {α τ υ : Type} {Q : α → τ → Prop} {xs : Array α} {places places' : List Nat} {ts ts' : List τ}

theorem indexed {places : Array Nat} {ts : Array τ} (h : Placed Q xs places.toList ts.toList) :
    Indexed (ts[·]?) places fun place t => ∃ x, xs[place]? = some x ∧ Q x t := by
  simpa using Indexed.of_forall₂ h

theorem lt (h : Placed Q xs places ts) : ∀ place ∈ places, place < xs.size := by
  induction h with
  | nil => simp
  | cons h _ ih =>
    obtain ⟨x, hx, -⟩ := h
    exact List.forall_mem_cons.mpr ⟨(Array.getElem?_eq_some_iff.mp hx).1, ih⟩

theorem grow (h : Placed Q xs places ts) (ys : Array α) : Placed Q (xs ++ ys) places ts :=
  h.imp fun _ _ ⟨x, hx, hQ⟩ => ⟨x, by
    rw [Array.getElem?_append_left (Array.getElem?_eq_some_iff.mp hx).1, hx], hQ⟩

theorem append (h : Placed Q xs places ts) (h' : Placed Q xs places' ts') :
    Placed Q xs (places ++ places') (ts ++ ts') := List.rel_append h h'

/-- What is added is at the places behind the others. -/
theorem added (xs : Array α) {ys : List α} (h : List.Forall₂ Q ys ts) :
    Placed Q (xs ++ ys.toArray) (newPlaces xs.size ys.length) ts := by
  induction h generalizing xs with
  | nil => exact .nil
  | @cons y t ys ts hy _ ih =>
    have hsplit : xs ++ (y :: ys).toArray = xs.push y ++ ys.toArray := by simp
    have hrest := ih (xs.push y)
    rw [← hsplit, Array.size_push] at hrest
    exact .cons ⟨y, by simp, hy⟩ hrest

end Placed

/-! ## Imports -/

/-- The item at a place is of the type that an import asks for. -/
inductive ImportFits (s : Store) (m : Module) : Place → Import → Prop
  | func {i : Import} {n t : Nat} {f : Func} (hi : i.desc = .func t) (hf : s.funcs[n]? = some f)
      (ht : m.types[t]? = some f.type) : ImportFits s m (.func n) i
  | table {i : Import} {n : Nat} {t : TableType} {x : Table} (hi : i.desc = .table t)
      (hx : s.tables[n]? = some x) (ht : x.type.element = t.element) : ImportFits s m (.table n) i
  | memory {i : Import} {n : Nat} {t : MemoryType} {x : Memory} (hi : i.desc = .memory t)
      (hx : s.memories[n]? = some x) (ht : x.Suits t) : ImportFits s m (.memory n) i
  | global {i : Import} {n : Nat} {t : GlobalType} {x : Global} (hi : i.desc = .global t)
      (hx : s.globals[n]? = some x) (ht : x.type = t) : ImportFits s m (.global n) i

section Imports

variable {s : Store} {m : Module} {features : Features}

theorem eq_of_mismatch?_global {e f : GlobalType} (h : mismatch? (.global e) (.global f) = none) :
    f = e := by
  obtain ⟨content, writable⟩ := e
  obtain ⟨content', writable'⟩ := f
  by_cases hc : content = content' <;> by_cases hw : writable = writable' <;>
    simp_all [mismatch?]

theorem eq_of_mismatch?_memory {e f : MemoryType} (h : mismatch? (.memory e) (.memory f) = none) :
    f.wide = e.wide ∧ f.shared = e.shared := by
  by_cases hs : e.shared = f.shared <;> by_cases hw : e.wide = f.wide <;> simp_all [mismatch?]

theorem element_of_mismatch?_table {e f : TableType} (h : mismatch? (.table e) (.table f) = none) :
    f.element = e.element := by
  by_cases he : e.element = f.element <;> simp_all [mismatch?]

/-- An item that is there and does not mismatch is of the type that is asked for. -/
theorem importFits_of_matching {i : Import} {place : Place}
    (htyped : (m.context features).importTyped i = true) (hplace : (s.declaredType? place).isSome)
    (h : (s.currentType? place).bind (mismatch? (m.importType i).type) = none) :
    ImportFits s m place i := by
  obtain ⟨module, name, desc⟩ := i
  cases place with
  | func n =>
    obtain ⟨f, hf⟩ : ∃ f, s.funcs[n]? = some f := by
      simpa [Store.declaredType?, Option.isSome_iff_exists] using hplace
    cases desc with
    | func t =>
      have ht : t < m.types.size := by simpa [Context.importTyped, Module.context] using htyped
      have htype : m.types[t] = f.type := by
        simpa [Store.currentType?, Store.declaredType?, hf, mismatch?, Module.importType, ht] using h
      exact .func rfl hf (by simp [ht, htype])
    | _ => simp [Store.currentType?, Store.declaredType?, hf, mismatch?, Module.importType] at h
  | global n =>
    obtain ⟨x, hx⟩ : ∃ x, s.globals[n]? = some x := by
      simpa [Store.declaredType?, Option.isSome_iff_exists] using hplace
    simp only [Store.currentType?, Store.declaredType?, hx, Option.map_some, Option.bind_some] at h
    cases desc with
    | global t => exact .global rfl hx (eq_of_mismatch?_global h)
    | _ => simp [mismatch?, Module.importType] at h
  | memory n =>
    obtain ⟨x, hx⟩ : ∃ x, s.memories[n]? = some x := by
      simpa [Store.declaredType?, Option.isSome_iff_exists] using hplace
    simp only [Store.currentType?, hx, Option.map_some, Option.bind_some] at h
    cases desc with
    | memory t =>
      obtain ⟨hwide, hshared⟩ := eq_of_mismatch?_memory h
      exact .memory rfl hx ⟨hwide, hshared⟩
    | _ => simp [mismatch?, Module.importType] at h
  | table n =>
    obtain ⟨x, hx⟩ : ∃ x, s.tables[n]? = some x := by
      simpa [Store.declaredType?, Option.isSome_iff_exists] using hplace
    simp only [Store.currentType?, hx, Option.map_some, Option.bind_some] at h
    cases desc with
    | table t =>
      have ht : x.currentType.element = t.element := element_of_mismatch?_table h
      exact .table rfl hx ht
    | _ => simp [mismatch?, Module.importType] at h

/-- Places that pass the check of a module's imports fit them. -/
theorem importsFit_of_check {imports : List Import} {places : List Place}
    (htyped : ∀ i ∈ imports, (m.context features).importTyped i = true)
    (hplaces : ∀ place ∈ places, (s.declaredType? place).isSome)
    (hlength : places.length = imports.length)
    (h : checkImports s ((imports.map m.importType).zip places) = none) :
    List.Forall₂ (ImportFits s m) places imports := by
  induction imports generalizing places with
  | nil =>
    obtain rfl := List.length_eq_zero_iff.mp hlength
    exact .nil
  | cons i imports ih =>
    cases places with
    | nil => cases hlength
    | cons place places =>
      rw [List.forall_mem_cons] at htyped hplaces
      simp only [List.map_cons, List.zip_cons_cons, checkImports] at h
      split at h
      · cases h
      · exact .cons (importFits_of_matching htyped.1 hplaces.1 ‹_›)
          (ih htyped.2 hplaces.2 (Nat.succ.inj hlength) h)

/-- The places of the imports of one sort. -/
theorem placed_imports {α τ : Type} {Q : α → τ → Prop} {xs : Array α} {imports : List Import}
    {places : List Place} {type? : Import → Option τ} {place? : Place → Option Nat}
    (h : List.Forall₂ (ImportFits s m) places imports)
    (hsort : ∀ place i, ImportFits s m place i →
      Option.Rel (fun place t => ∃ x, xs[place]? = some x ∧ Q x t) (place? place) (type? i)) :
    Placed Q xs (places.filterMap place?) (imports.filterMap type?) :=
  List.rel_filterMap (fun place i h => hsort place i h) h

end Imports

/-! ## What a module defines

Each of the loops that adds items comes to appending a list. -/

/-- The functions that a module defines, for an instance. -/
def definedFuncs (number : Nat) (m : Module) (start : Nat) (bodies : List (Nat × Body)) : List Func :=
  (bodies.zipIdx start).map fun p => .guest number p.2 ((m.types[p.1.1]?).getD default) p.1.2

/-- The tables that a module defines. -/
def definedTables (types : List TableType) : List Table :=
  types.map fun t => .ofType t (.null t.element)

section Adding

variable {s : Store} {i : Instance}

theorem addFuncs_eq (number : Nat) (bodies : List (Nat × Body)) (s : Store) (i : Instance) :
    addFuncs number bodies s i =
      ({ s with funcs := s.funcs ++ (definedFuncs number i.module i.funcs.size bodies).toArray },
        { i with funcs := i.funcs ++ (newPlaces s.funcs.size bodies.length).toArray }) := by
  induction bodies generalizing s i with
  | nil => simp [addFuncs, definedFuncs]
  | cons body bodies ih =>
    obtain ⟨type, body⟩ := body
    simp [addFuncs, Store.addFunc, ih, definedFuncs]

theorem addTables_eq (types : List TableType) (s : Store) (i : Instance) :
    addTables types s i = ({ s with tables := s.tables ++ (definedTables types).toArray },
      { i with tables := i.tables ++ (newPlaces s.tables.size types.length).toArray }) := by
  induction types generalizing s i with
  | nil => simp [addTables, definedTables]
  | cons type types ih => simp [addTables, Store.addTable, ih, definedTables]

theorem addMemories_eq (types : List MemoryType) (s : Store) (i : Instance) :
    addMemories types s i =
      ({ s with memories := s.memories ++ (types.map Memory.ofType).toArray },
        { i with memories := i.memories ++ (newPlaces s.memories.size types.length).toArray }) := by
  induction types generalizing s i with
  | nil => simp [addMemories]
  | cons type types ih => simp [addMemories, Store.addMemory, ih]

/-- A global of a type, with a value of its kind. -/
def Global.Fits (n : Nat) (g : Global) (type : GlobalType) : Prop :=
  g.type = type ∧ g.value.Fits n type.content

theorem Global.Fits.of_mem {n : Nat} {gs : List Global} {types : List GlobalType}
    (h : List.Forall₂ (Global.Fits n) gs types) {g : Global} (hg : g ∈ gs) :
    g.value.Fits n g.type.content := by
  induction h with
  | nil => cases hg
  | cons hfits _ ih =>
    rcases List.mem_cons.mp hg with rfl | hg
    · exact hfits.1 ▸ hfits.2
    · exact ih hg

/-- Globals are added with values of their kinds: those that their initialisers give. -/
theorem exists_addGlobals {c : Context} (visible : Nat) (defs : List GlobalDef) (hi : i.Imported s c)
    (hsize : c.importedGlobals ≤ i.globals.size) (hglobals : ∀ place ∈ i.globals, place < s.globals.size)
    (hdefs : ∀ k g, defs[k]? = some g → c.constTyped (visible + k) g.init g.type.content = true) :
    ∃ gs : List Global, List.Forall₂ (Global.Fits s.funcs.size) gs (defs.map (·.type)) ∧
      addGlobals defs s i = ({ s with globals := s.globals ++ gs.toArray },
        { i with globals := i.globals ++ (newPlaces s.globals.size defs.length).toArray }) := by
  induction defs generalizing s i visible with
  | nil => exact ⟨[], .nil, by simp [addGlobals]⟩
  | cons g defs ih =>
    let value := (evalConst s i g.init []).getD (.zero g.type.content)
    have hvalue : value.Fits s.funcs.size g.type.content := by
      cases hv : evalConst s i g.init [] with
      | none => simpa [value, hv] using Value.fits_zero g.type.content
      | some v => simpa [value, hv] using evalConst_fits hi (hdefs 0 g rfl) hv
    let s' : Store := { s with globals := s.globals.push ⟨g.type, value⟩ }
    let i' : Instance := { i with globals := i.globals.push s.globals.size }
    -- The imported globals are where they were.
    have hi' : i'.Imported s' c := by
      refine ⟨hi.within, fun n t hn ht place x hplace hx => ?_⟩
      have hplace' : i.globals[n]? = some place := by
        rwa [Array.getElem?_push_lt (by omega), ← Array.getElem?_eq_getElem] at hplace
      have hlt := hglobals place (Array.mem_of_getElem? hplace')
      refine hi.globals n t hn ht place x hplace' ?_
      rwa [Array.getElem?_push_lt hlt, ← Array.getElem?_eq_getElem] at hx
    have hglobals' : ∀ place ∈ i'.globals, place < s'.globals.size := by
      intro place hplace
      rcases Array.mem_push.mp hplace with hplace | rfl
      · simpa [s'] using Nat.lt_succ_of_lt (hglobals place hplace)
      · simp [s']
    obtain ⟨gs, hgs, heq⟩ := ih (visible + 1) hi'
      (by simp [i']; omega) hglobals' fun k g' hk => by
        rw [Nat.add_assoc, Nat.add_comm 1]
        exact hdefs (k + 1) g' hk
    refine ⟨⟨g.type, value⟩ :: gs, .cons ⟨rfl, hvalue⟩ hgs, ?_⟩
    show addGlobals defs s' i' = _
    rw [heq]
    simp [s', i']

end Adding

/-! ## Allocating

What the instance is when everything has been added, and that all of it has the types which the
module declares. -/

section Allocating

variable {s : Store} {m : Module} {places : List Place} {features : Features}

/-- A function that is imported or defined has the type that its index gives. -/
def FuncOf (m : Module) (f : Func) (t : Nat) : Prop := m.types[t]? = some f.type

theorem definedFuncs_typed (number start : Nat) {bodies : List (Nat × Body)}
    (h : ∀ p ∈ bodies, p.1 < m.types.size) :
    List.Forall₂ (FuncOf m) (definedFuncs number m start bodies) (bodies.map (·.1)) := by
  induction bodies generalizing start with
  | nil => exact .nil
  | cons p bodies ih =>
    rw [List.forall_mem_cons] at h
    exact .cons (by simp [FuncOf, Func.type, h.1]) (ih (start + 1) h.2)

section Spaces

variable (h : List.Forall₂ (ImportFits s m) places m.imports.toList)

include h

/-- The places of imported functions lead to functions of the types that are asked for. -/
theorem ofImports_funcs : ∃ ts, m.funcTypes = ts ++ m.funcs ∧
    Placed (FuncOf m) s.funcs (Instance.ofImports m places).funcs.toList ts.toList := by
  refine ⟨_, rfl, ?_⟩
  rw [Array.toList_filterMap]
  refine placed_imports h fun place i h => ?_
  cases h with
  | func hi hf ht =>
    rw [hi]
    exact .some ⟨_, hf, ht⟩
  | table hi | memory hi | global hi =>
    rw [hi]
    exact .none

theorem ofImports_tables : ∃ ts, m.tableTypes = ts ++ m.tables ∧
    Placed (fun x t => x.type.element = t.element) s.tables
      (Instance.ofImports m places).tables.toList ts.toList := by
  refine ⟨_, rfl, ?_⟩
  rw [Array.toList_filterMap]
  refine placed_imports h fun place i h => ?_
  cases h with
  | table hi hx ht =>
    rw [hi]
    exact .some ⟨_, hx, ht⟩
  | func hi | memory hi | global hi =>
    rw [hi]
    exact .none

theorem ofImports_memories : ∃ ts, m.memoryTypes = ts ++ m.memories ∧
    Placed Memory.Suits s.memories
      (Instance.ofImports m places).memories.toList ts.toList := by
  refine ⟨_, rfl, ?_⟩
  rw [Array.toList_filterMap]
  refine placed_imports h fun place i h => ?_
  cases h with
  | memory hi hx ht =>
    rw [hi]
    exact .some ⟨_, hx, ht⟩
  | func hi | table hi | global hi =>
    rw [hi]
    exact .none

theorem ofImports_globals : Placed (fun x t => x.type = t) s.globals
    (Instance.ofImports m places).globals.toList m.importedGlobals.toList := by
  rw [Module.importedGlobals, Array.toList_filterMap]
  refine placed_imports h fun place i h => ?_
  cases h with
  | global hi hx ht =>
    rw [hi]
    exact .some ⟨_, hx, ht⟩
  | func hi | table hi | memory hi =>
    rw [hi]
    exact .none

/-- An instance that only has its imports so far. -/
theorem ofImports_imported (hs : s.Typed) (features : Features) :
    (Instance.ofImports m places).Imported s (m.context features) where
  within place hplace := by
    obtain ⟨ts, -, hfuncs⟩ := ofImports_funcs h
    exact hfuncs.lt place (Array.mem_toList_iff.mpr hplace)
  globals n t hn ht place g hplace hg := by
    have hglobals := (ofImports_globals h).indexed
    have ht' : m.importedGlobals[n]? = some t := by
      have hlt : n < m.importedGlobals.size := hn
      have happend : (m.importedGlobals ++ m.globals.map (·.type))[n]? = some t := ht
      rwa [Array.getElem?_append_left hlt] at happend
    obtain ⟨place', hplace', g', hg', rfl⟩ := hglobals n t ht'
    obtain rfl := Option.some.inj (hplace.symm.trans hplace')
    obtain rfl := Option.some.inj (hg.symm.trans hg')
    exact hs.globals place g hg

end Spaces

/-- A function that a module defines has the body that was checked. -/
theorem typed_of_mem_definedFuncs (hm : m.Valid features) {number start : Nat} {i : Instance}
    (hi : s.instances[number]? = some i) (hmodule : i.module = m) {f : Func}
    (hf : f ∈ definedFuncs number m start (m.funcs.zip m.bodies).toList) : f.Typed s := by
  obtain ⟨p, hmem, rfl⟩ := List.mem_map.mp hf
  obtain ⟨n, hn⟩ := Array.mem_iff_getElem?.mp
    (Array.mem_toList_iff.mp (List.fst_mem_of_mem_zipIdx hmem))
  obtain ⟨ht, hbody⟩ := Array.getElem?_zip_eq_some.mp hn
  obtain ⟨b, hb, htyped⟩ := hm.bodies n _ ht
  obtain rfl := Option.some.inj (hbody.symm.trans hb)
  subst hmodule
  have hlt := hm.funcs _ (Array.mem_of_getElem? ht)
  exact ⟨i, features, p.1.1, hi, by simp [hlt], htyped⟩

/-- Tables that a module defines hold null. -/
theorem fits_of_mem_definedTables (hm : m.Valid features) (n : Nat) {x : Table}
    (hx : x ∈ definedTables m.tables.toList) :
    ∀ r ∈ x.elements, (Value.ref r).Fits n x.type.element := by
  obtain ⟨t, ht, rfl⟩ := List.mem_map.mp hx
  intro r hr
  obtain ⟨-, rfl⟩ := Array.mem_replicate.mp hr
  exact Value.fits_null (hm.tables t (Array.mem_toList_iff.mp ht))

/-- The bodies of a valid module are those of its functions. -/
theorem map_fst_zip_bodies (hm : m.Valid features) :
    (m.funcs.zip m.bodies).toList.map (·.1) = m.funcs.toList := by
  rw [Array.toList_zip]
  refine List.map_fst_zip ?_
  by_contra hlt
  simp only [Array.length_toList, Nat.not_le] at hlt
  obtain ⟨b, hb, -⟩ := hm.bodies m.bodies.size _ (Array.getElem?_eq_getElem hlt)
  simp at hb

/-- The functions that the module of an instance defines, with their types. -/
def Instance.bodies (i : Instance) : List (Nat × Body) := (i.module.funcs.zip i.module.bodies).toList

/-- A store with the functions, tables and memories that the module of a new instance defines. -/
def Store.withDefined (s : Store) (i : Instance) : Store :=
  { s with
    funcs := s.funcs ++ (definedFuncs s.instances.size i.module i.funcs.size i.bodies).toArray
    tables := s.tables ++ (definedTables i.module.tables.toList).toArray
    memories := s.memories ++ (i.module.memories.toList.map Memory.ofType).toArray }

/-- An instance with the places of those functions, tables and memories. -/
def Instance.withDefined (i : Instance) (s : Store) : Instance :=
  { i with
    funcs := i.funcs ++ (newPlaces s.funcs.size i.bodies.length).toArray
    tables := i.tables ++ (newPlaces s.tables.size i.module.tables.toList.length).toArray
    memories := i.memories ++ (newPlaces s.memories.size i.module.memories.toList.length).toArray }

section Defined

variable (i : Instance)

theorem withDefined_funcs (hvalid : i.module.Valid features) {ts : Array Nat} (hts : i.module.funcTypes = ts ++ i.module.funcs)
    (h : Placed (FuncOf i.module) s.funcs i.funcs.toList ts.toList) :
    Placed (FuncOf i.module) (s.withDefined i).funcs (i.withDefined s).funcs.toList
      i.module.funcTypes.toList := by
  have hbodies : ∀ p ∈ i.bodies, p.1 < i.module.types.size := by
    intro p hp
    have hmem : p.1 ∈ i.module.funcs.toList := by
      rw [← map_fst_zip_bodies hvalid]
      exact List.mem_map_of_mem hp
    exact hvalid.funcs _ (Array.mem_toList_iff.mp hmem)
  have hadded := Placed.added s.funcs
    (definedFuncs_typed s.instances.size i.funcs.size hbodies)
  rw [show i.bodies.map (·.1) = i.module.funcs.toList from map_fst_zip_bodies hvalid] at hadded
  have hlength : (definedFuncs s.instances.size i.module i.funcs.size i.bodies).length =
      i.bodies.length := by simp [definedFuncs]
  rw [hlength] at hadded
  simpa [hts, Store.withDefined, Instance.withDefined] using (h.grow _).append hadded

theorem withDefined_tables {ts : Array TableType} (hts : i.module.tableTypes = ts ++ i.module.tables)
    (h : Placed (fun x t => x.type.element = t.element) s.tables i.tables.toList ts.toList) :
    Placed (fun x t => x.type.element = t.element) (s.withDefined i).tables
      (i.withDefined s).tables.toList i.module.tableTypes.toList := by
  have hnew : List.Forall₂ (fun (x : Table) (t : TableType) => x.type.element = t.element)
      (definedTables i.module.tables.toList) i.module.tables.toList :=
    List.forall₂_map_left_iff.mpr (List.forall₂_same.mpr fun _ _ => rfl)
  have hadded := Placed.added s.tables hnew
  rw [show (definedTables i.module.tables.toList).length = i.module.tables.toList.length by
    simp [definedTables]] at hadded
  simpa [hts, Store.withDefined, Instance.withDefined] using (h.grow _).append hadded

theorem withDefined_memories {ts : Array MemoryType}
    (hts : i.module.memoryTypes = ts ++ i.module.memories)
    (h : Placed Memory.Suits s.memories i.memories.toList ts.toList) :
    Placed Memory.Suits (s.withDefined i).memories
      (i.withDefined s).memories.toList i.module.memoryTypes.toList := by
  have hnew : List.Forall₂ Memory.Suits (i.module.memories.toList.map Memory.ofType)
      i.module.memories.toList :=
    List.forall₂_map_left_iff.mpr (List.forall₂_same.mpr fun _ _ => ⟨rfl, rfl⟩)
  have hadded := Placed.added s.memories hnew
  rw [List.length_map] at hadded
  simpa [hts, Store.withDefined, Instance.withDefined] using (h.grow _).append hadded

end Defined

/-- An instance with the places of everything. -/
def Instance.complete (i : Instance) (s : Store) : Instance :=
  { i.withDefined s with
    globals := i.globals ++ (newPlaces s.globals.size i.module.globals.toList.length).toArray }

/-- A store with everything that the module of a new instance defines, and with the instance. -/
def Store.complete (s : Store) (i : Instance) (gs : List Global) : Store :=
  { s.withDefined i with
    globals := s.globals ++ gs.toArray
    instances := s.instances.push (i.complete s) }

/-- A new instance is complete, with globals that have values of their kinds. -/
theorem exists_allocate (hs : s.Typed) (hvalid : m.Valid features)
    (h : List.Forall₂ (ImportFits s m) places m.imports.toList) :
    ∃ gs, List.Forall₂ (Global.Fits (s.withDefined (.ofImports m places)).funcs.size) gs
        (m.globals.toList.map (·.type)) ∧
      allocate s m places = (s.instances.size, s.complete (.ofImports m places) gs) := by
  obtain ⟨ts, hts, hfuncs⟩ := ofImports_funcs h
  have hglobals := ofImports_globals h
  have himported := ofImports_imported h hs features
  let i := Instance.ofImports m places
  have hi : (i.withDefined s).Imported (s.withDefined i) (m.context features) := by
    refine ⟨fun place hplace => ?_, fun n t hn ht place g hplace hg => ?_⟩
    · exact (withDefined_funcs i hvalid hts hfuncs).lt place (Array.mem_toList_iff.mpr hplace)
    · exact (himported.globals n t hn ht place g hplace hg).mono (by simp [Store.withDefined])
  have hsize : m.importedGlobals.size ≤ i.globals.size := by
    have hlength := hglobals.length_eq
    simp only [Array.length_toList] at hlength
    exact Nat.le_of_eq hlength.symm
  obtain ⟨gs, hgs, hadd⟩ := exists_addGlobals m.importedGlobals.size
    m.globals.toList hi hsize
    (fun place hplace => hglobals.lt place (Array.mem_toList_iff.mpr hplace))
    fun k g hk => hvalid.globals k g (by simpa using hk)
  refine ⟨gs, hgs, ?_⟩
  unfold allocate
  simp only [addFuncs_eq, addTables_eq, addMemories_eq]
  exact congrArg (fun p : Store × Instance =>
    (s.instances.size, { p.1 with instances := p.1.instances.push p.2 })) hadd

/-- Everything that a valid module defines is added, of the declared types. The store that comes of
it evolves from the one before, and is typed together with the new instance: the functions refer to
the instance, and the instance to the functions, so neither could come first. -/
theorem allocate_leads (hs : s.Typed) (hm : m.isValid features = true)
    (h : List.Forall₂ (ImportFits s m) places m.imports.toList) :
    ∃ i, (allocate s m places).2.instances[(allocate s m places).1]? = some i ∧ i.module = m ∧
      s.Leads (allocate s m places).2 := by
  have hvalid := Module.valid_of_isValid hm
  obtain ⟨fts, hfts, hfuncs⟩ := ofImports_funcs h
  obtain ⟨tts, htts, htables⟩ := ofImports_tables h
  obtain ⟨mts, hmts, hmemories⟩ := ofImports_memories h
  obtain ⟨gs, hgs, heq⟩ := exists_allocate hs hvalid h
  let i := Instance.ofImports m places
  have hfound : (s.complete i gs).instances[s.instances.size]? = some (i.complete s) := by
    simp [Store.complete]
  have hpush : (s.complete i gs).instances = s.instances ++ [i.complete s].toArray := by
    simp [Store.complete]
  have hfs := withDefined_funcs i hvalid hfts hfuncs
  have hglobals : Placed (fun x t => x.type = t) (s.complete i gs).globals
      (i.complete s).globals.toList m.globalTypes.toList := by
    have hadded := Placed.added s.globals (hgs.imp fun _ _ h => h.1)
    have hlength : gs.length = m.globals.toList.length := by simpa using hgs.length_eq
    rw [hlength] at hadded
    simpa [Module.globalTypes, Store.complete, Instance.complete, i, Instance.ofImports]
      using ((ofImports_globals h).grow _).append hadded
  -- The index spaces lead to items of the declared types.
  have htyped : (i.complete s).Typed (s.complete i gs) := by
    refine ⟨⟨features, hm⟩, ?_, ?_, ?_, ?_, fun place hplace => ?_⟩
    · intro n t ht
      obtain ⟨k, hk, ht⟩ := Option.bind_eq_some_iff.mp ht
      obtain ⟨place, hplace, f, hf, htype⟩ := hfs.indexed n k hk
      exact ⟨place, hplace, f, hf, Option.some.inj (htype.symm.trans ht)⟩
    · exact hglobals.indexed
    · exact (withDefined_tables i htts htables).indexed
    · exact (withDefined_memories i hmts hmemories).indexed
    · exact hfs.lt place (Array.mem_toList_iff.mpr hplace)
  rw [heq]
  refine ⟨_, hfound, rfl, .of_append hs _ _ _ _ _ rfl rfl rfl rfl hpush ?_ ?_ ?_ ?_⟩
  · exact fun f hf => typed_of_mem_definedFuncs hvalid hfound rfl hf
  · exact fun x hx => fits_of_mem_definedTables hvalid _ hx
  · exact fun g hg => Global.Fits.of_mem hgs hg
  · exact fun i' hi' => List.mem_singleton.mp hi' ▸ htyped

end Allocating

/-! ## Writing segments -/

section Segments

variable {s s' : Store} {i : Instance} {features : Features}

/-- An element segment puts references of its kind into a table of that kind. -/
theorem writeElements_leads (hs : s.Typed) (hi : i.Typed s) {e : ElementSegment}
    (he : (i.module.context features).elementTyped e = true) (h : writeElements i s e = some s') :
    s.Leads s' := by
  unfold writeElements at h
  split at h
  · rename_i table offset hmode
    split at h
    · cases h
      exact .refl hs
    · rename_i place t hfound
      obtain ⟨place', hplace', hfound⟩ := Option.bind_eq_some_iff.mp hfound
      obtain ⟨t', ht, heq⟩ := Option.map_eq_some_iff.mp hfound
      cases heq
      obtain ⟨t', hwrite, rfl⟩ := Option.map_eq_some_iff.mp h
      have hwithin := Table.within_of_write? hwrite
      obtain ⟨hkind, hitems⟩ := elementTyped_items he
      -- The table is of the segment's kind.
      have helement : t.type.element = e.kind := by
        simp only [Context.elementTyped, hmode, Bool.and_eq_true] at he
        obtain ⟨type, htype, heq⟩ := (Option.any_eq_true ..).mp he.1.2.1
        obtain ⟨place', hplace'', x, hx, hxt⟩ := hi.tables table type htype
        obtain rfl := Option.some.inj (hplace'.symm.trans hplace'')
        obtain rfl := Option.some.inj (ht.symm.trans hx)
        simpa [hxt] using heq
      refine hs.putTable ht hwithin.type fun r hr => ?_
      rcases hwithin.elements r hr with hr | hr
      · exact hs.tables _ t ht r hr
      · obtain ⟨item, hitem, rfl⟩ := List.mem_map.mp hr
        rw [helement]
        split
        · rename_i hv
          exact evalConst_fits (hi.imported hs (Context.of_module features _)) (hitems item hitem) hv
        · exact Value.fits_null hkind
  · cases h
    exact .refl hs

/-- A data segment leaves a memory of the same type. -/
theorem writeData_leads (hs : s.Typed) {d : DataSegment} (h : writeData i s d = some s') :
    s.Leads s' := by
  unfold writeData at h
  split at h
  · split at h
    · cases h
      exact .refl hs
    · rename_i hfound
      obtain ⟨place, -, hfound⟩ := Option.bind_eq_some_iff.mp hfound
      obtain ⟨m, hm, heq⟩ := Option.map_eq_some_iff.mp hfound
      cases heq
      obtain ⟨m', hwrite, rfl⟩ := Option.map_eq_some_iff.mp h
      exact hs.putMemory hm (Memory.type_of_write? hwrite)
  · cases h
    exact .refl hs

/-- Segments are written in order. -/
theorem writeAll_leads {α : Type} {write : Store → α → Option Store} {xs : List α} (hs : s.Typed)
    (hwrite : ∀ x ∈ xs, ∀ s₁ s₂, s.Leads s₁ → write s₁ x = some s₂ → s₁.Leads s₂) :
    s.Leads (writeAll write xs s).2 := by
  suffices ∀ s₁, s.Leads s₁ → s.Leads (writeAll write xs s₁).2 from this s (.refl hs)
  induction xs with
  | nil => exact fun s₁ h₁ => h₁
  | cons x xs ih =>
    intro s₁ h₁
    rw [List.forall_mem_cons] at hwrite
    unfold writeAll
    split
    · rename_i s₂ hx
      exact ih hwrite.2 s₂ (h₁.trans (hwrite.1 s₁ s₂ h₁ hx))
    · exact h₁

theorem initialise_leads (hs : s.Typed) (hi : i.Typed s) (bulk : Bool) :
    s.Leads (initialise s i bulk).2 := by
  obtain ⟨features, hvalid⟩ := hi.valid
  have helements : s.Leads (writeAll (writeElements i) i.module.elements.toList s).2 :=
    writeAll_leads hs fun e he s₁ s₂ h₁ hwrite =>
      writeElements_leads h₁.typed (hi.evolve ⟨rfl, rfl, rfl, rfl, rfl⟩ h₁.evolves)
        (Module.elements_of_isValid hvalid e (Array.mem_toList_iff.mp he)) hwrite
  have hdatas : s.Leads (writeAll (writeData i) i.module.datas.toList
      (writeAll (writeElements i) i.module.elements.toList s).2).2 :=
    helements.trans (writeAll_leads helements.typed fun _ _ _ _ h₁ hwrite =>
      writeData_leads h₁.typed hwrite)
  simp only [initialise]
  split
  · exact .refl hs
  · split
    · exact .refl hs
    · split
      · rename_i heq
        rw [heq] at helements
        exact helements
      · rename_i s₁ heq
        rw [heq] at hdatas
        split
        · rename_i heq'
          rw [heq'] at hdatas
          exact hdatas
        · rename_i heq'
          rw [heq'] at hdatas
          exact hdatas

end Segments

/-! ## Making instances -/

/-- The start function of a typed instance takes nothing. -/
theorem Instance.Typed.start {s : Store} {i : Instance} (h : i.Typed s) {place : Nat}
    (hstart : i.module.start.bind (i.funcs[·]?) = some place) :
    ∃ f, s.funcs[place]? = some f ∧ f.type.params = [] := by
  obtain ⟨features, hvalid⟩ := h.valid
  obtain ⟨n, hn, hplace⟩ := Option.bind_eq_some_iff.mp hstart
  simp only [Module.isValid, Bool.and_eq_true] at hvalid
  obtain ⟨⟨⟨⟨-, hvalid⟩, -⟩, -⟩, -⟩ := hvalid
  rw [hn, Option.all_some] at hvalid
  obtain ⟨type, htype, hempty⟩ := (Option.any_eq_true ..).mp hvalid
  obtain ⟨place', hplace', f, hf, rfl⟩ := h.funcs n type htype
  obtain rfl := Option.some.inj (hplace.symm.trans hplace')
  exact ⟨f, hf, by simp_all⟩

/-- An instance of a valid module is made of items that are there, one for each import. It is added to
the store, and its start function takes nothing. -/
theorem instantiate_leads {s : Store} {m : Module} {places : List Place} (hs : s.Typed)
    (hm : ∃ features, m.isValid features = true)
    (hplaces : ∀ place ∈ places, (s.declaredType? place).isSome)
    (hlength : places.length = m.imports.size) (bulk : Bool) :
    s.Leads (instantiate s bulk m places).2 ∧
      ∀ started, (instantiate s bulk m places).1 = .ok started →
        (∃ i, (instantiate s bulk m places).2.instances[started.instance_]? = some i ∧ i.module = m) ∧
        ∀ place, started.start = some place →
          ∃ f, (instantiate s bulk m places).2.funcs[place]? = some f ∧ f.type.params = [] := by
  obtain ⟨features, hm⟩ := hm
  unfold instantiate
  split
  · exact ⟨.refl hs, fun _ h => by cases h⟩
  · rename_i hcheck
    have hfit := importsFit_of_check
      (fun i hi => (Module.valid_of_isValid hm).imports i (Array.mem_toList_iff.mp hi))
      hplaces (by simpa using hlength) hcheck
    obtain ⟨i, hfound, rfl, hleads⟩ := allocate_leads hs hm hfit
    have hi := hleads.typed.instances _ i hfound
    have hinit := initialise_leads hleads.typed hi bulk
    dsimp only
    rw [hfound]
    dsimp only
    split
    · rename_i heq
      rw [heq] at hinit
      exact ⟨hleads.trans hinit, fun _ h => by cases h⟩
    · rename_i heq
      rw [heq] at hinit
      refine ⟨hleads.trans hinit, fun started h => ?_⟩
      cases h
      obtain ⟨i', hfound', halike⟩ := hinit.evolves.instances _ i hfound
      exact ⟨⟨i', hfound', halike.module⟩, fun place hstart =>
        (hi.evolve ⟨rfl, rfl, rfl, rfl, rfl⟩ hinit.evolves).start hstart⟩

end WasmHost.Guest
