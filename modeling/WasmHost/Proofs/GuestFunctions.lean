import WasmHost.Guest.Instantiation

/-!
# What guest code does to the items of a store

No instruction adds or changes a function, and none adds a table, a memory or a global or takes one
away; instantiation only adds items, and functions with bodies. So a host function stays at its place
under its key as long as its store lasts, the key that guest code calls out with is that of a host
function of the store, and where there was an item there still is one.

Closures are found by keys that are part of host functions, so whether the right closure is called
must not depend on what guest code does. It would follow from what is said of typed stores
elsewhere; but typing is a long way to go for something that has nothing to do with kinds, and it
would make a fact about ownership rest on the validator. Here it is shown of any code at all,
checked or not, that runs on any store at all.

What guest code leaves alone is collected in a `Shape`: the functions themselves, and of other items
how many there are. Executing an instruction is a chain of lookups that may fail, with a store at
its end; so `LeavesShape` is closed under such chains, and of the instructions only those matter
that put something into the store. From one step it goes on to any number of steps
(`advance_among`), together with what a call out of the guest may be.

Instantiation does not leave the shape alone. It *extends* a store: functions are added behind those
that are there, with bodies, and all other items stay.
-/

namespace WasmHost.Guest

open Wasm

/-! ## Instructions -/

/-- The store that an instruction leaves. -/
def Step.store : Step → Store
  | next s _ | call s .. | tailCall s .. | leave s _ | trap s _ => s

/-- What guest code does not change of a store: its functions, and how many tables, memories and
globals there are. -/
structure Shape where
  funcs : Array Func
  tables : Nat
  memories : Nat
  globals : Nat

/-- The shape of a store. -/
def Store.shape (s : Store) : Shape :=
  ⟨s.funcs, s.tables.size, s.memories.size, s.globals.size⟩

@[simp] theorem Store.putTable_shape (s : Store) (place : Nat) (t : Table) :
    (s.putTable place t).shape = s.shape := by
  simp [putTable, shape]

@[simp] theorem Store.putMemory_shape (s : Store) (place : Nat) (m : Memory) :
    (s.putMemory place m).shape = s.shape := by
  simp [putMemory, shape]

theorem Store.setGlobal_shape (s : Store) (place : Nat) (g : Global) :
    { s with globals := s.globals.setIfInBounds place g }.shape = s.shape := by
  simp [shape]

theorem Store.setStack_shape (s : Store) (used : Nat) :
    { s with stackUsed := used }.shape = s.shape := rfl

/-- If an instruction does anything, it leaves the shape of a store as it was. -/
def LeavesShape (s : Store) (o : Option Step) : Prop :=
  ∀ st, o = some st → st.store.shape = s.shape

namespace LeavesShape

variable {α : Type} {s : Store}

theorem none : LeavesShape s .none := fun _ h => by cases h

theorem some {st : Step} (h : st.store.shape = s.shape) : LeavesShape s (.some st) := by
  intro st' h'
  cases h'
  exact h

theorem bind {o : Option α} {f : α → Option Step} (h : ∀ x, LeavesShape s (f x)) :
    LeavesShape s (o.bind f) := by
  cases o with
  | none => exact none
  | some x => exact h x

theorem map {o : Option α} {f : α → Step} (h : ∀ x, (f x).store.shape = s.shape) :
    LeavesShape s (o.map f) := by
  cases o with
  | none => exact none
  | some x => exact some (h x)

end LeavesShape

variable {epoch : Nat} {s : Store} {a : Activation} {i : Instr}

theorem afterFailedCheck_shape (code : TrapCode) : (afterFailedCheck s a code).shape = s.shape := by
  unfold afterFailedCheck
  split <;> rfl

theorem valueOrTrap_shape (ops : List Value) (r : Except TrapCause Value) :
    (valueOrTrap s a ops r).store.shape = s.shape := by
  cases r <;> rfl

theorem executeControl_shape : LeavesShape s (executeControl epoch s a i) := by
  unfold executeControl
  split <;> repeat' first
    | exact .none
    | exact .some rfl
    | exact .some (afterFailedCheck_shape _)
    | exact .map fun _ => rfl
    | refine .bind fun _ => ?_
    | split
    | (dsimp only; split)

theorem executeVariable_shape : LeavesShape s (executeVariable s a i) := by
  unfold executeVariable
  split <;> repeat' first
    | exact .none
    | exact .some (Store.setGlobal_shape _ _ _)
    | exact .some rfl
    | exact .map fun _ => rfl
    | refine .bind fun _ => ?_

theorem executeNumeric_shape : LeavesShape s (executeNumeric s a i) :=
  .map fun _ => valueOrTrap_shape _ _

theorem executeMemory_shape : LeavesShape s (executeMemory s a i) := by
  unfold executeMemory outside
  split <;> repeat' first
    | exact .none
    | exact .some (Store.putMemory_shape _ _ _)
    | exact .some rfl
    | refine .bind fun _ => ?_
    | split
    | (dsimp only; split)

theorem executeTable_shape : LeavesShape s (executeTable s a i) := by
  unfold executeTable outside
  split <;> repeat' first
    | exact .none
    | exact .some (Store.putTable_shape _ _ _)
    | exact .some rfl
    | refine .bind fun _ => ?_
    | split
    | (dsimp only; split)

theorem execute_shape : LeavesShape s (execute epoch s a i) := by
  unfold execute
  split <;> first
    | exact executeControl_shape
    | exact executeVariable_shape
    | exact executeTable_shape
    | exact executeMemory_shape
    | exact executeNumeric_shape
    | exact .none

/-! ## Threads -/

/-- An event calls out only with the key of a host function. -/
def Event.Among (funcs : Array Func) : Event → Prop
  | called key type _ _ _ => ∃ place : Nat, funcs[place]? = some (.host key type)
  | _ => True

/-- A thread that goes on, or stops, with a store of a certain shape. -/
def Progress.Among (shape : Shape) : Progress → Prop
  | running s _ => s.shape = shape
  | stopped s event => s.shape = shape ∧ event.Among shape.funcs

variable {shape : Shape} {caller : Option Nat} {thread : List Activation}

theorem resume_among (h : s.shape = shape) (results : List Value) :
    (resume s thread results).Among shape := by
  cases thread with
  | nil => exact ⟨h, trivial⟩
  | cons a rest => exact h

theorem enter_among (h : s.shape = shape) (place : Nat) (args : List Value) :
    (enter epoch caller s thread place args).Among shape := by
  unfold enter
  split
  · exact ⟨h, trivial⟩
  · rename_i key type hf
    exact ⟨h, place, h ▸ hf⟩
  · dsimp only
    split
    · exact ⟨h, trivial⟩
    · split
      · exact ⟨(afterFailedCheck_shape _).trans h, trivial⟩
      · exact h

theorem step_among (h : s.shape = shape) : (step epoch s thread).Among shape := by
  unfold step
  split
  · exact ⟨h, trivial⟩
  · split
    · refine resume_among ?_ _
      exact h
    · dsimp only
      rename_i a _ _ located _
      -- Fuel is charged before the instruction is executed, which does nothing to the store.
      have hx := @execute_shape epoch s
        (a := { a with unsaved := a.unsaved + fuelCost located.instr }) (i := located.instr)
      split
      · exact ⟨h, trivial⟩
      · rename_i he
        exact (hx _ he).trans h
      · rename_i he
        exact enter_among ((hx _ he).trans h) _ _
      · rename_i he
        refine enter_among ?_ _ _
        exact (hx _ he).trans h
      · rename_i he
        refine resume_among ?_ _
        exact (hx _ he).trans h
      · rename_i he
        exact ⟨(hx _ he).trans h, trivial⟩

/-- However long a thread runs, the shape of its store stays, and it calls out with the key of one of
the functions. -/
theorem advance_among {p : Progress} (h : p.Among shape) (epoch fuel : Nat) :
    (advance epoch fuel p).1.shape = shape ∧ (advance epoch fuel p).2.Among shape.funcs := by
  induction fuel generalizing p with
  | zero =>
    cases p with
    | running s thread => exact ⟨h, trivial⟩
    | stopped s event => exact h
  | succ fuel ih =>
    cases p with
    | running s thread => exact ih (step_among h)
    | stopped s event => exact h

/-! ## Instantiation -/

/-- There are at least as many tables, memories and globals in a store as in another. -/
structure Store.Grows (s s' : Store) : Prop where
  tables : s.tables.size ≤ s'.tables.size
  memories : s.memories.size ≤ s'.memories.size
  globals : s.globals.size ≤ s'.globals.size

theorem Store.Grows.of_shape {s s' : Store} (h : s'.shape = s.shape) : s.Grows s' where
  tables := Nat.le_of_eq (congrArg Shape.tables h.symm)
  memories := Nat.le_of_eq (congrArg Shape.memories h.symm)
  globals := Nat.le_of_eq (congrArg Shape.globals h.symm)

theorem Store.Grows.refl (s : Store) : s.Grows s := .of_shape rfl

theorem Store.Grows.trans {s s' s'' : Store} (h : s.Grows s') (h' : s'.Grows s'') : s.Grows s'' where
  tables := Nat.le_trans h.tables h'.tables
  memories := Nat.le_trans h.memories h'.memories
  globals := Nat.le_trans h.globals h'.globals

/-- A store has all functions of another at the same places, and besides them no host functions; and
it has all its other items. -/
structure Store.Extends (s s' : Store) : Prop extends s.Grows s' where
  funcs : ∃ fs : List Func, s'.funcs.toList = s.funcs.toList ++ fs ∧ ∀ f ∈ fs, f.key? = none

namespace Store.Extends

theorem of_grows {s s' : Store} (h : s.Grows s') (hf : s'.funcs = s.funcs) : s.Extends s' :=
  ⟨h, [], by simp [hf], by simp⟩

theorem of_shape {s s' : Store} (h : s'.shape = s.shape) : s.Extends s' :=
  of_grows (.of_shape h) (congrArg Shape.funcs h)

theorem trans {s s' s'' : Store} (h : s.Extends s') (h' : s'.Extends s'') : s.Extends s'' := by
  obtain ⟨fs, hfs, hnone⟩ := h.funcs
  obtain ⟨fs', hfs', hnone'⟩ := h'.funcs
  refine ⟨h.toGrows.trans h'.toGrows, fs ++ fs', by simp [hfs', hfs], fun f hf => ?_⟩
  rcases List.mem_append.mp hf with hf | hf
  · exact hnone f hf
  · exact hnone' f hf

theorem addFunc (s : Store) {f : Func} (h : f.key? = none) : s.Extends (s.addFunc f).2 :=
  ⟨⟨Nat.le_refl _, Nat.le_refl _, Nat.le_refl _⟩, [f], by simp [Store.addFunc], by simpa using h⟩

theorem addTable (s : Store) (t : Table) : s.Extends (s.addTable t).2 :=
  of_grows ⟨by simp [Store.addTable], Nat.le_refl _, Nat.le_refl _⟩ rfl

theorem addMemory (s : Store) (m : Memory) : s.Extends (s.addMemory m).2 :=
  of_grows ⟨Nat.le_refl _, by simp [Store.addMemory], Nat.le_refl _⟩ rfl

theorem addGlobal (s : Store) (g : Global) : s.Extends (s.addGlobal g).2 :=
  of_grows ⟨Nat.le_refl _, Nat.le_refl _, by simp [Store.addGlobal]⟩ rfl

/-- A function stays at its place. -/
theorem getElem? {s s' : Store} (h : s.Extends s') {place : Nat} {f : Func}
    (hf : s.funcs[place]? = some f) : s'.funcs[place]? = some f := by
  obtain ⟨fs, hfs, -⟩ := h.funcs
  rw [← Array.getElem?_toList] at hf ⊢
  rw [hfs, List.getElem?_append_left (List.getElem?_eq_some_iff.mp hf).1, hf]

/-- A host function is at its place in both stores. -/
theorem host_of {s s' : Store} (h : s.Extends s') {place key : Nat} {type : Signature}
    (hf : s'.funcs[place]? = some (.host key type)) :
    s.funcs[place]? = some (.host key type) := by
  obtain ⟨fs, hfs, hnone⟩ := h.funcs
  rw [← Array.getElem?_toList, hfs, List.getElem?_append] at hf
  split at hf
  · rwa [← Array.getElem?_toList]
  · have := hnone _ (List.mem_of_getElem? hf)
    cases this

end Store.Extends

/-- There is a table, a memory or a global at a place. Places of functions come out of values too, of
which nothing is known. -/
def Place.Within (s : Store) : Place → Prop
  | func _ => True
  | global i => i < s.globals.size
  | memory i => i < s.memories.size
  | table i => i < s.tables.size

theorem Place.Within.grow {s s' : Store} {p : Place} (h : p.Within s) (hs : s.Grows s') :
    p.Within s' := by
  cases p with
  | func i => trivial
  | global i => exact Nat.lt_of_lt_of_le h hs.globals
  | memory i => exact Nat.lt_of_lt_of_le h hs.memories
  | table i => exact Nat.lt_of_lt_of_le h hs.tables

/-- Where there is an item of a type, there is an item. -/
theorem Place.within_of_declaredType? {s : Store} {p : Place} {t : ItemType}
    (h : s.declaredType? p = some t) : p.Within s := by
  cases p with
  | func i => trivial
  | _ =>
    obtain ⟨x, hx, -⟩ := Option.map_eq_some_iff.mp h
    exact (Array.getElem?_eq_some_iff.mp hx).1

theorem addFuncs_extends (number : Nat) (bodies : List (Nat × Body)) (s : Store) (i : Instance) :
    s.Extends (addFuncs number bodies s i).1 := by
  induction bodies generalizing s i with
  | nil => exact .of_shape rfl
  | cons b rest ih => exact (Store.Extends.addFunc s rfl).trans (ih _ _)

theorem addTables_extends (types : List TableType) (s : Store) (i : Instance) :
    s.Extends (addTables types s i).1 := by
  induction types generalizing s i with
  | nil => exact .of_shape rfl
  | cons t rest ih => exact (Store.Extends.addTable s _).trans (ih _ _)

theorem addMemories_extends (types : List MemoryType) (s : Store) (i : Instance) :
    s.Extends (addMemories types s i).1 := by
  induction types generalizing s i with
  | nil => exact .of_shape rfl
  | cons t rest ih => exact (Store.Extends.addMemory s _).trans (ih _ _)

theorem addGlobals_extends (globals : List GlobalDef) (s : Store) (i : Instance) :
    s.Extends (addGlobals globals s i).1 := by
  induction globals generalizing s i with
  | nil => exact .of_shape rfl
  | cons g rest ih => exact (Store.Extends.addGlobal s _).trans (ih _ _)

theorem allocate_extends (s : Store) (module : Module) (imports : List Place) :
    s.Extends (allocate s module imports).2 := by
  have hfuncs := addFuncs_extends s.instances.size (module.funcs.zip module.bodies).toList s
    (.ofImports module imports)
  exact ((hfuncs.trans (addTables_extends module.tables.toList _ _)).trans
    (addMemories_extends module.memories.toList _ _)).trans
    ((addGlobals_extends module.globals.toList _ _).trans (.of_shape rfl))

theorem writeAll_shape {α : Type} {write : Store → α → Option Store}
    (h : ∀ s x s', write s x = some s' → s'.shape = s.shape) (xs : List α) (s : Store) :
    (writeAll write xs s).2.shape = s.shape := by
  induction xs generalizing s with
  | nil => rfl
  | cons x rest ih =>
    unfold writeAll
    split
    · rename_i s' hs
      exact (ih s').trans (h s x s' hs)
    · rfl

theorem writeElements_shape (i : Instance) (s : Store) (e : ElementSegment) (s' : Store)
    (h : writeElements i s e = some s') : s'.shape = s.shape := by
  unfold writeElements at h
  split at h
  · split at h
    · cases h
      rfl
    · obtain ⟨t, -, rfl⟩ := Option.map_eq_some_iff.mp h
      exact s.putTable_shape _ t
  · cases h
    rfl

theorem writeData_shape (i : Instance) (s : Store) (d : DataSegment) (s' : Store)
    (h : writeData i s d = some s') : s'.shape = s.shape := by
  unfold writeData at h
  split at h
  · split at h
    · cases h
      rfl
    · obtain ⟨m, -, rfl⟩ := Option.map_eq_some_iff.mp h
      exact s.putMemory_shape _ m
  · cases h
    rfl

theorem initialise_shape (s : Store) (i : Instance) (bulk : Bool) :
    (initialise s i bulk).2.shape = s.shape := by
  have he := writeAll_shape (writeElements_shape i) i.module.elements.toList s
  unfold initialise
  dsimp only
  split
  · rfl
  · split
    · rfl
    · split
      · rename_i s' hw
        rw [hw] at he
        exact he
      · rename_i s' hw
        rw [hw] at he
        have hd := writeAll_shape (writeData_shape i) i.module.datas.toList s'
        split
        · rename_i s'' hw'
          rw [hw'] at hd
          exact hd.trans he
        · rename_i s'' hw'
          rw [hw'] at hd
          exact hd.trans he

/-- Making an instance adds no host function, and takes nothing away. -/
theorem instantiate_extends (s : Store) (bulk : Bool) (module : Module) (imports : List Place) :
    s.Extends (instantiate s bulk module imports).2 := by
  unfold instantiate
  split
  · exact .of_shape rfl
  · have ha := allocate_extends s module imports
    dsimp only
    split
    · exact ha
    · rename_i i _
      have hi := initialise_shape (allocate s module imports).2 i bulk
      split
      · rename_i hinit
        rw [hinit] at hi
        exact ha.trans (.of_shape hi)
      · rename_i hinit
        rw [hinit] at hi
        exact ha.trans (.of_shape hi)

end WasmHost.Guest
