import WasmHost.Guest.Instantiation

/-!
# What guest code does with references to host objects

Guest code has no way to make a reference to a host object; it can only move those it was given. So
whatever origins the references in a store and in a thread are to, no instruction leads to a
reference to another one. Instances are made of references that are there already.

A host object must live as long as guest code can reach it, and guest code can reach it only by a
reference that it holds. So it is enough to know that all references in a store are to origins which
the store has copies of; and that is an invariant of everything that guest code does, because
references are copied and dropped, and never computed.

Unlike typing this holds of any code, checked or not, and for a simpler reason, so it is proved
apart. Whatever there is in the guest that may hold a reference is gone through: operands, locals,
the operands that labels remember, tables, globals, and, while an instance is being made, segments.
`held` is any predicate on origins. It is fixed for the time in which guest code runs, and only the
host can make it larger, by handing over another reference.
-/

namespace WasmHost.Guest

open Wasm

variable {held held' : Nat → Prop}

/-! ## References

A value is *rooted* if the origin that it refers to is held. Numbers are, and so are references to
functions and null. -/

/-- If a reference is to a host object, it is to one whose origin is held. -/
@[simp] def Ref.Rooted (held : Nat → Prop) : Ref → Prop
  | .func _ => True
  | .object none => True
  | .object (some g) => held g

/-- The same of a value. -/
@[simp] def Value.Rooted (held : Nat → Prop) : Value → Prop
  | .i32 _ | .i64 _ | .f32 _ | .f64 _ | .v128 _ => True
  | .ref r => r.Rooted held

/-- The same of several values. -/
abbrev Value.AllRooted (held : Nat → Prop) (vs : List Value) : Prop := ∀ v ∈ vs, v.Rooted held

@[simp] theorem Ref.null_rooted (k : Kind) : (Ref.null k).Rooted held := by cases k <;> trivial

@[simp] theorem Value.zero_rooted (k : Kind) : (Value.zero k).Rooted held := by cases k <;> trivial

@[simp] theorem Value.ofIndex_rooted (wide : Bool) (n : Nat) : (Value.ofIndex wide n).Rooted held := by
  cases wide <;> trivial

@[simp] theorem Value.failedGrowth_rooted (wide : Bool) : (Value.failedGrowth wide).Rooted held := by
  cases wide <;> trivial

theorem Ref.Rooted.mono {r : Ref} (h : r.Rooted held) (hh : ∀ g, held g → held' g) :
    r.Rooted held' := by
  obtain _ | _ | g := r
  · trivial
  · trivial
  · exact hh g h

theorem Value.Rooted.mono {v : Value} (h : v.Rooted held) (hh : ∀ g, held g → held' g) :
    v.Rooted held' := by
  cases v with
  | ref r => exact Ref.Rooted.mono h hh
  | _ => trivial

namespace Value.AllRooted

variable {vs ws : List Value}

theorem mono (h : AllRooted held vs) (hh : ∀ g, held g → held' g) : AllRooted held' vs :=
  fun v hv => (h v hv).mono hh

theorem nil : AllRooted held [] := fun _ h => by cases h

theorem cons {v : Value} (hv : v.Rooted held) (h : AllRooted held vs) : AllRooted held (v :: vs) :=
  List.forall_mem_cons.mpr ⟨hv, h⟩

theorem head {v : Value} (h : AllRooted held (v :: vs)) : v.Rooted held := h v (List.mem_cons_self ..)

theorem tail {v : Value} (h : AllRooted held (v :: vs)) : AllRooted held vs :=
  fun u hu => h u (List.mem_cons_of_mem v hu)

theorem append (h : AllRooted held vs) (h' : AllRooted held ws) : AllRooted held (vs ++ ws) :=
  List.forall_mem_append.mpr ⟨h, h'⟩

theorem reverse (h : AllRooted held vs) : AllRooted held vs.reverse :=
  fun v hv => h v (List.mem_reverse.mp hv)

theorem take (h : AllRooted held vs) (n : Nat) : AllRooted held (vs.take n) :=
  fun v hv => h v (List.mem_of_mem_take hv)

theorem drop (h : AllRooted held vs) (n : Nat) : AllRooted held (vs.drop n) :=
  fun v hv => h v (List.mem_of_mem_drop hv)

end Value.AllRooted

/-! ## Tables, stores and threads -/

/-- A table is one of references, all of which are rooted. -/
structure Table.Rooted (held : Nat → Prop) (t : Table) : Prop where
  kind : t.type.element.isReference = true
  elements : ∀ r ∈ t.elements, r.Rooted held

/-- Whatever is kept in a store is rooted. -/
structure Store.Rooted (held : Nat → Prop) (s : Store) : Prop where
  tables : ∀ (place : Nat) t, s.tables[place]? = some t → t.Rooted held
  globals : ∀ (place : Nat) g, s.globals[place]? = some g → g.value.Rooted held

/-- Whatever an activation has at hand is rooted. -/
structure Activation.Rooted (held : Nat → Prop) (a : Activation) : Prop where
  locals : ∀ v ∈ a.locals, v.Rooted held
  operands : Value.AllRooted held a.operands
  labels : ∀ l ∈ a.labels, Value.AllRooted held l.outer

/-- Whatever a thread has at hand is rooted. -/
abbrev ThreadRooted (held : Nat → Prop) (thread : List Activation) : Prop :=
  ∀ a ∈ thread, a.Rooted held

namespace Table.Rooted

variable {t t' : Table} {r : Ref}

theorem get? {index : Nat} (h : t.Rooted held) (hr : t.get? index = some r) : r.Rooted held :=
  h.elements r (Array.mem_of_getElem? hr)

theorem ofType {type : TableType} (htype : type.element.isReference = true) (hr : r.Rooted held) :
    (Table.ofType type r).Rooted held where
  kind := htype
  elements _ hr' := (Array.mem_replicate.mp hr').2 ▸ hr

theorem setIfInBounds {index : Nat} (h : t.Rooted held) (hr : r.Rooted held) :
    Table.Rooted held { t with elements := t.elements.setIfInBounds index r } := by
  refine ⟨h.kind, fun r' hr' => ?_⟩
  rcases Array.mem_or_eq_of_mem_setIfInBounds hr' with hold | rfl
  · exact h.elements r' hold
  · exact hr

theorem set? {index : Nat} (h : t.Rooted held) (hr : r.Rooted held) (ht : t.set? index r = some t') :
    t'.Rooted held := by
  unfold Table.set? at ht
  split at ht
  · cases ht
    exact h.setIfInBounds hr
  · cases ht

theorem grow? {delta : Nat} (h : t.Rooted held) (hr : r.Rooted held)
    (ht : t.grow? delta r = some t') : t'.Rooted held := by
  unfold Table.grow? at ht
  split at ht
  · cases ht
    refine ⟨h.kind, fun r' hr' => ?_⟩
    rcases Array.mem_append.mp hr' with hold | hnew
    · exact h.elements r' hold
    · rw [(Array.mem_replicate.mp hnew).2]
      exact hr
  · cases ht

/-- References are put into a table one after the other. -/
theorem putAll {pairs : List (Ref × Nat)} (h : t.Rooted held)
    (hpairs : ∀ p ∈ pairs, p.1.Rooted held) : Table.Rooted held
      { t with elements := pairs.foldl (fun es p => es.setIfInBounds p.2 p.1) t.elements } := by
  induction pairs generalizing t with
  | nil => exact h
  | cons p pairs ih =>
    exact ih (h.setIfInBounds (hpairs p (List.mem_cons_self ..)))
      fun q hq => hpairs q (List.mem_cons_of_mem _ hq)

theorem write? {index : Nat} {refs : List Ref} (h : t.Rooted held)
    (hrefs : ∀ r ∈ refs, r.Rooted held) (ht : t.write? index refs = some t') : t'.Rooted held := by
  unfold Table.write? at ht
  split at ht
  · cases ht
    exact h.putAll fun p hp => hrefs p.1 (List.fst_mem_of_mem_zipIdx hp)
  · cases ht

theorem mono (h : t.Rooted held) (hh : ∀ g, held g → held' g) : t.Rooted held' :=
  ⟨h.kind, fun r hr => (h.elements r hr).mono hh⟩

end Table.Rooted

namespace Store.Rooted

variable {s s' : Store}

theorem mono (h : s.Rooted held) (hh : ∀ g, held g → held' g) : s.Rooted held' where
  tables place t ht := (h.tables place t ht).mono hh
  globals place g hg := (h.globals place g hg).mono hh

theorem empty (meters : Meters) : (Store.empty meters).Rooted held where
  tables place t ht := by simp [Store.empty] at ht
  globals place g hg := by simp [Store.empty] at hg

/-- Only tables and globals matter. -/
theorem of_items (h : s.Rooted held) (htables : s'.tables = s.tables)
    (hglobals : s'.globals = s.globals) : s'.Rooted held where
  tables place t ht := h.tables place t (htables ▸ ht)
  globals place g hg := h.globals place g (hglobals ▸ hg)

theorem putTable (h : s.Rooted held) (place : Nat) {t : Table} (ht : t.Rooted held) :
    (s.putTable place t).Rooted held where
  tables place' t' ht' := by
    rcases Array.mem_or_eq_of_mem_setIfInBounds (Array.mem_of_getElem? ht') with hold | rfl
    · obtain ⟨i, hi⟩ := Array.mem_iff_getElem?.mp hold
      exact h.tables i t' hi
    · exact ht
  globals := h.globals

theorem putGlobal (h : s.Rooted held) (place : Nat) {g : Global} (hg : g.value.Rooted held) :
    Store.Rooted held { s with globals := s.globals.setIfInBounds place g } where
  tables := h.tables
  globals place' g' hg' := by
    rcases Array.mem_or_eq_of_mem_setIfInBounds (Array.mem_of_getElem? hg') with hold | rfl
    · obtain ⟨i, hi⟩ := Array.mem_iff_getElem?.mp hold
      exact h.globals i g' hi
    · exact hg

theorem addTable (h : s.Rooted held) {t : Table} (ht : t.Rooted held) :
    (s.addTable t).2.Rooted held where
  tables place t' ht' := by
    simp only [Store.addTable, Array.getElem?_push] at ht'
    split at ht'
    · cases ht'
      exact ht
    · exact h.tables place t' ht'
  globals := h.globals

theorem addGlobal (h : s.Rooted held) {g : Global} (hg : g.value.Rooted held) :
    (s.addGlobal g).2.Rooted held where
  tables := h.tables
  globals place g' hg' := by
    simp only [Store.addGlobal, Array.getElem?_push] at hg'
    split at hg'
    · cases hg'
      exact hg
    · exact h.globals place g' hg'

end Store.Rooted

namespace Activation.Rooted

variable {a : Activation} {ops : List Value}

theorem mono (h : a.Rooted held) (hh : ∀ g, held g → held' g) : a.Rooted held' where
  locals v hv := (h.locals v hv).mono hh
  operands := h.operands.mono hh
  labels l hl := (h.labels l hl).mono hh

/-- The operands may be anything that is rooted. -/
theorem withOperands (h : a.Rooted held) (hops : Value.AllRooted held ops) :
    Activation.Rooted held { a with operands := ops } := ⟨h.locals, hops, h.labels⟩

theorem leaving (h : a.Rooted held) (hops : Value.AllRooted held ops) :
    (a.leaving ops).Rooted held := ⟨h.locals, hops, h.labels⟩

theorem next (h : a.Rooted held) : a.next.Rooted held := ⟨h.locals, h.operands, h.labels⟩

theorem setLocal (h : a.Rooted held) (n : Nat) {v : Value} (hv : v.Rooted held) :
    ∀ u ∈ a.locals.setIfInBounds n v, u.Rooted held := by
  intro u hu
  rcases Array.mem_or_eq_of_mem_setIfInBounds hu with hold | rfl
  · exact h.locals u hold
  · exact hv

theorem branch (h : a.Rooted held) (depth : Nat) : (a.branch depth).Rooted held := by
  unfold Activation.branch
  split
  · rename_i label rest hlabels
    have hmem : ∀ l ∈ label :: rest, l ∈ a.labels := fun l hl =>
      List.mem_of_mem_drop (hlabels ▸ hl)
    refine ⟨h.locals, (h.operands.take _).append (h.labels label (hmem _ (List.mem_cons_self ..))),
      fun l hl => h.labels l (hmem l (List.mem_cons_of_mem _ hl))⟩
  · exact ⟨h.locals, h.operands.take _, fun l hl => by cases hl⟩

end Activation.Rooted

/-! ## Instructions -/

/-- Whatever comes of an instruction is rooted. -/
def Step.Rooted (held : Nat → Prop) : Step → Prop
  | next s a => s.Rooted held ∧ a.Rooted held
  | call s a _ args => s.Rooted held ∧ a.Rooted held ∧ Value.AllRooted held args
  | tailCall s _ args => s.Rooted held ∧ Value.AllRooted held args
  | leave s results => s.Rooted held ∧ Value.AllRooted held results
  | trap s _ => s.Rooted held

/-- If an instruction does anything, what comes of it is rooted. -/
def LeavesRooted (held : Nat → Prop) (o : Option Step) : Prop := ∀ st, o = some st → st.Rooted held

namespace LeavesRooted

variable {α : Type}

theorem none : LeavesRooted held .none := fun _ h => by cases h

theorem some {st : Step} (h : st.Rooted held) : LeavesRooted held (.some st) := by
  intro st' h'
  cases h'
  exact h

theorem bind {o : Option α} {f : α → Option Step} (h : ∀ x, o = .some x → LeavesRooted held (f x)) :
    LeavesRooted held (o.bind f) := by
  cases o with
  | none => exact none
  | some x => exact h x rfl

theorem map {o : Option α} {f : α → Step} (h : ∀ x, o = .some x → (f x).Rooted held) :
    LeavesRooted held (o.map f) := by
  cases o with
  | none => exact none
  | some x => exact some (h x rfl)

end LeavesRooted

variable {epoch : Nat} {s : Store} {a : Activation} {i : Instr} {ops : List Value}

theorem Store.Rooted.saveFuel (hs : s.Rooted held) (a : Activation) :
    (saveFuel s a).1.Rooted held := hs.of_items rfl rfl

theorem Store.Rooted.afterFailedCheck (hs : s.Rooted held) (a : Activation) (code : TrapCode) :
    (afterFailedCheck s a code).Rooted held := by
  unfold Guest.afterFailedCheck
  split
  · exact hs.saveFuel a
  · exact hs

theorem Store.Rooted.tableOf? (hs : s.Rooted held) {n place : Nat} {t : Table}
    (h : tableOf? s a n = some (place, t)) : t.Rooted held := by
  simp only [Guest.tableOf?, Option.bind_eq_bind, Option.bind_eq_some_iff, Option.pure_def,
    Option.some.injEq, Prod.mk.injEq] at h
  obtain ⟨_, -, place, -, t, ht, -, rfl⟩ := h
  exact hs.tables place t ht

/-- A block is opened with what stands below its parameters. -/
theorem Activation.Rooted.opened (ha : a.Rooted held) (hops : Value.AllRooted held ops)
    {target arity : Nat} (params : Nat) :
    ∀ l ∈ ⟨target, arity, ops.drop params⟩ :: a.labels, Value.AllRooted held l.outer :=
  List.forall_mem_cons.mpr ⟨hops.drop params, ha.labels⟩

theorem Activation.Rooted.openBlock? (ha : a.Rooted held) (hops : Value.AllRooted held ops)
    {type : BlockType} {pc : Nat} {a' : Activation} (h : openBlock? s a type ops pc = some a') :
    a'.Rooted held := by
  obtain ⟨arity, -, h⟩ := Option.bind_eq_some_iff.mp h
  cases h
  exact ⟨ha.locals, hops, ha.opened hops _⟩

theorem executeControl_rooted (hs : s.Rooted held) (ha : a.Rooted held) :
    LeavesRooted held (executeControl epoch s a i) := by
  have hops := ha.operands
  unfold executeControl
  generalize a.operands = operands at hops ⊢
  split <;> repeat' first
    | exact .none
    | exact .some (hs.saveFuel _)
    | exact .some (hs.afterFailedCheck a _)
    | exact .some ⟨hs, ha.next⟩
    | exact .some ⟨hs, ha.branch _⟩
    -- Blocks are opened and closed.
    | exact .map fun _ h => ⟨hs, ha.openBlock? hops h⟩
    | exact .map fun _ h => ⟨hs, ha.openBlock? hops.tail h⟩
    | exact .some ⟨hs, ha.locals, hops, ha.opened hops _⟩
    | exact .some ⟨hs, ha.locals, hops.tail, ha.labels⟩
    | exact .some ⟨hs, ha.locals, hops, fun l hl => ha.labels l (List.mem_of_mem_drop hl)⟩
    | exact .some ⟨hs, ha.locals, hops, fun l hl => ha.labels l (by simp_all)⟩
    | exact .some ⟨hs, (ha.withOperands hops.tail).branch _⟩
    | exact .some ⟨hs, (ha.withOperands hops.tail).next⟩
    -- A function is called, or left.
    | exact .some ⟨hs.saveFuel _, ⟨ha.locals, hops.drop _, ha.labels⟩, (hops.take _).reverse⟩
    | exact .some ⟨hs.saveFuel _, ⟨ha.locals, hops.tail.drop _, ha.labels⟩, (hops.tail.take _).reverse⟩
    | exact .some ⟨hs.saveFuel _, (hops.take _).reverse⟩
    | exact .some ⟨hs.saveFuel _, (hops.tail.take _).reverse⟩
    | refine .bind fun _ _ => ?_
    | split
    | (dsimp only; split)

theorem executeVariable_rooted (hs : s.Rooted held) (ha : a.Rooted held) :
    LeavesRooted held (executeVariable s a i) := by
  have hops := ha.operands
  unfold executeVariable
  generalize a.operands = operands at hops ⊢
  split
  · exact .some ⟨hs, ha.leaving hops.tail⟩
  · refine .some ⟨hs, ha.leaving (.cons ?_ hops.tail.tail.tail)⟩
    split
    · exact hops.tail.tail.head
    · exact hops.tail.head
  · refine .map fun v hv => ⟨hs, ha.leaving (.cons ?_ hops)⟩
    exact ha.locals v (Array.mem_of_getElem? hv)
  · exact .some ⟨hs, ha.setLocal _ hops.head, hops.tail, ha.labels⟩
  · exact .some ⟨hs, ha.setLocal _ hops.head, hops, ha.labels⟩
  · refine .bind fun _ _ => .bind fun place _ => .bind fun g hg => ?_
    exact .some ⟨hs, ha.leaving (.cons (hs.globals place g hg) hops)⟩
  · refine .bind fun _ _ => .bind fun place _ => .bind fun g _ => ?_
    exact .some ⟨hs.putGlobal place hops.head, ha.leaving hops.tail⟩
  · exact .some ⟨hs, ha.leaving (.cons (Ref.null_rooted _) hops)⟩
  · exact .some ⟨hs, ha.leaving (.cons trivial hops.tail)⟩
  · exact .bind fun _ _ => .bind fun _ _ => .some ⟨hs, ha.leaving (.cons trivial hops)⟩
  · exact .none

/-- What comes of a numeric instruction, if it is a value, is rooted. -/
def ResultRooted (held : Nat → Prop) (r : Except TrapCause Value) : Prop :=
  ∀ v, r = .ok v → v.Rooted held

theorem ResultRooted.ok {v : Value} (h : v.Rooted held) : ResultRooted held (.ok v) := by
  rintro _ ⟨⟩
  exact h

theorem ResultRooted.map {α : Type} {f : α → Value} (h : ∀ x, (f x).Rooted held)
    (r : Except TrapCause α) : ResultRooted held (r.map f) := by
  cases r with
  | error cause => exact fun _ h => by cases h
  | ok x => exact .ok (h x)

theorem convert_rooted {op : Conversion} {v : Value} {r : Except TrapCause Value}
    (h : convert op v = some r) : ResultRooted held r := by
  unfold convert at h
  split at h <;> simp only [Option.some.injEq, reduceCtorEq] at h <;> subst h <;> first
    | exact .ok trivial
    | exact ResultRooted.map (f := .i32) (fun _ => trivial) _
    | exact ResultRooted.map (f := .i64) (fun _ => trivial) _

/-- Numbers refer to nothing. -/
theorem numericResult?_rooted {r : Except TrapCause Value} {below : List Value}
    (hops : Value.AllRooted held ops) (h : numericResult? i ops = some (r, below)) :
    ResultRooted held r ∧ Value.AllRooted held below := by
  cases i with
  | i32Const x | i64Const x | f32Const x | f64Const x | v128Const x =>
    cases h
    exact ⟨.ok trivial, hops⟩
  | intUnary w op | intTest w | floatUnary w op =>
    cases w <;> rcases ops with _ | ⟨_ | _ | _ | _ | _ | _, ops⟩ <;> cases h <;>
      exact ⟨.ok trivial, hops.tail⟩
  | intBinary w op =>
    cases w <;> rcases ops with _ | ⟨_ | _ | _ | _ | _ | _, _ | ⟨_ | _ | _ | _ | _ | _, ops⟩⟩ <;>
      cases h
    · exact ⟨ResultRooted.map (f := .i32) (fun _ => trivial) _, hops.tail.tail⟩
    · exact ⟨ResultRooted.map (f := .i64) (fun _ => trivial) _, hops.tail.tail⟩
  | intRelation w op | floatBinary w op | floatRelation w op =>
    cases w <;> rcases ops with _ | ⟨_ | _ | _ | _ | _ | _, _ | ⟨_ | _ | _ | _ | _ | _, ops⟩⟩ <;>
      cases h <;> exact ⟨.ok trivial, hops.tail.tail⟩
  | convert op =>
    cases ops with
    | nil => cases h
    | cons v ops =>
      obtain ⟨r, hr, heq⟩ := Option.map_eq_some_iff.mp h
      cases heq
      exact ⟨convert_rooted hr, hops.tail⟩
  | _ => cases h

theorem executeNumeric_rooted (hs : s.Rooted held) (ha : a.Rooted held) :
    LeavesRooted held (executeNumeric s a i) := by
  refine .map fun p hp => ?_
  obtain ⟨r, ops⟩ := p
  obtain ⟨hr, hops⟩ := numericResult?_rooted ha.operands hp
  cases r with
  | error cause => exact hs
  | ok v => exact ⟨hs, ha.leaving (.cons (hr v rfl) hops)⟩

theorem Store.Rooted.putMemory (hs : s.Rooted held) (place : Nat) (m : Memory) :
    (s.putMemory place m).Rooted held := hs.of_items rfl rfl

theorem loadedValue?_rooted {access : Access} {bytes : List UInt8} {v : Value}
    (h : loadedValue? access bytes = some v) : v.Rooted held := by
  unfold loadedValue? at h
  dsimp only at h
  split at h <;> cases h <;> trivial

theorem executeMemory_rooted (hs : s.Rooted held) (ha : a.Rooted held) :
    LeavesRooted held (executeMemory s a i) := by
  have hops := ha.operands
  unfold executeMemory outside
  generalize a.operands = operands at hops ⊢
  split <;> repeat' first
    | exact .none
    | exact .some hs
    | exact .some ⟨hs, ha.next⟩
    | exact .some ⟨hs, ha.leaving (.cons (Value.ofIndex_rooted _ _) hops)⟩
    | exact .some ⟨hs, ha.leaving (.cons trivial hops.tail.tail.tail)⟩
    | exact .some ⟨hs.putMemory _ _, ha.leaving (.cons (Value.ofIndex_rooted _ _) hops.tail)⟩
    | exact .some ⟨hs.putMemory _ _, ha.leaving hops.tail.tail⟩
    | exact .some ⟨hs.putMemory _ _, ha.leaving hops.tail.tail.tail⟩
    | exact .some ⟨hs, ha.leaving (.cons (Value.failedGrowth_rooted _) hops.tail)⟩
    | exact .some ⟨hs.of_items rfl rfl, ha.next⟩
    | (refine .bind fun _ hv => .some ⟨hs, ha.leaving (.cons (loadedValue?_rooted hv) hops.tail)⟩)
    | refine .bind fun _ _ => ?_
    | split
    | (dsimp only; split)

theorem elementRef_rooted (hs : s.Rooted held) (inst : Instance) (kind : Kind) (expr : ConstExpr) :
    (elementRef s inst kind expr).Rooted held := by
  unfold elementRef
  split
  · trivial
  · exact Ref.null_rooted _
  · split
    · rename_i type r hg
      obtain ⟨place, -, hg⟩ := Option.bind_eq_some_iff.mp hg
      exact hs.globals place _ hg
    · exact Ref.null_rooted _
  · exact Ref.null_rooted _

theorem elementRefs_rooted (hs : s.Rooted held) (inst : Instance) (segment : Nat) :
    ∀ r ∈ elementRefs s inst segment, r.Rooted held := by
  intro r hr
  unfold elementRefs at hr
  split at hr
  · obtain ⟨item, -, rfl⟩ := List.mem_map.mp hr
    exact elementRef_rooted hs _ _ _
  · cases hr

/-- Some elements of a table are rooted. -/
theorem Table.Rooted.slice {t : Table} (h : t.Rooted held) (n m : Nat) :
    ∀ r ∈ (t.elements.toList.drop n).take m, r.Rooted held :=
  fun r hr => h.elements r (Array.mem_def.mpr (List.mem_of_mem_drop (List.mem_of_mem_take hr)))

theorem executeTable_rooted (hs : s.Rooted held) (ha : a.Rooted held) :
    LeavesRooted held (executeTable s a i) := by
  have hops := ha.operands
  unfold executeTable outside
  generalize a.operands = operands at hops ⊢
  split
  · refine .bind fun p hp => .bind fun index _ => ?_
    split
    · rename_i r hr
      exact .some ⟨hs, ha.leaving (.cons ((hs.tableOf? hp).get? hr) hops.tail)⟩
    · exact .some hs
  · refine .bind fun p hp => .bind fun index _ => ?_
    split
    · rename_i t ht
      exact .some ⟨hs.putTable p.1 ((hs.tableOf? hp).set? hops.head ht), ha.leaving hops.tail.tail⟩
    · exact .some hs
  · exact .bind fun p _ => .some ⟨hs, ha.leaving (.cons (Value.ofIndex_rooted _ _) hops)⟩
  · refine .bind fun p hp => .bind fun delta _ => ?_
    split
    · rename_i t ht
      exact .some ⟨hs.putTable p.1 ((hs.tableOf? hp).grow? hops.tail.head ht),
        ha.leaving (.cons (Value.ofIndex_rooted _ _) hops.tail.tail)⟩
    · exact .some ⟨hs, ha.leaving (.cons (Value.failedGrowth_rooted _) hops.tail.tail)⟩
  · refine .bind fun p hp => .bind fun index _ => .bind fun len _ => ?_
    split
    · rename_i t ht
      refine .some ⟨hs.putTable p.1 ((hs.tableOf? hp).write? (fun r' hr' => ?_) ht),
        ha.leaving hops.tail.tail.tail⟩
      obtain rfl := List.eq_of_mem_replicate hr'
      exact hops.tail.head
    · exact .some hs
  · refine .bind fun p hp => .bind fun f hf => .bind fun len _ => .bind fun from_ _ => ?_
    split
    · exact .some hs
    · refine .bind fun to_ _ => ?_
      split
      · rename_i t ht
        exact .some ⟨hs.putTable p.1 ((hs.tableOf? hp).write? ((hs.tableOf? hf).slice _ _) ht),
          ha.leaving hops.tail.tail.tail⟩
      · exact .some hs
  · refine .bind fun p hp => .bind fun inst _ => ?_
    dsimp only
    split
    · exact .some hs
    · refine .bind fun index _ => ?_
      split
      · rename_i t ht
        refine .some ⟨hs.putTable p.1 ((hs.tableOf? hp).write? (fun r hr => ?_) ht),
          ha.leaving hops.tail.tail.tail⟩
        exact elementRefs_rooted hs inst _ r (List.mem_of_mem_drop (List.mem_of_mem_take hr))
      · exact .some hs
  · exact .bind fun inst _ => .some ⟨hs.of_items rfl rfl, ha.next⟩
  · exact .none

theorem execute_rooted (hs : s.Rooted held) (ha : a.Rooted held) :
    LeavesRooted held (execute epoch s a i) := by
  unfold execute
  split <;> first
    | exact executeControl_rooted hs ha
    | exact executeVariable_rooted hs ha
    | exact executeTable_rooted hs ha
    | exact executeMemory_rooted hs ha
    | exact executeNumeric_rooted hs ha
    | exact .none

/-! ## Threads -/

/-- Whatever a thread stops with is rooted. -/
def Event.Rooted (held : Nat → Prop) : Event → Prop
  | finished results => Value.AllRooted held results
  | called _ _ args _ thread => Value.AllRooted held args ∧ ThreadRooted held thread
  | _ => True

/-- A thread that goes on, or stops, with what is rooted. -/
def Progress.Rooted (held : Nat → Prop) : Progress → Prop
  | running s thread => s.Rooted held ∧ ThreadRooted held thread
  | stopped s event => s.Rooted held ∧ event.Rooted held

variable {caller : Option Nat} {thread : List Activation} {vs : List Value}

theorem Event.Rooted.mono {event : Event} (h : event.Rooted held) (hh : ∀ g, held g → held' g) :
    event.Rooted held' := by
  cases event with
  | finished results => exact Value.AllRooted.mono h hh
  | called key type args caller thread => exact ⟨h.1.mono hh, fun a ha => (h.2 a ha).mono hh⟩
  | _ => trivial

theorem resume_rooted (hs : s.Rooted held) (hthread : ThreadRooted held thread)
    (hvs : Value.AllRooted held vs) : (resume s thread vs).Rooted held := by
  cases thread with
  | nil => exact ⟨hs, hvs⟩
  | cons a rest =>
    obtain ⟨ha, hrest⟩ := List.forall_mem_cons.mp hthread
    exact ⟨hs, List.forall_mem_cons.mpr ⟨ha.leaving (hvs.reverse.append ha.operands), hrest⟩⟩

theorem enter_rooted (hs : s.Rooted held) (hthread : ThreadRooted held thread) (place : Nat)
    (hvs : Value.AllRooted held vs) : (enter epoch caller s thread place vs).Rooted held := by
  unfold enter
  split
  · exact ⟨hs, trivial⟩
  · exact ⟨hs, hvs, hthread⟩
  · rename_i number func type body _
    dsimp only
    split
    · exact ⟨hs, trivial⟩
    · split
      · exact ⟨hs.afterFailedCheck _ _, trivial⟩
      · refine ⟨hs.of_items rfl rfl, List.forall_mem_cons.mpr ⟨⟨?_, .nil, fun l hl => ?_⟩, hthread⟩⟩
        -- Locals that are not parameters are zero at first.
        · have hzeros : Value.AllRooted held (body.locals.map Value.zero) := fun v hv => by
            obtain ⟨k, -, rfl⟩ := List.mem_map.mp hv
            exact Value.zero_rooted k
          intro v hv
          exact hvs.append hzeros v (List.mem_toArray.mp hv)
        · cases hl

theorem step_rooted (hs : s.Rooted held) (hthread : ThreadRooted held thread) :
    (step epoch s thread).Rooted held := by
  unfold step
  split
  · exact ⟨hs, trivial⟩
  · rename_i a rest
    obtain ⟨ha, hrest⟩ := List.forall_mem_cons.mp hthread
    split
    · exact resume_rooted (hs.of_items rfl rfl) hrest (ha.operands.take _).reverse
    · rename_i located _
      have hx := @execute_rooted held epoch s { a with unsaved := a.unsaved + fuelCost located.instr }
        located.instr hs ⟨ha.locals, ha.operands, ha.labels⟩
      dsimp only
      split
      · exact ⟨hs, trivial⟩
      · rename_i he
        obtain ⟨hs', ha'⟩ := hx _ he
        exact ⟨hs', List.forall_mem_cons.mpr ⟨ha', hrest⟩⟩
      · rename_i he
        obtain ⟨hs', ha', hargs⟩ := hx _ he
        exact enter_rooted hs' (List.forall_mem_cons.mpr ⟨ha', hrest⟩) _ hargs
      · rename_i he
        obtain ⟨hs', hargs⟩ := hx _ he
        refine enter_rooted ?_ hrest _ hargs
        exact hs'.of_items rfl rfl
      · rename_i he
        obtain ⟨hs', hresults⟩ := hx _ he
        refine resume_rooted ?_ hrest hresults
        exact hs'.of_items rfl rfl
      · rename_i he
        exact ⟨hx _ he, trivial⟩

/-- However long a thread runs, it meets no reference to anything but what it was given. -/
theorem advance_rooted {p : Progress} (h : p.Rooted held) (epoch fuel : Nat) :
    (advance epoch fuel p).1.Rooted held ∧ (advance epoch fuel p).2.Rooted held := by
  induction fuel generalizing p with
  | zero =>
    cases p with
    | running s thread => exact ⟨h.1, trivial⟩
    | stopped s event => exact h
  | succ fuel ih =>
    cases p with
    | running s thread => exact ih (step_rooted h.1 h.2)
    | stopped s event => exact h

/-! ## Instantiation -/

theorem evalConst_rooted (hs : s.Rooted held) {inst : Instance} {expr : ConstExpr} {v : Value}
    (hvs : Value.AllRooted held vs) (h : evalConst s inst expr vs = some v) : v.Rooted held := by
  fun_induction evalConst s inst expr vs with
  | case1 v =>
    cases h
    exact hvs.head
  -- Numbers and functions
  | case3 x rest vs ih | case4 x rest vs ih | case5 x rest vs ih | case6 x rest vs ih
  | case7 x rest vs ih | case9 x rest vs ih => exact ih (.cons trivial hvs) h
  | case8 k rest vs ih => exact ih (.cons (Ref.null_rooted k) hvs) h
  | case10 n rest vs g hg ih =>
    obtain ⟨place, -, hg⟩ := Option.bind_eq_some_iff.mp hg
    exact ih (.cons (hs.globals place g hg) hvs) h
  | case12 op rest y x vs r hr ih | case14 op rest y x vs r hr ih =>
    exact ih (.cons trivial hvs.tail.tail) h
  -- Nothing comes of the others.
  | case2 | case11 | case13 | case15 | case16 => cases h

theorem addFuncs_rooted (number : Nat) (bodies : List (Nat × Body)) (s : Store) (inst : Instance)
    (hs : s.Rooted held) : (addFuncs number bodies s inst).1.Rooted held := by
  induction bodies generalizing s inst with
  | nil => exact hs
  | cons b rest ih => exact ih _ _ (hs.of_items rfl rfl)

theorem addTables_rooted {types : List TableType} (htypes : ∀ t ∈ types, t.element.isReference = true)
    (s : Store) (inst : Instance) (hs : s.Rooted held) :
    (addTables types s inst).1.Rooted held := by
  induction types generalizing s inst with
  | nil => exact hs
  | cons t rest ih =>
    obtain ⟨ht, hrest⟩ := List.forall_mem_cons.mp htypes
    exact ih hrest _ _ (hs.addTable (.ofType ht (Ref.null_rooted _)))

theorem addMemories_rooted (types : List MemoryType) (s : Store) (inst : Instance)
    (hs : s.Rooted held) : (addMemories types s inst).1.Rooted held := by
  induction types generalizing s inst with
  | nil => exact hs
  | cons t rest ih => exact ih _ _ (hs.of_items rfl rfl)

theorem addGlobals_rooted (globals : List GlobalDef) (s : Store) (inst : Instance)
    (hs : s.Rooted held) : (addGlobals globals s inst).1.Rooted held := by
  induction globals generalizing s inst with
  | nil => exact hs
  | cons g rest ih =>
    refine ih _ _ (hs.addGlobal ?_)
    cases hv : evalConst s inst g.init [] with
    | none => exact Value.zero_rooted _
    | some v => exact evalConst_rooted hs .nil hv

theorem allocate_rooted (hs : s.Rooted held) {module : Module}
    (htables : ∀ t ∈ module.tables, t.element.isReference = true) (imports : List Place) :
    (allocate s module imports).2.Rooted held :=
  Store.Rooted.of_items (addGlobals_rooted _ _ _ (addMemories_rooted _ _ _
    (addTables_rooted (fun t ht => htables t (Array.mem_toList_iff.mp ht)) _ _
      (addFuncs_rooted _ _ _ _ hs)))) rfl rfl

theorem writeAll_rooted {α : Type} {write : Store → α → Option Store}
    (h : ∀ s x s', s.Rooted held → write s x = some s' → s'.Rooted held) (xs : List α) {s : Store}
    (hs : s.Rooted held) : (writeAll write xs s).2.Rooted held := by
  induction xs generalizing s with
  | nil => exact hs
  | cons x rest ih =>
    unfold writeAll
    split
    · rename_i s' hw
      exact ih (h s x s' hs hw)
    · exact hs

theorem writeElements_rooted (inst : Instance) (s : Store) (e : ElementSegment) (s' : Store)
    (hs : s.Rooted held) (h : writeElements inst s e = some s') : s'.Rooted held := by
  unfold writeElements at h
  split at h
  · split at h
    · cases h
      exact hs
    · rename_i place t hfound
      obtain ⟨_, -, hfound⟩ := Option.bind_eq_some_iff.mp hfound
      obtain ⟨_, ht, heq⟩ := Option.map_eq_some_iff.mp hfound
      cases heq
      obtain ⟨t', ht', rfl⟩ := Option.map_eq_some_iff.mp h
      refine hs.putTable _ ((hs.tables _ _ ht).write? (fun r hr => ?_) ht')
      obtain ⟨item, -, rfl⟩ := List.mem_map.mp hr
      split
      · rename_i r hr
        exact evalConst_rooted hs .nil hr
      · exact Ref.null_rooted _
  · cases h
    exact hs

theorem writeData_rooted (inst : Instance) (s : Store) (d : DataSegment) (s' : Store)
    (hs : s.Rooted held) (h : writeData inst s d = some s') : s'.Rooted held := by
  unfold writeData at h
  split at h
  · split at h
    · cases h
      exact hs
    · obtain ⟨m, -, rfl⟩ := Option.map_eq_some_iff.mp h
      exact hs.putMemory _ m
  · cases h
    exact hs

theorem initialise_rooted (hs : s.Rooted held) (inst : Instance) (bulk : Bool) :
    (initialise s inst bulk).2.Rooted held := by
  have he := writeAll_rooted (writeElements_rooted inst) inst.module.elements.toList hs
  unfold initialise
  dsimp only
  split
  · exact hs
  · split
    · exact hs
    · split
      · rename_i s' hw
        rw [hw] at he
        exact he
      · rename_i s' hw
        rw [hw] at he
        have hd := writeAll_rooted (writeData_rooted inst) inst.module.datas.toList he
        split
        · rename_i s'' hw'
          rw [hw'] at hd
          exact hd
        · rename_i s'' hw'
          rw [hw'] at hd
          exact hd

/-- Making an instance puts no other references into a store than are there. -/
theorem instantiate_rooted (hs : s.Rooted held) (bulk : Bool) {module : Module}
    (htables : ∀ t ∈ module.tables, t.element.isReference = true) (imports : List Place) :
    (instantiate s bulk module imports).2.Rooted held := by
  unfold instantiate
  split
  · exact hs
  · have ha := allocate_rooted hs htables imports
    dsimp only
    split
    · exact ha
    · rename_i inst _
      have hi := initialise_rooted ha inst bulk
      split
      · rename_i hinit
        rw [hinit] at hi
        exact hi
      · rename_i hinit
        rw [hinit] at hi
        exact hi

end WasmHost.Guest
