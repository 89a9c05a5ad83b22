import Mathlib.Data.List.Forall2
import WasmHost.Guest.Instantiation
import WasmHost.Wasm.Validate

/-!
# Typed stores

A store is typed if what it holds is of the kinds that were declared: globals hold values of their
content kind, tables references of their element kind, and functions with bodies have bodies that
were checked for the instance they belong to. An instance is typed if each of its index spaces leads
to items of the types that its module declares.

Stores evolve: items stay at their places with their types, a constant global keeps its value, and
instances keep their modules and places. Whatever is said of values, functions and instances here
stays true while their store evolves.

Typing is stated of stores and not of threads first, because a store outlives every thread and is
changed by host code as well. It is closed under everything that happens to a store in two ways.
What happens by way of the guest or of an operation leads from a typed store to a typed one. And
whatever was said of a value, a function or an instance of the old store is true of it in the new
one: `Store.Leads` is both together, and it is what each later lemma about a step concludes, so that
facts about values that lie elsewhere (on the stacks of suspended activations, in the hands of the
host) need not be proved again.

That references to functions are in bounds is part of a value being of a kind, `Value.Within`. It
depends on the store only by the number of its functions, which never goes down.

The types of memories and tables have limits that growing does not respect: a table that was
imported may be larger than the importing module declares it to be at least. So an instance is typed
by what matters to its code, the kind of the elements and the width of the addresses
(`Memory.Suits`), and not by whole types.
-/

namespace WasmHost.Guest

open Wasm

/-! ## Values -/

/-- A reference to a function leads to one of the first `n` functions. -/
def Value.Within (n : Nat) : Value → Prop
  | .ref (.func (some place)) => place < n
  | _ => True

/-- A value is of a kind, in a store with `n` functions. -/
structure Value.Fits (n : Nat) (v : Value) (k : Kind) : Prop where
  kind : v.kind = k
  within : v.Within n

/-- Values are of kinds, each of its own. -/
abbrev Value.FitAll (n : Nat) : List Value → List Kind → Prop := List.Forall₂ (Value.Fits n)

section Values

variable {n m : Nat} {v : Value} {k : Kind} {vs : List Value} {ks : List Kind}

theorem Value.Fits.mono (h : v.Fits n k) (hnm : n ≤ m) : v.Fits m k := by
  refine ⟨h.kind, ?_⟩
  have hw := h.within
  unfold Value.Within at hw ⊢
  split
  · exact Nat.lt_of_lt_of_le hw hnm
  · trivial

theorem Value.FitAll.mono (h : FitAll n vs ks) (hnm : n ≤ m) : FitAll m vs ks :=
  h.imp fun _ _ hv => hv.mono hnm

theorem Value.fits_zero (k : Kind) : (Value.zero k).Fits n k := by
  cases k <;> exact ⟨rfl, trivial⟩

theorem Value.fits_null (hk : k.isReference = true) : (Value.ref (.null k)).Fits n k := by
  cases k <;> first | exact ⟨rfl, trivial⟩ | cases hk

theorem Value.fitAll_zero (ks : List Kind) : FitAll n (ks.map Value.zero) ks := by
  induction ks with
  | nil => exact .nil
  | cons k ks ih => exact .cons (fits_zero k) ih

theorem Value.FitAll.length (h : FitAll n vs ks) : vs.length = ks.length := h.length_eq

theorem Value.FitAll.reverse (h : FitAll n vs ks) : FitAll n vs.reverse ks.reverse :=
  List.rel_reverse h

theorem Value.FitAll.append {vs' : List Value} {ks' : List Kind} (h : FitAll n vs ks)
    (h' : FitAll n vs' ks') : FitAll n (vs ++ vs') (ks ++ ks') := List.rel_append h h'

/-- Values of kinds in two parts come in two parts. -/
theorem Value.FitAll.split {ks' : List Kind} (h : FitAll n vs (ks ++ ks')) :
    ∃ ws below, vs = ws ++ below ∧ FitAll n ws ks ∧ FitAll n below ks' := by
  refine ⟨vs.take ks.length, vs.drop ks.length, (List.take_append_drop _ _).symm, ?_, ?_⟩
  · exact List.forall₂_take_append _ _ _ h
  · exact List.forall₂_drop_append _ _ _ h

/-- Integers and floats of a kind are what they are called. -/
theorem Value.Fits.number (h : v.Fits n k) :
    match k with
    | .i32 => ∃ x, v = .i32 x
    | .i64 => ∃ x, v = .i64 x
    | .f32 => ∃ x, v = .f32 x
    | .f64 => ∃ x, v = .f64 x
    | .v128 => ∃ x, v = .v128 x
    | _ => ∃ r, v = .ref r := by
  obtain ⟨rfl, -⟩ := h
  cases v with
  | ref r => cases r <;> exact ⟨_, rfl⟩
  | _ => exact ⟨_, rfl⟩

theorem Value.FitAll.one (h : FitAll n vs [k]) : ∃ v, vs = [v] ∧ v.Fits n k := by
  obtain ⟨v, vs, hv, hvs, rfl⟩ := List.forall₂_cons_right_iff.mp h
  cases hvs
  exact ⟨v, rfl, hv⟩

theorem Value.FitAll.two {k' : Kind} (h : FitAll n vs [k, k']) :
    ∃ v v', vs = [v, v'] ∧ v.Fits n k ∧ v'.Fits n k' := by
  obtain ⟨v, vs, hv, hvs, rfl⟩ := List.forall₂_cons_right_iff.mp h
  obtain ⟨v', rfl, hv'⟩ := FitAll.one hvs
  exact ⟨v, v', rfl, hv, hv'⟩

theorem Value.FitAll.three {k' k'' : Kind} (h : FitAll n vs [k, k', k'']) :
    ∃ v v' v'', vs = [v, v', v''] ∧ v.Fits n k ∧ v'.Fits n k' ∧ v''.Fits n k'' := by
  obtain ⟨v, vs, hv, hvs, rfl⟩ := List.forall₂_cons_right_iff.mp h
  obtain ⟨v', v'', rfl, hv', hv''⟩ := FitAll.two hvs
  exact ⟨v, v', v'', rfl, hv, hv', hv''⟩

end Values

/-! ## Instances, functions and stores -/

/-- Each index that has a type leads to something of that type. -/
def Indexed {α τ : Type} (type? : Nat → Option τ) (xs : Array α) (P : α → τ → Prop) : Prop :=
  ∀ index t, type? index = some t → ∃ x, xs[index]? = some x ∧ P x t

/-- Things in the order of their types are reached by their indices. -/
theorem Indexed.of_forall₂ {α τ : Type} {P : α → τ → Prop} {xs : List α} {ts : List τ}
    (h : List.Forall₂ P xs ts) : Indexed (ts[·]?) xs.toArray P := by
  intro index t ht
  obtain ⟨hlength, hP⟩ := List.forall₂_iff_get.mp h
  obtain ⟨hindex, rfl⟩ := List.getElem?_eq_some_iff.mp ht
  have hindex' : index < xs.length := hlength ▸ hindex
  exact ⟨xs[index], by simp [hindex'], hP index hindex' hindex⟩

/-- A memory has addresses of the width that a type declares, and is shared if the type says so. -/
structure Memory.Suits (m : Memory) (t : MemoryType) : Prop where
  wide : m.type.wide = t.wide
  shared : m.type.shared = t.shared

/-- The index spaces of an instance lead to items of the types that its module declares. -/
structure Instance.Typed (s : Store) (i : Instance) : Prop where
  valid : ∃ features, i.module.isValid features = true
  funcs : Indexed i.module.signature? i.funcs fun place t =>
    ∃ f, s.funcs[place]? = some f ∧ f.type = t
  globals : Indexed (i.module.globalTypes[·]?) i.globals fun place t =>
    ∃ g, s.globals[place]? = some g ∧ g.type = t
  tables : Indexed (i.module.tableTypes[·]?) i.tables fun place t =>
    ∃ x, s.tables[place]? = some x ∧ x.type.element = t.element
  memories : Indexed (i.module.memoryTypes[·]?) i.memories fun place t =>
    ∃ m, s.memories[place]? = some m ∧ m.Suits t
  within : ∀ place ∈ i.funcs, place < s.funcs.size

/-- The body of a function was checked for the instance it belongs to. -/
def Func.Typed (s : Store) : Func → Prop
  | .host .. => True
  | .guest instance_ _ type body => ∃ i features t, s.instances[instance_]? = some i ∧
      i.module.types[t]? = some type ∧ (i.module.context features).functionTyped t body = true

/-- What a store holds is of the kinds that were declared. -/
structure Store.Typed (s : Store) : Prop where
  funcs : ∀ (place : Nat) f, s.funcs[place]? = some f → f.Typed s
  globals : ∀ (place : Nat) g, s.globals[place]? = some g →
    g.value.Fits s.funcs.size g.type.content
  tables : ∀ (place : Nat) t, s.tables[place]? = some t →
    ∀ r ∈ t.elements, (Value.ref r).Fits s.funcs.size t.type.element
  instances : ∀ (number : Nat) i, s.instances[number]? = some i → i.Typed s

/-! ## How stores evolve

Evolution is an order. Items are not taken away, and what may change in them is what no type speaks
of. -/

/-- Instances are of the same module, and their index spaces lead to the same places. -/
structure Instance.Alike (i i' : Instance) : Prop where
  module : i'.module = i.module
  funcs : i'.funcs = i.funcs
  globals : i'.globals = i.globals
  tables : i'.tables = i.tables
  memories : i'.memories = i.memories

/-- Items stay at their places with their types, and a constant global keeps its value. -/
structure Store.Evolves (s s' : Store) : Prop where
  funcs : ∀ (place : Nat) f, s.funcs[place]? = some f → s'.funcs[place]? = some f
  globals : ∀ (place : Nat) g, s.globals[place]? = some g →
    ∃ g', s'.globals[place]? = some g' ∧ g'.type = g.type ∧ (g.type.writable = false → g' = g)
  tables : ∀ (place : Nat) t, s.tables[place]? = some t →
    ∃ t', s'.tables[place]? = some t' ∧ t'.type = t.type
  memories : ∀ (place : Nat) m, s.memories[place]? = some m →
    ∃ m', s'.memories[place]? = some m' ∧ m'.type = m.type
  instances : ∀ (number : Nat) i, s.instances[number]? = some i →
    ∃ i', s'.instances[number]? = some i' ∧ i.Alike i'

variable {s s' s'' : Store}

namespace Store.Evolves

theorem refl (s : Store) : s.Evolves s where
  funcs _ _ h := h
  globals _ g h := ⟨g, h, rfl, fun _ => rfl⟩
  tables _ t h := ⟨t, h, rfl⟩
  memories _ m h := ⟨m, h, rfl⟩
  instances _ i h := ⟨i, h, rfl, rfl, rfl, rfl, rfl⟩

theorem trans (h : s.Evolves s') (h' : s'.Evolves s'') : s.Evolves s'' where
  funcs place f hf := h'.funcs place f (h.funcs place f hf)
  globals place g hg := by
    obtain ⟨g', hg', ht, hc⟩ := h.globals place g hg
    obtain ⟨g'', hg'', ht', hc'⟩ := h'.globals place g' hg'
    refine ⟨g'', hg'', ht'.trans ht, fun hw => ?_⟩
    obtain rfl := hc hw
    exact hc' hw
  tables place t ht := by
    obtain ⟨t', ht', he⟩ := h.tables place t ht
    obtain ⟨t'', ht'', he'⟩ := h'.tables place t' ht'
    exact ⟨t'', ht'', he'.trans he⟩
  memories place m hm := by
    obtain ⟨m', hm', he⟩ := h.memories place m hm
    obtain ⟨m'', hm'', he'⟩ := h'.memories place m' hm'
    exact ⟨m'', hm'', he'.trans he⟩
  instances number i hi := by
    obtain ⟨i', hi', ha⟩ := h.instances number i hi
    obtain ⟨i'', hi'', ha'⟩ := h'.instances number i' hi'
    exact ⟨i'', hi'', ha'.module.trans ha.module, ha'.funcs.trans ha.funcs,
      ha'.globals.trans ha.globals, ha'.tables.trans ha.tables, ha'.memories.trans ha.memories⟩

theorem size_funcs (h : s.Evolves s') : s.funcs.size ≤ s'.funcs.size := by
  by_contra hlt
  obtain ⟨f, hf⟩ : ∃ f, s.funcs[s'.funcs.size]? = some f :=
    ⟨_, Array.getElem?_eq_getElem (by omega)⟩
  have := h.funcs _ f hf
  simp at this

end Store.Evolves

theorem Indexed.imp {α τ : Type} {type? : Nat → Option τ} {xs : Array α} {P Q : α → τ → Prop}
    (h : Indexed type? xs P) (hPQ : ∀ x t, P x t → Q x t) : Indexed type? xs Q := by
  intro index t ht
  obtain ⟨x, hx, hP⟩ := h index t ht
  exact ⟨x, hx, hPQ x t hP⟩

theorem Instance.Typed.evolve {i i' : Instance} (h : i.Typed s) (hi : i.Alike i')
    (hs : s.Evolves s') : i'.Typed s' where
  valid := hi.module ▸ h.valid
  funcs := by
    rw [hi.module, hi.funcs]
    exact h.funcs.imp fun place t ⟨f, hf, ht⟩ => ⟨f, hs.funcs place f hf, ht⟩
  globals := by
    rw [hi.module, hi.globals]
    refine h.globals.imp fun place t ⟨g, hg, ht⟩ => ?_
    obtain ⟨g', hg', ht', -⟩ := hs.globals place g hg
    exact ⟨g', hg', ht'.trans ht⟩
  tables := by
    rw [hi.module, hi.tables]
    refine h.tables.imp fun place t ⟨x, hx, ht⟩ => ?_
    obtain ⟨x', hx', ht'⟩ := hs.tables place x hx
    exact ⟨x', hx', ht' ▸ ht⟩
  memories := by
    rw [hi.module, hi.memories]
    refine h.memories.imp fun place t ⟨m, hm, ht⟩ => ?_
    obtain ⟨m', hm', ht'⟩ := hs.memories place m hm
    exact ⟨m', hm', ht' ▸ ht.wide, ht' ▸ ht.shared⟩
  within place hplace := Nat.lt_of_lt_of_le (h.within place (hi.funcs ▸ hplace)) hs.size_funcs

theorem Func.Typed.evolve {f : Func} (h : f.Typed s) (hs : s.Evolves s') : f.Typed s' := by
  cases f with
  | host key type => trivial
  | guest instance_ index type body =>
    obtain ⟨i, features, t, hi, ht, hbody⟩ := h
    obtain ⟨i', hi', ha⟩ := hs.instances instance_ i hi
    exact ⟨i', features, t, hi', ha.module ▸ ht, ha.module ▸ hbody⟩

/-! ## What a store leads to -/

/-- A store evolves into a typed one. -/
structure Store.Leads (s s' : Store) : Prop where
  evolves : s.Evolves s'
  typed : s'.Typed

namespace Store.Leads

theorem refl (h : s.Typed) : s.Leads s := ⟨.refl s, h⟩

theorem trans (h : s.Leads s') (h' : s'.Leads s'') : s.Leads s'' :=
  ⟨h.evolves.trans h'.evolves, h'.typed⟩

/-- What evolves keeps its functions and instances typed; globals and tables are looked at. -/
theorem of_evolves (hs : s.Typed) (h : s.Evolves s') (hfuncs : s'.funcs = s.funcs)
    (hglobals : ∀ (place : Nat) g, s'.globals[place]? = some g →
      g.value.Fits s.funcs.size g.type.content)
    (htables : ∀ (place : Nat) t, s'.tables[place]? = some t →
      ∀ r ∈ t.elements, (Value.ref r).Fits s.funcs.size t.type.element)
    (hinstances : ∀ (number : Nat) i', s'.instances[number]? = some i' →
      ∃ i, s.instances[number]? = some i ∧ i.Alike i') : s.Leads s' where
  evolves := h
  typed :=
    { funcs := fun place f hf => (hs.funcs place f (hfuncs ▸ hf)).evolve h
      globals := hfuncs ▸ hglobals
      tables := hfuncs ▸ htables
      instances := fun number i' hi' => by
        obtain ⟨i, hi, ha⟩ := hinstances number i' hi'
        exact (hs.instances number i hi).evolve ha h }

/-- Only what limits running code is changed. -/
theorem of_items (hs : s.Typed) (hfuncs : s'.funcs = s.funcs) (htables : s'.tables = s.tables)
    (hmemories : s'.memories = s.memories) (hglobals : s'.globals = s.globals)
    (hinstances : s'.instances = s.instances) : s.Leads s' := by
  refine of_evolves hs ⟨?_, ?_, ?_, ?_, ?_⟩ hfuncs ?_ ?_ ?_
  · exact fun _ _ h => hfuncs ▸ h
  · exact fun _ g h => ⟨g, hglobals ▸ h, rfl, fun _ => rfl⟩
  · exact fun _ t h => ⟨t, htables ▸ h, rfl⟩
  · exact fun _ m h => ⟨m, hmemories ▸ h, rfl⟩
  · exact fun _ i h => ⟨i, hinstances ▸ h, rfl, rfl, rfl, rfl, rfl⟩
  · exact hglobals ▸ hs.globals
  · exact htables ▸ hs.tables
  · exact fun _ i h => ⟨i, hinstances ▸ h, rfl, rfl, rfl, rfl, rfl⟩

theorem stackUsed (h : s.Leads s') (n : Nat) : s.Leads { s' with stackUsed := n } :=
  h.trans (of_items h.typed rfl rfl rfl rfl rfl)

end Store.Leads

/-- What is at a place after one place of an array has been set. -/
theorem getElem?_setIfInBounds {α : Type} {xs : Array α} {place place' : Nat} {x y : α}
    (h : (xs.setIfInBounds place x)[place']? = some y) :
    (place' = place ∧ y = x) ∨ xs[place']? = some y := by
  rw [Array.getElem?_setIfInBounds] at h
  split at h
  · rename_i heq
    split at h
    · cases h
      exact .inl ⟨heq.symm, rfl⟩
    · cases h
  · exact .inr h

/-- Something at a place is there again after a place has been set, or has been replaced. -/
theorem exists_setIfInBounds {α : Type} {xs : Array α} {place place' : Nat} {x y : α}
    {P : α → Prop} (h : xs[place']? = some y) (hx : place' = place → P x) (hy : P y) :
    ∃ z, (xs.setIfInBounds place x)[place']? = some z ∧ P z := by
  by_cases heq : place' = place
  · subst heq
    obtain ⟨hlt, -⟩ := Array.getElem?_eq_some_iff.mp h
    exact ⟨x, by simp [hlt], hx rfl⟩
  · exact ⟨y, by rw [Array.getElem?_setIfInBounds_ne (Ne.symm heq), h], hy⟩

namespace Store.Typed

variable {place : Nat}

/-- A global that may be written is given a value of its kind. -/
theorem setGlobal (hs : s.Typed) {g : Global} {v : Value} (hg : s.globals[place]? = some g)
    (hw : g.type.writable = true) (hv : v.Fits s.funcs.size g.type.content) :
    s.Leads { s with globals := s.globals.setIfInBounds place { g with value := v } } := by
  refine .of_evolves hs { Evolves.refl s with globals := ?_ } rfl ?_ hs.tables
    fun _ i h => ⟨i, h, rfl, rfl, rfl, rfl, rfl⟩
  · intro place' g' hg'
    refine exists_setIfInBounds hg' (fun heq => ?_) ⟨rfl, fun _ => rfl⟩
    subst heq
    obtain rfl : g = g' := by simpa [hg] using hg'
    exact ⟨rfl, fun hc => by simp [hw] at hc⟩
  · intro place' g' hg'
    rcases getElem?_setIfInBounds hg' with ⟨-, rfl⟩ | hg'
    · exact hv
    · exact hs.globals place' g' hg'

/-- A table is replaced by one with elements of its kind. -/
theorem putTable (hs : s.Typed) {t t' : Table} (ht : s.tables[place]? = some t)
    (htype : t'.type = t.type)
    (helements : ∀ r ∈ t'.elements, (Value.ref r).Fits s.funcs.size t.type.element) :
    s.Leads (s.putTable place t') := by
  refine .of_evolves hs { Evolves.refl s with tables := ?_ } rfl hs.globals ?_
    fun _ i h => ⟨i, h, rfl, rfl, rfl, rfl, rfl⟩
  · intro place' x hx
    refine exists_setIfInBounds hx (fun heq => ?_) rfl
    subst heq
    obtain rfl : t = x := by simpa [ht] using hx
    exact htype
  · intro place' x hx
    rcases getElem?_setIfInBounds hx with ⟨-, rfl⟩ | hx
    · exact htype ▸ helements
    · exact hs.tables place' x hx

/-- A memory is replaced by one of the same type. -/
theorem putMemory (hs : s.Typed) {m m' : Memory} (hm : s.memories[place]? = some m)
    (htype : m'.type = m.type) : s.Leads (s.putMemory place m') := by
  refine .of_evolves hs { Evolves.refl s with memories := ?_ } rfl hs.globals hs.tables
    fun _ i h => ⟨i, h, rfl, rfl, rfl, rfl, rfl⟩
  intro place' x hx
  refine exists_setIfInBounds hx (fun heq => ?_) rfl
  subst heq
  obtain rfl : m = x := by simpa [hm] using hx
  exact htype

/-- An instance is replaced by one that only differs in its segments. -/
theorem setInstance (hs : s.Typed) {i i' : Instance} (hi : s.instances[place]? = some i)
    (ha : i.Alike i') :
    s.Leads { s with instances := s.instances.setIfInBounds place i' } := by
  refine .of_evolves hs { Evolves.refl s with instances := ?_ } rfl hs.globals hs.tables ?_
  · intro place' x hx
    refine exists_setIfInBounds hx (fun heq => ?_) ⟨rfl, rfl, rfl, rfl, rfl⟩
    subst heq
    obtain rfl : i = x := by simpa [hi] using hx
    exact ha
  · intro place' x hx
    rcases getElem?_setIfInBounds hx with ⟨rfl, rfl⟩ | hx
    · exact ⟨i, hi, ha⟩
    · exact ⟨x, hx, rfl, rfl, rfl, rfl, rfl⟩

end Store.Typed

/-! ## What is added -/

/-- What is in an array behind which things were added. -/
theorem getElem?_append_cases {α : Type} {xs : Array α} {ys : List α} {n : Nat} {x : α}
    (h : (xs ++ ys.toArray)[n]? = some x) : xs[n]? = some x ∨ x ∈ ys := by
  rw [Array.getElem?_append] at h
  split at h
  · exact .inl h
  · exact .inr (by simpa using Array.mem_of_getElem? h)

/-- Things are added behind those that are there. -/
theorem Store.Evolves.of_append {fs : Array Func} {ts : Array Table}
    {ms : Array Memory} {gs : Array Global} {is : Array Instance} (hfuncs : s'.funcs = s.funcs ++ fs)
    (htables : s'.tables = s.tables ++ ts) (hmemories : s'.memories = s.memories ++ ms)
    (hglobals : s'.globals = s.globals ++ gs) (hinstances : s'.instances = s.instances ++ is) :
    s.Evolves s' := by
  have stays {α : Type} {xs ys : Array α} {place : Nat} {x : α} (h : xs[place]? = some x) :
      (xs ++ ys)[place]? = some x := by
    rw [Array.getElem?_append_left (Array.getElem?_eq_some_iff.mp h).1, h]
  constructor
  · exact fun place f hf => hfuncs ▸ stays hf
  · exact fun place g hg => ⟨g, hglobals ▸ stays hg, rfl, fun _ => rfl⟩
  · exact fun place t ht => ⟨t, htables ▸ stays ht, rfl⟩
  · exact fun place m hm => ⟨m, hmemories ▸ stays hm, rfl⟩
  · exact fun number i hi => ⟨i, hinstances ▸ stays hi, rfl, rfl, rfl, rfl, rfl⟩

/-- What is added is typed. -/
theorem Store.Leads.of_append (hs : s.Typed) (fs : List Func) (ts : List Table)
    (ms : List Memory) (gs : List Global) (is : List Instance)
    (hfuncs : s'.funcs = s.funcs ++ fs.toArray) (htables : s'.tables = s.tables ++ ts.toArray)
    (hmemories : s'.memories = s.memories ++ ms.toArray)
    (hglobals : s'.globals = s.globals ++ gs.toArray)
    (hinstances : s'.instances = s.instances ++ is.toArray) (hfs : ∀ f ∈ fs, f.Typed s')
    (hts : ∀ t ∈ ts, ∀ r ∈ t.elements, (Value.ref r).Fits s'.funcs.size t.type.element)
    (hgs : ∀ g ∈ gs, g.value.Fits s'.funcs.size g.type.content)
    (his : ∀ i ∈ is, i.Typed s') : s.Leads s' := by
  have hs' : s.Evolves s' := .of_append hfuncs htables hmemories hglobals hinstances
  refine ⟨hs', ?_, ?_, ?_, ?_⟩
  · intro place f hf
    rcases getElem?_append_cases (hfuncs ▸ hf) with hf | hf
    · exact (hs.funcs place f hf).evolve hs'
    · exact hfs f hf
  · intro place g hg
    rcases getElem?_append_cases (hglobals ▸ hg) with hg | hg
    · exact (hs.globals place g hg).mono hs'.size_funcs
    · exact hgs g hg
  · intro place t ht
    rcases getElem?_append_cases (htables ▸ ht) with ht | ht
    · exact fun r hr => (hs.tables place t ht r hr).mono hs'.size_funcs
    · exact hts t ht
  · intro number i hi
    rcases getElem?_append_cases (hinstances ▸ hi) with hi | hi
    · exact (hs.instances number i hi).evolve ⟨rfl, rfl, rfl, rfl, rfl⟩ hs'
    · exact his i hi

namespace Store.Typed

/-- A host function is added. -/
theorem addHost (hs : s.Typed) (key : Nat) (type : Signature) :
    s.Leads (s.addFunc (.host key type)).2 := by
  refine .of_append hs [.host key type] [] [] [] [] ?_ ?_ ?_ ?_ ?_ ?_ ?_ ?_ ?_ <;> simp [addFunc, Func.Typed]

/-- A global is added, with a value of its kind. -/
theorem addGlobal (hs : s.Typed) {g : Global} (hg : g.value.Fits s.funcs.size g.type.content) :
    s.Leads (s.addGlobal g).2 := by
  refine .of_append hs [] [] [] [g] [] ?_ ?_ ?_ ?_ ?_ ?_ ?_ ?_ ?_ <;> simp [Store.addGlobal, hg]

/-- A table is added, with elements of its kind. -/
theorem addTable (hs : s.Typed) {t : Table}
    (ht : ∀ r ∈ t.elements, (Value.ref r).Fits s.funcs.size t.type.element) :
    s.Leads (s.addTable t).2 := by
  refine .of_append hs [] [t] [] [] [] ?_ ?_ ?_ ?_ ?_ ?_ ?_ ?_ ?_ <;> simp_all [Store.addTable]

/-- A memory is added. -/
theorem addMemory (hs : s.Typed) (m : Memory) : s.Leads (s.addMemory m).2 := by
  refine .of_append hs [] [] [m] [] [] ?_ ?_ ?_ ?_ ?_ ?_ ?_ ?_ ?_ <;> simp [Store.addMemory]

end Store.Typed

theorem Store.Typed.empty (meters : Meters) : (Store.empty meters).Typed := by
  constructor <;> simp [Store.empty]

end WasmHost.Guest
