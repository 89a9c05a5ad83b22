import WasmHost.Proofs.Blocks
import WasmHost.Proofs.StoreTyping

/-!
# Constant expressions

A constant expression that was checked to be of a kind gives values of that kind only, and so do the
items of an element segment. An instance that is still being made will do, as long as its imported
globals are there.

These are the expressions by which globals are initialised and offsets are given. They are evaluated
while an instance is being made, before its index spaces are complete: so it cannot be assumed that
the instance is typed, which is what the evaluation is needed for. What can be assumed is
`Instance.Imported`. The imports come first, and only imported globals may occur in such
expressions.

The checker treats an expression as a small body, so that the lemmas on taking operands serve here,
too. An expression has no branches, and all of its operands are known; that makes this the place
where typing states of known operands (`ofKinds`) get their lemmas, which threads use later.
-/

namespace WasmHost.Wasm

namespace TypingState

variable {c : Context} {s s' : TypingState} {i : Instr} {ks : List Kind} {bs : List OpenBlock}

/-- A state whose operands are all known. -/
def ofKinds (ks : List Kind) (bs : List OpenBlock) : TypingState := ⟨ks.map some, bs⟩

theorem known_ofKinds {b : OpenBlock} (hb : b.dead = false) : (ofKinds ks (b :: bs)).Known where
  reached := hb
  operands o ho := by
    obtain ⟨k, -, rfl⟩ := List.mem_map.mp ho
    exact ⟨k, rfl⟩

/-- Operands that are taken from known ones are among them, and the others are left. -/
theorem popAll_ofKinds {b : OpenBlock} (hb : b.dead = false) {kinds : List Kind}
    (h : (ofKinds ks (b :: bs)).popAll kinds = some s') :
    ∃ rest, ks = kinds.reverse ++ rest ∧ s' = ofKinds rest (b :: bs) := by
  obtain ⟨hops, -⟩ := popAll_known (known_ofKinds hb) h
  obtain ⟨front, rest, rfl, hfront, hrest⟩ := List.map_eq_append_iff.mp hops
  obtain rfl := (List.map_inj_right fun _ _ => Option.some.inj).mp hfront
  obtain ⟨ops, bs'⟩ := s'
  obtain rfl : bs' = b :: bs := blocks_of_popAll h
  obtain rfl : rest.map some = ops := hrest
  exact ⟨rest, rfl, rfl⟩

theorem pop_ofKinds {b : OpenBlock} (hb : b.dead = false) {k : Kind}
    (h : (ofKinds ks (b :: bs)).pop k = some s') :
    ∃ rest, ks = k :: rest ∧ s' = ofKinds rest (b :: bs) := by
  have hone : (ofKinds ks (b :: bs)).popAll [k] = some s' := by simpa [popAll] using h
  exact popAll_ofKinds hb hone

theorem popAny_ofKinds {b : OpenBlock} (hb : b.dead = false) {o : Option Kind}
    (h : (ofKinds ks (b :: bs)).popAny = some (o, s')) :
    ∃ k rest, ks = k :: rest ∧ o = some k ∧ s' = ofKinds rest (b :: bs) := by
  cases ks with
  | nil => simp [popAny, ofKinds, isDead, hb] at h
  | cons k rest =>
    cases h
    exact ⟨k, rest, rfl, rfl, rfl⟩

/-- An instruction with a stack type takes operands of the kinds it says and leaves others. -/
theorem step_plain {b : OpenBlock} (hb : b.dead = false) {params results : List Kind}
    (ht : i.stackType? c = some (params, results))
    (h : (ofKinds ks (b :: bs)).step c i = some s') :
    ∃ rest, ks = params.reverse ++ rest ∧ s' = ofKinds (results.reverse ++ rest) (b :: bs) := by
  unfold step at h
  split at h <;> first
    | cases ht
    | skip
  simp [ht, Option.bind_eq_some_iff, guard] at h
  obtain ⟨-, mid, hmid, rfl⟩ := h
  obtain ⟨rest, hrest, rfl⟩ := popAll_ofKinds hb hmid
  exact ⟨rest, hrest, by simp [push, ofKinds]⟩

/-- At the end of a block that can be reached, the operands are its results. -/
theorem step_end {b : OpenBlock} (hb : b.dead = false)
    (h : (ofKinds ks (b :: bs)).step c .end_ = some s') :
    ks = b.results.reverse ∧ s' = ⟨b.results.reverse.map some ++ b.outer, bs⟩ := by
  simp [step, Option.bind_eq_some_iff, guard] at h
  obtain ⟨-, b', mid, hleave, -, rfl⟩ := h
  obtain ⟨rest, hblocks, rfl, last, hlast, hempty⟩ := leave_eq_some hleave
  cases hblocks
  obtain ⟨below, hks, rfl⟩ := popAll_ofKinds hb hlast
  obtain rfl : below = [] := by simpa [ofKinds] using hempty
  exact ⟨by simpa using hks, by simp [push]⟩

theorem run_cons {rest : List Instr} (h : s.run c (i :: rest) = some s') :
    ∃ mid, s.step c i = some mid ∧ mid.run c rest = some s' := by
  unfold run at h
  split at h
  · cases h
  · exact Option.bind_eq_some_iff.mp h

end TypingState

end WasmHost.Wasm

namespace WasmHost.Guest

open Wasm

/-- A context in which bodies of a module are checked. -/
structure Context.Of (c : Context) (m : Module) : Prop where
  types : c.types = m.types
  funcs : c.funcs = m.funcTypes
  tables : c.tables = m.tableTypes
  memories : c.memories = m.memoryTypes
  globals : c.globals = m.globalTypes
  elements : c.elements = m.elements.map (·.kind)

/-- References to the functions of an instance lead somewhere, and its imported globals hold values
of their kinds. -/
structure Instance.Imported (s : Store) (i : Instance) (c : Context) : Prop where
  within : ∀ place ∈ i.funcs, place < s.funcs.size
  globals : ∀ (n : Nat) t, n < c.importedGlobals → c.globals[n]? = some t →
    ∀ (place : Nat) g, i.globals[n]? = some place → s.globals[place]? = some g →
      g.value.Fits s.funcs.size t.content

section Const

variable {s : Store} {i : Instance} {c : Context} {visible : Nat} {kind : Kind} {v : Value}

/-- The block of a constant expression. -/
def constBlock (kind : Kind) : OpenBlock := ⟨.block, [], [kind], [], false⟩

theorem Value.fits_func {n : Nat} {place : Option Nat} (h : ∀ p, place = some p → p < n) :
    (Value.ref (.func place)).Fits n .funcref := by
  refine ⟨rfl, ?_⟩
  cases place with
  | none => trivial
  | some p => exact h p rfl

theorem evalConst_run {expr : ConstExpr} {vs : List Value} {ks : List Kind} {last : TypingState}
    (hi : i.Imported s c) (hexpr : expr.all (c.constInstr visible) = true)
    (hrun : (TypingState.ofKinds ks [constBlock kind]).run c (expr ++ [.end_]) = some last)
    (hvs : Value.FitAll s.funcs.size vs ks) (h : evalConst s i expr vs = some v) :
    v.Fits s.funcs.size kind := by
  induction expr generalizing vs ks with
  | nil =>
    obtain ⟨mid, hstep, -⟩ := TypingState.run_cons hrun
    obtain ⟨rfl, -⟩ := TypingState.step_end rfl hstep
    obtain ⟨v', rfl, hv⟩ := Value.FitAll.one hvs
    cases h
    exact hv
  | cons instr expr ih =>
    obtain ⟨mid, hstep, hrun⟩ := TypingState.run_cons hrun
    simp only [List.all_cons, Bool.and_eq_true] at hexpr
    obtain ⟨hconst, hrest⟩ := hexpr
    -- What puts a value of a kind on top of the others.
    -- What puts a value of a kind on top of the others, whatever the value.
    have pushes {u : Value} {k : Kind} (ht : instr.stackType? c = some ([], [k]))
        (hu : u.Fits s.funcs.size k) (h : evalConst s i expr (u :: vs) = some v) :
        v.Fits s.funcs.size kind := by
      obtain ⟨rest, rfl, rfl⟩ := TypingState.step_plain rfl ht hstep
      exact ih hrest hrun (.cons hu hvs) h
    cases instr with
    | i32Const x | i64Const x | f32Const x | f64Const x | v128Const x =>
      refine pushes rfl ?_ h
      exact ⟨rfl, trivial⟩
    | refNull k =>
      have hk : k.isReference = true := by
        by_contra hk
        simp [TypingState.step, Instr.stackType?, hk] at hstep
      exact pushes (by simp [Instr.stackType?, hk]) (Value.fits_null hk) h
    | refFunc f =>
      have ht : (Instr.refFunc f).stackType? c = some ([], [.funcref]) := by
        cases ht : (Instr.refFunc f).stackType? c with
        | none => simp [TypingState.step, ht] at hstep
        | some t =>
          simp [Instr.stackType?, Option.bind_eq_some_iff, guard] at ht
          rw [← ht.2.2]
      exact pushes ht (Value.fits_func fun p hp => hi.within p (Array.mem_of_getElem? hp)) h
    | globalGet g =>
      simp [Context.constInstr] at hconst
      obtain ⟨⟨-, himported⟩, -⟩ := hconst
      simp only [evalConst] at h
      split at h
      · rename_i global hglobal
        obtain ⟨place, hplace, hglobal⟩ := Option.bind_eq_some_iff.mp hglobal
        cases ht : c.globals[g]? with
        | none => simp [TypingState.step, Instr.stackType?, ht] at hstep
        | some t =>
          exact pushes (by simp [Instr.stackType?, ht])
            (hi.globals g t himported ht place global hplace hglobal) h
      · cases h
    | intBinary w op =>
      obtain ⟨rest, rfl, rfl⟩ := TypingState.step_plain rfl rfl hstep
      obtain ⟨ws, below, rfl, hws, hbelow⟩ := Value.FitAll.split hvs
      obtain ⟨y, x, rfl, hy, hx⟩ := Value.FitAll.two hws
      cases w <;>
      · obtain ⟨x, rfl⟩ := hx.number
        obtain ⟨y, rfl⟩ := hy.number
        simp only [evalConst, List.cons_append, List.nil_append] at h
        split at h
        · refine ih hrest hrun (.cons ?_ hbelow) h
          exact ⟨rfl, trivial⟩
        · cases h
    | _ => cases hconst

/-- A constant expression gives values of the kind that it was checked to be of. -/
theorem evalConst_fits {expr : ConstExpr} (hi : i.Imported s c)
    (hexpr : c.constTyped visible expr kind = true) (h : evalConst s i expr [] = some v) :
    v.Fits s.funcs.size kind := by
  simp only [Context.constTyped, Bool.and_eq_true] at hexpr
  obtain ⟨hconst, hbody⟩ := hexpr
  obtain ⟨last, hlast, -⟩ := (Option.any_eq_true ..).mp hbody
  have hrun : (TypingState.ofKinds [] [constBlock kind]).run _ (expr ++ [.end_]) = some last := hlast
  have hi' : i.Imported s { c with
      results := [kind]
      declared := List.range c.funcs.size } := ⟨hi.within, hi.globals⟩
  exact evalConst_run hi' hconst hrun .nil h

/-- The items of an element segment that fits are constant expressions of its kind, which is a kind
of references. -/
theorem elementTyped_items {e : ElementSegment} (h : c.elementTyped e = true) :
    e.kind.isReference = true ∧
      ∀ item ∈ e.items, c.constTyped c.globals.size item e.kind = true := by
  simp only [Context.elementTyped, Bool.and_eq_true] at h
  obtain ⟨⟨⟨hkind, -⟩, -⟩, hitems⟩ := h
  exact ⟨hkind, List.all_eq_true.mp hitems⟩

/-- An item of an element segment stands for a reference of its kind. -/
theorem elementRef_fits {expr : ConstExpr} (hi : i.Imported s c) (hkind : kind.isReference = true)
    (hexpr : c.constTyped visible expr kind = true) :
    (Value.ref (elementRef s i kind expr)).Fits s.funcs.size kind := by
  unfold elementRef
  split
  · exact evalConst_fits hi hexpr rfl
  · exact evalConst_fits hi hexpr rfl
  · split
    · rename_i g t r hglobal
      exact evalConst_fits hi hexpr (by simp [evalConst, hglobal])
    · exact Value.fits_null hkind
  · exact Value.fits_null hkind

/-- An instance whose index spaces lead to items of the declared types. -/
theorem Instance.Typed.imported (h : i.Typed s) (hs : s.Typed) (hc : Context.Of c i.module) :
    i.Imported s c where
  within := h.within
  globals n t _ ht place g hplace hg := by
    rw [hc.globals] at ht
    obtain ⟨place', hplace', g', hg', rfl⟩ := h.globals n t ht
    obtain rfl := Option.some.inj (hplace.symm.trans hplace')
    obtain rfl := Option.some.inj (hg.symm.trans hg')
    exact hs.globals place g hg

/-- The context of a module, outside any body. -/
theorem Context.of_module (features : Features) (m : Module) : Context.Of (m.context features) m :=
  ⟨rfl, rfl, rfl, rfl, rfl, rfl⟩

theorem Module.elements_of_isValid {m : Module} {features : Features}
    (h : m.isValid features = true) :
    ∀ e ∈ m.elements, (m.context features).elementTyped e = true := by
  simp only [Module.isValid, Bool.and_eq_true] at h
  obtain ⟨⟨⟨-, helements⟩, -⟩, -⟩ := h
  exact Array.all_eq_true'.mp helements

/-- The references of an element segment are of its kind. -/
theorem elementRefs_fit (h : i.Typed s) (hs : s.Typed) {segment : Nat} {e : ElementSegment}
    (he : i.module.elements[segment]? = some e) {r : Ref} (hr : r ∈ elementRefs s i segment) :
    (Value.ref r).Fits s.funcs.size e.kind := by
  obtain ⟨features, hvalid⟩ := h.valid
  obtain ⟨hkind, hitems⟩ :=
    elementTyped_items (Module.elements_of_isValid hvalid e (Array.mem_of_getElem? he))
  unfold elementRefs at hr
  split at hr
  · rename_i e' _ he'
    obtain rfl := Option.some.inj (he.symm.trans he')
    obtain ⟨item, hitem, rfl⟩ := List.mem_map.mp hr
    exact elementRef_fits (h.imported hs (Context.of_module features _)) hkind (hitems item hitem)
  · cases hr

end Const

end WasmHost.Guest
