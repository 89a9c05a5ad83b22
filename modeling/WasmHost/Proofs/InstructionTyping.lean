import WasmHost.Proofs.ConstTyping

/-!
# Instructions on typed operands

An instruction with a stack type takes operands of the kinds it says and leaves others of the kinds it
says, on top of whatever else is there; the store it leads to is typed if the one before was. There
is a lemma for each family of instructions, and `executePlain_typed` for all of them.

Nothing about the positions of instructions, labels or calls is needed for this, and none of it is
here. An instruction that is no control instruction has a stack type in the context of its body, or
is one of three that take operands of any kind; what it does to the operands below is nothing.
`Step.Falls` says so. It leaves the rest of the activation as it is, apart from locals, and the rest
of the store as far as typing is concerned.

Where an instruction leads, by an index, to an item of the store, its type comes from the context,
and the item from the instance. That the two agree is `Instance.Typed`, and the lemmas
`Activation.Ready.memory`, `.table`, `.global` put it in the form in which an instruction needs it.
From there on each instruction is a matter of its own data: what it takes off the stack, which of
its checks may fail, and what it leaves.
-/

namespace WasmHost.Wasm

/-- Control instructions, which may leave their activation or go on somewhere else. -/
def Instr.isControl : Instr → Bool
  | unreachable | nop | block _ | loop _ | if_ _ | else_ | end_ | br _ | brIf _ | brTable ..
  | return_ | call _ | callIndirect .. | returnCall _ | returnCallIndirect .. => true
  | _ => false

end WasmHost.Wasm

namespace WasmHost.Guest

open Wasm

/-- What an instruction does that stays in its activation: on top of the operands below, there are
values of certain kinds afterwards; or it traps. -/
inductive Step.Falls (s : Store) (a : Activation) (c : Context) (results : List Kind)
    (below : List Value) : Step → Prop
  | next {s' : Store} {vs : List Value} {locals : Array Value} (hs : s.Leads s')
      (hvs : Value.FitAll s'.funcs.size vs results.reverse)
      (hlocals : Indexed (c.locals[·]?) locals (Value.Fits s'.funcs.size)) :
      Falls s a c results below
        (.next s' { a with operands := vs ++ below, locals := locals, pc := a.pc + 1 })
  | trap {s' : Store} {cause : TrapCause} (hs : s.Leads s') :
      Falls s a c results below (.trap s' cause)

section Families

variable {s : Store} {a : Activation} {c : Context} {i : Instr} {inst : Instance} {st : Step}
  {params results : List Kind} {ws below : List Value}

/-- Where an instruction is executed. -/
structure Activation.Ready (s : Store) (a : Activation) (c : Context) (inst : Instance) : Prop where
  store : s.Typed
  found : s.instances[a.instance_]? = some inst
  context : Context.Of c inst.module
  locals : Indexed (c.locals[·]?) a.locals (Value.Fits s.funcs.size)

theorem Activation.Ready.typed (h : a.Ready s c inst) : inst.Typed s :=
  h.store.instances _ _ h.found

theorem Except.map_eq_ok {ε α β : Type} {f : α → β} {r : Except ε α} {b : β}
    (h : r.map f = .ok b) : ∃ a, r = .ok a ∧ f a = b := by
  cases r with
  | error e => cases h
  | ok a =>
    cases h
    exact ⟨a, rfl, rfl⟩

theorem convert_fits {n : Nat} {op : Conversion} {v u : Value} (h : convert op v = some (.ok u)) :
    u.Fits n op.target := by
  unfold convert at h
  split at h <;> simp only [Option.some.injEq, reduceCtorEq] at h <;>
    -- A conversion gives a number at once, or the result of one that may fail.
    first
      | (cases h; exact ⟨rfl, trivial⟩)
      | (obtain ⟨x, -, rfl⟩ := Except.map_eq_ok h; exact ⟨rfl, trivial⟩)

/-- What a numeric instruction gives is of a kind, unless it traps. -/
theorem fits_result {n : Nat} {k : Kind} {r : Except TrapCause Value}
    (hr : ∀ v, r = .ok v → v.Fits n k) :
    below = below ∧ ∀ v, r = .ok v → Value.FitAll n [v] [k].reverse :=
  ⟨rfl, fun v hv => .cons (hr v hv) .nil⟩

theorem fits_value {n : Nat} {k : Kind} {v : Value} (hk : v.kind = k) (hw : v.Within n) :
    below = below ∧ ∀ u, (.ok v : Except TrapCause Value) = .ok u →
      Value.FitAll n [u] [k].reverse := by
  refine fits_result fun u hu => ?_
  cases hu
  exact ⟨hk, hw⟩

/-- The value that a numeric instruction gives, and what it leaves below. -/
theorem numericResult?_typed {n : Nat} {r : Except TrapCause Value} {ops : List Value}
    (ht : i.stackType? c = some (params, results)) (hws : Value.FitAll n ws params.reverse)
    (h : numericResult? i (ws ++ below) = some (r, ops)) :
    ops = below ∧ ∀ v, r = .ok v → Value.FitAll n [v] results.reverse := by
  -- In each case, the typing tells the kinds of the operands, a kind tells which numbers they are,
  -- and then the instruction can be run.
  cases i with
  | i32Const x | i64Const x | f32Const x | f64Const x | v128Const x =>
    cases ht
    cases hws
    cases h
    exact fits_value rfl trivial
  | intUnary w op | floatUnary w op =>
    cases ht
    obtain ⟨x, rfl, hx⟩ := Value.FitAll.one hws
    cases w <;>
    · obtain ⟨x, rfl⟩ := hx.number
      cases h
      exact fits_value rfl trivial
  | intBinary w op =>
    cases ht
    obtain ⟨y, x, rfl, hy, hx⟩ := Value.FitAll.two hws
    cases w <;>
    · obtain ⟨x, rfl⟩ := hx.number
      obtain ⟨y, rfl⟩ := hy.number
      cases h
      refine fits_result fun v hv => ?_
      obtain ⟨z, -, rfl⟩ := Except.map_eq_ok hv
      exact ⟨rfl, trivial⟩
  | intTest w =>
    cases ht
    obtain ⟨x, rfl, hx⟩ := Value.FitAll.one hws
    cases w <;>
    · obtain ⟨x, rfl⟩ := hx.number
      cases h
      exact fits_value rfl trivial
  | intRelation w op | floatBinary w op | floatRelation w op =>
    cases ht
    obtain ⟨y, x, rfl, hy, hx⟩ := Value.FitAll.two hws
    cases w <;>
    · obtain ⟨x, rfl⟩ := hx.number
      obtain ⟨y, rfl⟩ := hy.number
      cases h
      exact fits_value rfl trivial
  | convert op =>
    cases ht
    obtain ⟨x, rfl, hx⟩ := Value.FitAll.one hws
    obtain ⟨r', hr', heq⟩ := Option.map_eq_some_iff.mp h
    cases heq
    exact fits_result fun v hv => convert_fits (hv ▸ hr')
  | _ => cases h

theorem executeNumeric_typed (h : a.Ready s c inst) (ht : i.stackType? c = some (params, results))
    (hops : a.operands = ws ++ below) (hws : Value.FitAll s.funcs.size ws params.reverse)
    (he : executeNumeric s a i = some st) : st.Falls s a c results below := by
  obtain ⟨⟨r, ops⟩, hr, rfl⟩ := Option.map_eq_some_iff.mp he
  obtain ⟨rfl, hv⟩ := numericResult?_typed ht hws (hops ▸ hr)
  cases r with
  | error cause => exact .trap (.refl h.store)
  | ok v => exact .next (.refl h.store) (hv v rfl) h.locals

/-! ## Variables -/

theorem Activation.Ready.instanceOf? (h : a.Ready s c inst) : instanceOf? s a = some inst := h.found

/-- The instruction leaves one value, and the store as it is. -/
theorem Activation.Ready.falls_value (h : a.Ready s c inst) {v : Value} {k : Kind}
    (hv : v.Fits s.funcs.size k) : (Step.next s (a.leaving (v :: below))).Falls s a c [k] below :=
  have hvs : Value.FitAll s.funcs.size [v] [k].reverse := .cons hv .nil
  .next (.refl h.store) hvs h.locals

/-- The instruction leaves one value, and leads to another store. -/
theorem Activation.Ready.falls_value_after (h : a.Ready s c inst) {s' : Store} (hs : s.Leads s')
    {v : Value} {k : Kind} (hv : v.Fits s'.funcs.size k) :
    (Step.next s' (a.leaving (v :: below))).Falls s a c [k] below :=
  have hvs : Value.FitAll s'.funcs.size [v] [k].reverse := .cons hv .nil
  .next hs hvs (h.locals.imp fun _ _ hv => hv.mono hs.evolves.size_funcs)

/-- The instruction leaves nothing, and leads to another store. -/
theorem Activation.Ready.falls_nothing (h : a.Ready s c inst) {s' : Store} (hs : s.Leads s') :
    (Step.next s' (a.leaving below)).Falls s a c [] below :=
  have hvs : Value.FitAll s'.funcs.size [] ([] : List Kind).reverse := .nil
  .next hs hvs (h.locals.imp fun _ _ hv => hv.mono hs.evolves.size_funcs)

/-- The instruction does nothing to the operands, and leads to another store. -/
theorem Activation.Ready.falls_next (h : a.Ready s c inst) {s' : Store} (hs : s.Leads s')
    (hops : a.operands = below) : (Step.next s' a.next).Falls s a c [] below := by
  subst hops
  exact h.falls_nothing hs

/-- The global that an index leads to. -/
theorem Activation.Ready.global (h : a.Ready s c inst) {n : Nat} {t : GlobalType}
    (ht : c.globals[n]? = some t) {place : Nat} {g : Global} (hp : inst.globals[n]? = some place)
    (hg : s.globals[place]? = some g) : g.type = t := by
  rw [h.context.globals] at ht
  obtain ⟨place', hp', g', hg', htype⟩ := h.typed.globals n t ht
  obtain rfl := Option.some.inj (hp.symm.trans hp')
  obtain rfl := Option.some.inj (hg.symm.trans hg')
  exact htype

theorem Indexed.set {type? : Nat → Option Kind} {xs : Array Value} {n m : Nat} {v : Value}
    {k : Kind} (h : Indexed type? xs (Value.Fits m)) (hk : type? n = some k) (hv : v.Fits m k) :
    Indexed type? (xs.setIfInBounds n v) (Value.Fits m) := by
  intro index t ht
  obtain ⟨x, hx, hfits⟩ := h index t ht
  refine exists_setIfInBounds hx (fun heq => ?_) hfits
  subst heq
  rw [hk] at ht
  cases ht
  exact hv

theorem executeVariable_typed (h : a.Ready s c inst) (ht : i.stackType? c = some (params, results))
    (hops : a.operands = ws ++ below) (hws : Value.FitAll s.funcs.size ws params.reverse)
    (he : executeVariable s a i = some st) : st.Falls s a c results below := by
  unfold executeVariable at he
  rw [hops] at he
  cases i with
  | select kind =>
    cases kind with
    | none => cases ht
    | some k =>
      simp only [Instr.stackType?] at ht
      split at ht
      · cases ht
        obtain ⟨b, y, x, rfl, hb, hy, hx⟩ := Value.FitAll.three hws
        obtain ⟨b, rfl⟩ := hb.number
        cases he
        -- Whichever is selected has the kind of both.
        refine h.falls_value ?_
        split
        · exact hx
        · exact hy
      · cases ht
  | localGet n =>
    obtain ⟨k, hk, heq⟩ := Option.map_eq_some_iff.mp ht
    cases heq
    cases hws
    obtain ⟨v, hv, rfl⟩ := Option.map_eq_some_iff.mp he
    obtain ⟨v', hv', hfits⟩ := h.locals n k hk
    obtain rfl : v = v' := by simpa [hv] using hv'
    exact h.falls_value hfits
  | localSet n =>
    obtain ⟨k, hk, heq⟩ := Option.map_eq_some_iff.mp ht
    cases heq
    obtain ⟨v, rfl, hv⟩ := Value.FitAll.one hws
    cases he
    have hvs : Value.FitAll s.funcs.size [] ([] : List Kind).reverse := .nil
    exact .next (.refl h.store) hvs (h.locals.set hk hv)
  | localTee n =>
    obtain ⟨k, hk, heq⟩ := Option.map_eq_some_iff.mp ht
    cases heq
    obtain ⟨v, rfl, hv⟩ := Value.FitAll.one hws
    cases he
    have hvs : Value.FitAll s.funcs.size [v] [k].reverse := .cons hv .nil
    exact .next (.refl h.store) hvs (h.locals.set hk hv)
  | globalGet n =>
    obtain ⟨t, htype, heq⟩ := Option.map_eq_some_iff.mp ht
    cases heq
    cases hws
    simp [h.instanceOf?, Option.bind_eq_some_iff] at he
    obtain ⟨place, hp, g, hg, rfl⟩ := he
    -- The type of the context is the one that the global has.
    obtain rfl := h.global htype hp hg
    exact h.falls_value (h.store.globals place g hg)
  | globalSet n =>
    simp [Instr.stackType?, Option.bind_eq_some_iff, guard] at ht
    obtain ⟨t, htype, hw, rfl, rfl⟩ := ht
    obtain ⟨v, rfl, hv⟩ := Value.FitAll.one hws
    simp [h.instanceOf?, Option.bind_eq_some_iff] at he
    obtain ⟨place, hp, g, hg, rfl⟩ := he
    obtain rfl := h.global htype hp hg
    exact h.falls_nothing (h.store.setGlobal hg hw hv)
  | refNull k =>
    simp only [Instr.stackType?] at ht
    split at ht
    · rename_i hk
      cases ht
      cases hws
      cases he
      exact h.falls_value (Value.fits_null hk)
    · cases ht
  | refFunc f =>
    simp [Instr.stackType?, Option.bind_eq_some_iff, guard] at ht
    obtain ⟨-, -, rfl, rfl⟩ := ht
    cases hws
    simp [h.instanceOf?, Option.bind_eq_some_iff] at he
    obtain ⟨place, hp, rfl⟩ := he
    exact h.falls_value ⟨rfl, h.typed.within place (Array.mem_of_getElem? hp)⟩
  | drop | refIsNull => cases ht
  | _ => cases he

/-! ## Memories

A memory holds bytes, which are of any kind that they are read as; so it is only the addresses that
have a kind, and the type of the memory that must be the same afterwards. -/

theorem loadedValue?_fits {n : Nat} {access : Access} {bytes : List UInt8} {v : Value}
    (h : loadedValue? access bytes = some v) : v.Fits n access.kind := by
  unfold loadedValue? at h
  dsimp only at h
  split at h <;> cases h <;> rename_i hk <;> exact ⟨hk.symm, trivial⟩

theorem Memory.type_of_put (m : Memory) (offset : Nat) (bytes : List UInt8) :
    (m.put offset bytes).type = m.type := by
  induction bytes generalizing m offset with
  | nil => rfl
  | cons b rest ih => exact ih _ _

theorem Memory.type_of_write? {m m' : Memory} {offset : Nat} {bytes : List UInt8}
    (h : m.write? offset bytes = some m') : m'.type = m.type := by
  unfold write? at h
  split at h
  · cases h
    exact m.type_of_put offset bytes
  · cases h

theorem Memory.type_of_grow? {m m' : Memory} {delta : Nat} (h : m.grow? delta = some m') :
    m'.type = m.type := by
  unfold grow? at h
  split at h <;> cases h
  rfl

theorem Value.fits_ofIndex {n : Nat} (wide : Bool) (x : Nat) :
    (Value.ofIndex wide x).Fits n (if wide then .i64 else .i32) := by
  cases wide <;> exact ⟨rfl, trivial⟩

theorem Value.fits_failedGrowth {n : Nat} (wide : Bool) :
    (Value.failedGrowth wide).Fits n (if wide then .i64 else .i32) := by
  cases wide <;> exact ⟨rfl, trivial⟩

theorem memoryOf?_eq_some {n place : Nat} {m : Memory} (h : memoryOf? s a n = some (place, m)) :
    ∃ i, s.instances[a.instance_]? = some i ∧ i.memories[n]? = some place ∧
      s.memories[place]? = some m := by
  simpa [memoryOf?, Guest.instanceOf?, Option.bind_eq_some_iff] using h

/-- The memory that an index leads to. -/
theorem Activation.Ready.memory (h : a.Ready s c inst) {n : Nat} {t : MemoryType}
    (ht : c.memories[n]? = some t) {place : Nat} {m : Memory}
    (hm : memoryOf? s a n = some (place, m)) : m.type.wide = t.wide := by
  rw [h.context.memories] at ht
  obtain ⟨place', hp', m', hm', hsuits⟩ := h.typed.memories n t ht
  obtain ⟨i, hi, hp, hm⟩ := memoryOf?_eq_some hm
  obtain rfl : inst = i := by simpa [h.found] using hi
  obtain rfl := Option.some.inj (hp.symm.trans hp')
  obtain rfl := Option.some.inj (hm.symm.trans hm')
  exact hsuits.wide

/-- A memory is replaced by one of the same type. -/
theorem Activation.Ready.putMemory (h : a.Ready s c inst) {n place : Nat} {m m' : Memory}
    (hm : memoryOf? s a n = some (place, m)) (htype : m'.type = m.type) :
    s.Leads (s.putMemory place m') :=
  let ⟨_, _, _, hplace⟩ := memoryOf?_eq_some hm
  h.store.putMemory hplace htype

theorem Activation.Ready.falls_outside (h : a.Ready s c inst) {code : TrapCode}
    (he : outside s code = some st) : st.Falls s a c results below := by
  cases he
  exact .trap (.refl h.store)

/-- A value is loaded, or nothing is there. -/
theorem Activation.Ready.falls_load (h : a.Ready s c inst) {access : Access}
    {read : Option (List UInt8)}
    (he : (match read with
      | some bytes => do return .next s (a.leaving ((← loadedValue? access bytes) :: below))
      | none => outside s .memoryOutOfBounds) = some st) : st.Falls s a c [access.kind] below := by
  split at he
  · obtain ⟨v, hv, rfl⟩ := by simpa [Option.bind_eq_some_iff] using he
    exact h.falls_value (loadedValue?_fits hv)
  · exact h.falls_outside he

/-- Bytes are written to a memory, or have no place there. -/
theorem Activation.Ready.falls_write (h : a.Ready s c inst) {n place address : Nat} {m : Memory}
    {bytes : List UInt8} (hm : memoryOf? s a n = some (place, m))
    (he : (match m.write? address bytes with
      | some m => some (.next (s.putMemory place m) (a.leaving below))
      | none => outside s .memoryOutOfBounds) = some st) : st.Falls s a c [] below := by
  split at he
  · rename_i hwrite
    cases he
    exact h.falls_nothing (h.putMemory hm (Memory.type_of_write? hwrite))
  · exact h.falls_outside he

section MemoryInstructions

variable (h : a.Ready s c inst) (hops : a.operands = ws ++ below)
  (hws : Value.FitAll s.funcs.size ws params.reverse)

include h hops hws

/-- A load leaves a value of the kind that its access reads. -/
theorem Activation.Ready.load_falls {access : Access} {arg : MemArg}
    (ht : (Instr.load access arg).stackType? c = some (params, results))
    (he : executeMemory s a (.load access arg) = some st) : st.Falls s a c results below := by
  unfold executeMemory at he
  rw [hops] at he
  simp [Instr.stackType?, Option.bind_eq_some_iff] at ht
  obtain ⟨k, -, rfl, rfl⟩ := ht
  -- The typing tells how many operands there are, and the run which memory is meant and where in
  -- it.
  obtain ⟨base, rfl, -⟩ := Value.FitAll.one hws
  simp [Option.bind_eq_some_iff] at he
  obtain ⟨place, m, hm, address, -, he⟩ := he
  exact h.falls_load he

/-- An atomic load does what a load does, or traps at an address that is not aligned. -/
theorem Activation.Ready.atomicLoad_falls {access : Access} {arg : MemArg}
    (ht : (Instr.atomicLoad access arg).stackType? c = some (params, results))
    (he : executeMemory s a (.atomicLoad access arg) = some st) : st.Falls s a c results below := by
  unfold executeMemory at he
  rw [hops] at he
  simp [Instr.stackType?, Option.bind_eq_some_iff] at ht
  obtain ⟨k, -, rfl, rfl⟩ := ht
  obtain ⟨base, rfl, -⟩ := Value.FitAll.one hws
  simp [Option.bind_eq_some_iff] at he
  obtain ⟨place, m, hm, address, -, he⟩ := he
  split at he
  · exact h.falls_load he
  · exact h.falls_outside he

/-- Nobody wakes a thread that waits: the wait ends at once, with a reason, or it traps. -/
theorem Activation.Ready.atomicWait32_falls {arg : MemArg}
    (ht : (Instr.atomicWait32 arg).stackType? c = some (params, results))
    (he : executeMemory s a (.atomicWait32 arg) = some st) : st.Falls s a c results below := by
  unfold executeMemory at he
  rw [hops] at he
  simp [Instr.stackType?, Option.bind_eq_some_iff] at ht
  obtain ⟨k, -, rfl, rfl⟩ := ht
  obtain ⟨limit, expected, base, rfl, -, hexpected, -⟩ := Value.FitAll.three hws
  obtain ⟨expected, rfl⟩ := hexpected.number
  simp [Option.bind_eq_some_iff] at he
  obtain ⟨place, m, hm, address, -, he⟩ := he
  -- It may trap for three reasons, and only afterwards does the value in the memory matter.
  split at he
  · split at he
    · exact h.falls_outside he
    · split at he
      · cases he
        exact .trap (.refl h.store)
      · cases he
        refine h.falls_value ?_
        split <;> exact ⟨rfl, trivial⟩
  · exact h.falls_outside he

/-- A store leaves nothing, and a memory of the same type. -/
theorem Activation.Ready.store_falls {access : Access} {arg : MemArg}
    (ht : (Instr.store access arg).stackType? c = some (params, results))
    (he : executeMemory s a (.store access arg) = some st) : st.Falls s a c results below := by
  unfold executeMemory at he
  rw [hops] at he
  simp [Instr.stackType?, Option.bind_eq_some_iff] at ht
  obtain ⟨k, -, rfl, rfl⟩ := ht
  obtain ⟨v, base, rfl, -, -⟩ := Value.FitAll.two hws
  simp [Option.bind_eq_some_iff] at he
  obtain ⟨place, m, hm, x, -, address, -, he⟩ := he
  exact h.falls_write hm he

/-- The size of a memory has the kind of its addresses. -/
theorem Activation.Ready.memorySize_falls {n : Nat}
    (ht : (Instr.memorySize n).stackType? c = some (params, results))
    (he : executeMemory s a (.memorySize n) = some st) : st.Falls s a c results below := by
  unfold executeMemory at he
  rw [hops] at he
  obtain ⟨t, htype, heq⟩ := Option.map_eq_some_iff.mp ht
  cases heq
  cases hws
  simp [Option.bind_eq_some_iff] at he
  obtain ⟨place, m, hm, rfl⟩ := he
  exact h.falls_value (h.memory htype hm ▸ Value.fits_ofIndex _ _)

/-- The size before the growth, or the number that stands for a failure, has the kind of the
memory's addresses. -/
theorem Activation.Ready.memoryGrow_falls {n : Nat}
    (ht : (Instr.memoryGrow n).stackType? c = some (params, results))
    (he : executeMemory s a (.memoryGrow n) = some st) : st.Falls s a c results below := by
  unfold executeMemory at he
  rw [hops] at he
  obtain ⟨t, htype, heq⟩ := Option.map_eq_some_iff.mp ht
  cases heq
  obtain ⟨delta, rfl, -⟩ := Value.FitAll.one hws
  simp [Option.bind_eq_some_iff] at he
  obtain ⟨place, m, hm, delta, -, he⟩ := he
  have hwide := h.memory htype hm
  split at he
  · rename_i hgrow
    cases he
    have hs := h.putMemory hm (Memory.type_of_grow? hgrow)
    exact h.falls_value_after hs (hwide ▸ Value.fits_ofIndex _ _)
  · cases he
    exact h.falls_value (hwide ▸ Value.fits_failedGrowth _)

/-- A fill leaves nothing, and a memory of the same type. -/
theorem Activation.Ready.memoryFill_falls {n : Nat}
    (ht : (Instr.memoryFill n).stackType? c = some (params, results))
    (he : executeMemory s a (.memoryFill n) = some st) : st.Falls s a c results below := by
  unfold executeMemory at he
  rw [hops] at he
  obtain ⟨t, htype, heq⟩ := Option.map_eq_some_iff.mp ht
  cases heq
  obtain ⟨len, b, target, rfl, -, hb, -⟩ := Value.FitAll.three hws
  obtain ⟨b, rfl⟩ := hb.number
  simp [Option.bind_eq_some_iff] at he
  obtain ⟨place, m, hm, len, -, target, -, he⟩ := he
  split at he
  · cases he
    exact h.falls_nothing (h.putMemory hm (m.type_of_put _ _))
  · exact h.falls_outside he

/-- A copy leaves nothing, and a memory of the same type. -/
theorem Activation.Ready.memoryCopy_falls {t f : Nat}
    (ht : (Instr.memoryCopy t f).stackType? c = some (params, results))
    (he : executeMemory s a (.memoryCopy t f) = some st) : st.Falls s a c results below := by
  unfold executeMemory at he
  rw [hops] at he
  simp [Instr.stackType?, Option.bind_eq_some_iff] at ht
  obtain ⟨_, -, _, -, rfl, rfl⟩ := ht
  obtain ⟨len, source, target, rfl, -, -, -⟩ := Value.FitAll.three hws
  simp [Option.bind_eq_some_iff] at he
  obtain ⟨place, m, hm, _, _, -, len, -, source, -, he⟩ := he
  split at he
  · exact h.falls_outside he
  · obtain ⟨target, -, he⟩ := Option.bind_eq_some_iff.mp he
    exact h.falls_write hm he

/-- What a data segment is copied to is a memory of the same type, whether or not the segment has
been dropped. -/
theorem Activation.Ready.memoryInit_falls {segment n : Nat}
    (ht : (Instr.memoryInit segment n).stackType? c = some (params, results))
    (he : executeMemory s a (.memoryInit segment n) = some st) : st.Falls s a c results below := by
  unfold executeMemory at he
  rw [hops] at he
  simp [Instr.stackType?, Option.bind_eq_some_iff, guard] at ht
  obtain ⟨_, -, _, -, -, rfl, rfl⟩ := ht
  obtain ⟨len, source, target, rfl, hlen, hsource, -⟩ := Value.FitAll.three hws
  obtain ⟨len, rfl⟩ := hlen.number
  obtain ⟨source, rfl⟩ := hsource.number
  obtain ⟨⟨place, m⟩, hm, he⟩ := Option.bind_eq_some_iff.mp he
  obtain ⟨_, -, he⟩ := Option.bind_eq_some_iff.mp he
  obtain ⟨dropped, -, he⟩ := Option.bind_eq_some_iff.mp he
  obtain ⟨data, -, he⟩ := Option.bind_eq_some_iff.mp he
  generalize (if dropped = true then [] else data.bytes.toList) = bytes at he
  dsimp only at he
  split at he
  · exact h.falls_outside he
  · obtain ⟨target, -, he⟩ := Option.bind_eq_some_iff.mp he
    exact h.falls_write hm he

/-- A dropped segment is all that changes in the instance. -/
theorem Activation.Ready.dataDrop_falls {segment : Nat}
    (ht : (Instr.dataDrop segment).stackType? c = some (params, results))
    (he : executeMemory s a (.dataDrop segment) = some st) : st.Falls s a c results below := by
  unfold executeMemory at he
  rw [hops] at he
  simp [Instr.stackType?, Option.bind_eq_some_iff, guard] at ht
  obtain ⟨_, -, -, rfl, rfl⟩ := ht
  cases hws
  simp [h.instanceOf?] at he
  subst he
  refine h.falls_next (h.store.setInstance h.found ?_) hops
  exact ⟨rfl, rfl, rfl, rfl, rfl⟩

theorem executeMemory_typed (ht : i.stackType? c = some (params, results))
    (he : executeMemory s a i = some st) : st.Falls s a c results below := by
  cases i with
  | load access arg => exact h.load_falls hops hws ht he
  | atomicLoad access arg => exact h.atomicLoad_falls hops hws ht he
  | atomicWait32 arg => exact h.atomicWait32_falls hops hws ht he
  | store access arg => exact h.store_falls hops hws ht he
  | memorySize n => exact h.memorySize_falls hops hws ht he
  | memoryGrow n => exact h.memoryGrow_falls hops hws ht he
  | memoryFill n => exact h.memoryFill_falls hops hws ht he
  | memoryCopy t f => exact h.memoryCopy_falls hops hws ht he
  | memoryInit segment n => exact h.memoryInit_falls hops hws ht he
  | dataDrop segment => exact h.dataDrop_falls hops hws ht he
  | _ => cases he

end MemoryInstructions

/-! ## Tables

A table holds references. What an instruction puts into one must have been of the right kind before,
wherever it comes from: from the stack, from the same table, from another one, or from a segment
(`Table.Within`). -/

/-- A table has the type of another one, and holds references that it has or that are given. -/
structure Table.Within (t : Table) (refs : List Ref) (t' : Table) : Prop where
  type : t'.type = t.type
  elements : ∀ r ∈ t'.elements, r ∈ t.elements ∨ r ∈ refs

theorem Array.mem_setIfInBounds {α : Type} {xs : Array α} {n : Nat} {x y : α}
    (h : y ∈ xs.setIfInBounds n x) : y ∈ xs ∨ y = x := by
  obtain ⟨m, hm⟩ := Array.mem_iff_getElem?.mp h
  rcases getElem?_setIfInBounds hm with ⟨-, rfl⟩ | hm
  · exact .inr rfl
  · exact .inl (Array.mem_of_getElem? hm)

theorem Table.within_of_set? {t t' : Table} {index : Nat} {r : Ref} (h : t.set? index r = some t') :
    t.Within [r] t' := by
  unfold set? at h
  split at h <;> cases h
  exact ⟨rfl, fun r' hr' => (Array.mem_setIfInBounds hr').imp_right List.mem_singleton.mpr⟩

theorem Table.within_of_grow? {t t' : Table} {delta : Nat} {r : Ref} (h : t.grow? delta r = some t') :
    t.Within [r] t' := by
  unfold grow? at h
  split at h <;> cases h
  refine ⟨rfl, fun r' hr' => (Array.mem_append.mp hr').imp_right fun hr' => ?_⟩
  exact List.mem_singleton.mpr (Array.mem_replicate.mp hr').2

theorem Table.within_of_write? {t t' : Table} {index : Nat} {refs : List Ref}
    (h : t.write? index refs = some t') : t.Within refs t' := by
  unfold write? at h
  split at h <;> cases h
  refine ⟨rfl, ?_⟩
  suffices ∀ (ps : List (Ref × Nat)) (es : Array Ref),
      ∀ r ∈ ps.foldl (fun es p => es.setIfInBounds p.2 p.1) es, r ∈ es ∨ r ∈ ps.map (·.1) by
    simpa using this (refs.zipIdx index) t.elements
  intro ps
  induction ps with
  | nil => exact fun es r hr => .inl hr
  | cons p ps ih =>
    intro es r hr
    rcases ih _ r hr with hr | hr
    · rcases Array.mem_setIfInBounds hr with hr | rfl
      · exact .inl hr
      · exact .inr (List.mem_cons_self ..)
    · exact .inr (List.mem_cons_of_mem _ hr)

theorem tableOf?_eq_some {n place : Nat} {t : Table} (h : tableOf? s a n = some (place, t)) :
    ∃ i, s.instances[a.instance_]? = some i ∧ i.tables[n]? = some place ∧
      s.tables[place]? = some t := by
  simpa [tableOf?, Guest.instanceOf?, Option.bind_eq_some_iff] using h

/-- The table that an index leads to. -/
theorem Activation.Ready.table (h : a.Ready s c inst) {n : Nat} {type : TableType}
    (ht : c.tables[n]? = some type) {place : Nat} {t : Table}
    (hfound : tableOf? s a n = some (place, t)) : t.type.element = type.element := by
  rw [h.context.tables] at ht
  obtain ⟨place', hp', t', ht', helement⟩ := h.typed.tables n type ht
  obtain ⟨i, hi, hp, ht⟩ := tableOf?_eq_some hfound
  obtain rfl := Option.some.inj (h.found.symm.trans hi)
  obtain rfl := Option.some.inj (hp.symm.trans hp')
  obtain rfl := Option.some.inj (ht.symm.trans ht')
  exact helement

theorem Activation.Ready.element (h : a.Ready s c inst) {n place : Nat} {t : Table}
    (hfound : tableOf? s a n = some (place, t)) {r : Ref} (hr : r ∈ t.elements) :
    (Value.ref r).Fits s.funcs.size t.type.element :=
  let ⟨_, _, _, ht⟩ := tableOf?_eq_some hfound
  h.store.tables place t ht r hr

/-- A table is given references of its kind. -/
theorem Activation.Ready.putTable (h : a.Ready s c inst) {n place : Nat} {t t' : Table}
    {refs : List Ref} (hfound : tableOf? s a n = some (place, t)) (ht : t.Within refs t')
    (hrefs : ∀ r ∈ refs, (Value.ref r).Fits s.funcs.size t.type.element) :
    s.Leads (s.putTable place t') := by
  obtain ⟨_, _, _, hplace⟩ := tableOf?_eq_some hfound
  refine h.store.putTable hplace ht.type fun r hr => ?_
  rcases ht.elements r hr with hr | hr
  · exact h.element hfound hr
  · exact hrefs r hr

theorem Value.Fits.reference {n : Nat} {v : Value} {k : Kind} {r : Ref} (hv : v.Fits n k)
    (h : v = .ref r) : ∀ r' ∈ [r], (Value.ref r').Fits n k := by
  intro r' hr'
  obtain rfl := List.mem_singleton.mp hr'
  exact h ▸ hv

/-- References are written to a table, or have no place there. -/
theorem Activation.Ready.falls_tableWrite (h : a.Ready s c inst) {n place index : Nat} {t : Table}
    {refs : List Ref} (hfound : tableOf? s a n = some (place, t))
    (hrefs : ∀ r ∈ refs, (Value.ref r).Fits s.funcs.size t.type.element)
    (he : (match t.write? index refs with
      | some t => some (.next (s.putTable place t) (a.leaving below))
      | none => outside s .tableOutOfBounds) = some st) : st.Falls s a c [] below := by
  split at he
  · rename_i hwrite
    cases he
    exact h.falls_nothing (h.putTable hfound (Table.within_of_write? hwrite) hrefs)
  · exact h.falls_outside he

section TableInstructions

variable (h : a.Ready s c inst) (hops : a.operands = ws ++ below)
  (hws : Value.FitAll s.funcs.size ws params.reverse)

include h hops hws

/-- An element of a typed table has the kind that the table is declared with. -/
theorem Activation.Ready.tableGet_falls {n : Nat}
    (ht : (Instr.tableGet n).stackType? c = some (params, results))
    (he : executeTable s a (.tableGet n) = some st) : st.Falls s a c results below := by
  unfold executeTable at he
  rw [hops] at he
  obtain ⟨type, htype, heq⟩ := Option.map_eq_some_iff.mp ht
  cases heq
  obtain ⟨index, rfl, -⟩ := Value.FitAll.one hws
  obtain ⟨⟨place, t⟩, hfound, he⟩ := Option.bind_eq_some_iff.mp he
  obtain ⟨index, -, he⟩ := Option.bind_eq_some_iff.mp he
  split at he
  · rename_i hget
    cases he
    have hr := h.element hfound (Array.mem_of_getElem? hget)
    exact h.falls_value (h.table htype hfound ▸ hr)
  · exact h.falls_outside he

/-- The reference that is put into a table has the kind of its elements. -/
theorem Activation.Ready.tableSet_falls {n : Nat}
    (ht : (Instr.tableSet n).stackType? c = some (params, results))
    (he : executeTable s a (.tableSet n) = some st) : st.Falls s a c results below := by
  unfold executeTable at he
  rw [hops] at he
  obtain ⟨type, htype, heq⟩ := Option.map_eq_some_iff.mp ht
  cases heq
  obtain ⟨v, index, rfl, hv, -⟩ := Value.FitAll.two hws
  cases v with
  | ref r =>
    obtain ⟨⟨place, t⟩, hfound, he⟩ := Option.bind_eq_some_iff.mp he
    obtain ⟨index, -, he⟩ := Option.bind_eq_some_iff.mp he
    split at he
    · rename_i hset
      cases he
      rw [← h.table htype hfound] at hv
      exact h.falls_nothing (h.putTable hfound (Table.within_of_set? hset) (hv.reference rfl))
    · exact h.falls_outside he
  | _ => cases he

/-- Tables have 32-bit indices. -/
theorem Activation.Ready.tableSize_falls {n : Nat}
    (ht : (Instr.tableSize n).stackType? c = some (params, results))
    (he : executeTable s a (.tableSize n) = some st) : st.Falls s a c results below := by
  unfold executeTable at he
  rw [hops] at he
  obtain ⟨type, htype, heq⟩ := Option.map_eq_some_iff.mp ht
  cases heq
  cases hws
  obtain ⟨⟨place, t⟩, hfound, he⟩ := Option.bind_eq_some_iff.mp he
  cases he
  exact h.falls_value (Value.fits_ofIndex false _)

/-- The new elements are the reference that was given, which has the kind of the elements. -/
theorem Activation.Ready.tableGrow_falls {n : Nat}
    (ht : (Instr.tableGrow n).stackType? c = some (params, results))
    (he : executeTable s a (.tableGrow n) = some st) : st.Falls s a c results below := by
  unfold executeTable at he
  rw [hops] at he
  obtain ⟨type, htype, heq⟩ := Option.map_eq_some_iff.mp ht
  cases heq
  obtain ⟨delta, v, rfl, -, hv⟩ := Value.FitAll.two hws
  cases v with
  | ref r =>
    obtain ⟨⟨place, t⟩, hfound, he⟩ := Option.bind_eq_some_iff.mp he
    obtain ⟨delta, -, he⟩ := Option.bind_eq_some_iff.mp he
    split at he
    · rename_i hgrow
      cases he
      rw [← h.table htype hfound] at hv
      have hs := h.putTable hfound (Table.within_of_grow? hgrow) (hv.reference rfl)
      exact h.falls_value_after hs (Value.fits_ofIndex false _)
    · cases he
      exact h.falls_value (Value.fits_failedGrowth false)
  | _ => cases he

/-- A fill writes one reference, which has the kind of the elements, again and again. -/
theorem Activation.Ready.tableFill_falls {n : Nat}
    (ht : (Instr.tableFill n).stackType? c = some (params, results))
    (he : executeTable s a (.tableFill n) = some st) : st.Falls s a c results below := by
  unfold executeTable at he
  rw [hops] at he
  obtain ⟨type, htype, heq⟩ := Option.map_eq_some_iff.mp ht
  cases heq
  obtain ⟨len, v, index, rfl, -, hv, -⟩ := Value.FitAll.three hws
  cases v with
  | ref r =>
    obtain ⟨⟨place, t⟩, hfound, he⟩ := Option.bind_eq_some_iff.mp he
    obtain ⟨index, -, he⟩ := Option.bind_eq_some_iff.mp he
    obtain ⟨len, -, he⟩ := Option.bind_eq_some_iff.mp he
    rw [← h.table htype hfound] at hv
    refine h.falls_tableWrite hfound (fun r' hr' => ?_) he
    exact (List.mem_replicate.mp hr').2 ▸ hv
  | _ => cases he

/-- What is copied was in a table whose elements are of the same kind. -/
theorem Activation.Ready.tableCopy_falls {target source : Nat}
    (ht : (Instr.tableCopy target source).stackType? c = some (params, results))
    (he : executeTable s a (.tableCopy target source) = some st) : st.Falls s a c results below := by
  unfold executeTable at he
  rw [hops] at he
  simp [Instr.stackType?, Option.bind_eq_some_iff, guard] at ht
  obtain ⟨type, htype, type', htype', hkinds, rfl, rfl⟩ := ht
  obtain ⟨len, from_, to_, rfl, -, -, -⟩ := Value.FitAll.three hws
  obtain ⟨⟨place, t⟩, hfound, he⟩ := Option.bind_eq_some_iff.mp he
  obtain ⟨⟨place', f⟩, hfound', he⟩ := Option.bind_eq_some_iff.mp he
  obtain ⟨len, -, he⟩ := Option.bind_eq_some_iff.mp he
  obtain ⟨from_, -, he⟩ := Option.bind_eq_some_iff.mp he
  split at he
  · exact h.falls_outside he
  · obtain ⟨to_, -, he⟩ := Option.bind_eq_some_iff.mp he
    refine h.falls_tableWrite hfound (fun r hr => ?_) he
    have hr := h.element hfound'
      (Array.mem_toList_iff.mp (List.mem_of_mem_drop (List.mem_of_mem_take hr)))
    rwa [h.table htype' hfound', ← hkinds, ← h.table htype hfound] at hr

/-- The references of a segment have the kind that the module declares for it. -/
theorem Activation.Ready.tableInit_falls {segment n : Nat}
    (ht : (Instr.tableInit segment n).stackType? c = some (params, results))
    (he : executeTable s a (.tableInit segment n) = some st) : st.Falls s a c results below := by
  unfold executeTable at he
  rw [hops] at he
  simp [Instr.stackType?, Option.bind_eq_some_iff, guard] at ht
  obtain ⟨type, hkind, htype, rfl, rfl⟩ := ht
  obtain ⟨len, source, index, rfl, hlen, hsource, -⟩ := Value.FitAll.three hws
  obtain ⟨len, rfl⟩ := hlen.number
  obtain ⟨source, rfl⟩ := hsource.number
  obtain ⟨⟨place, t⟩, hfound, he⟩ := Option.bind_eq_some_iff.mp he
  obtain ⟨i, hi, he⟩ := Option.bind_eq_some_iff.mp he
  obtain rfl := Option.some.inj (h.found.symm.trans hi)
  dsimp only at he
  split at he
  · exact h.falls_outside he
  · obtain ⟨index, -, he⟩ := Option.bind_eq_some_iff.mp he
    refine h.falls_tableWrite hfound (fun r hr => ?_) he
    rw [h.context.elements, Array.getElem?_map] at hkind
    obtain ⟨e, helement, hkinds⟩ := Option.map_eq_some_iff.mp hkind
    have hr := elementRefs_fit h.typed h.store helement
      (List.mem_of_mem_drop (List.mem_of_mem_take hr))
    rwa [hkinds, ← h.table htype hfound] at hr

/-- A dropped segment is all that changes in the instance. -/
theorem Activation.Ready.elemDrop_falls {segment : Nat}
    (ht : (Instr.elemDrop segment).stackType? c = some (params, results))
    (he : executeTable s a (.elemDrop segment) = some st) : st.Falls s a c results below := by
  unfold executeTable at he
  rw [hops] at he
  obtain ⟨_, -, heq⟩ := Option.map_eq_some_iff.mp ht
  cases heq
  cases hws
  simp [h.instanceOf?] at he
  subst he
  refine h.falls_next (h.store.setInstance h.found ?_) hops
  exact ⟨rfl, rfl, rfl, rfl, rfl⟩

theorem executeTable_typed (ht : i.stackType? c = some (params, results))
    (he : executeTable s a i = some st) : st.Falls s a c results below := by
  cases i with
  | tableGet n => exact h.tableGet_falls hops hws ht he
  | tableSet n => exact h.tableSet_falls hops hws ht he
  | tableSize n => exact h.tableSize_falls hops hws ht he
  | tableGrow n => exact h.tableGrow_falls hops hws ht he
  | tableFill n => exact h.tableFill_falls hops hws ht he
  | tableCopy target source => exact h.tableCopy_falls hops hws ht he
  | tableInit segment n => exact h.tableInit_falls hops hws ht he
  | elemDrop segment => exact h.elemDrop_falls hops hws ht he
  | _ => cases he

end TableInstructions

/-- An instruction that is no control instruction takes operands of the kinds it says and leaves
others of the kinds it says, or traps. -/
theorem execute_typed {epoch : Nat} (h : a.Ready s c inst)
    (ht : i.stackType? c = some (params, results)) (hops : a.operands = ws ++ below)
    (hws : Value.FitAll s.funcs.size ws params.reverse) (hcontrol : i.isControl = false)
    (he : execute epoch s a i = some st) : st.Falls s a c results below := by
  unfold execute at he
  split at he <;> first
    | exact executeVariable_typed h ht hops hws he
    | exact executeTable_typed h hops hws ht he
    | exact executeMemory_typed h hops hws ht he
    | exact executeNumeric_typed h ht hops hws he
    | exact nomatch hcontrol

end Families

end WasmHost.Guest
