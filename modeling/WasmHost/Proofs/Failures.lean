import WasmHost.Proofs.Isolation
import WasmHost.Proofs.Unfailing

/-!
# What failing calls report

A call of a function, or the making of an instance, fails by a check of its own, before the engine is
asked for anything, or because the engine answers with a failure. In the second case the error is
`Failure.toError` of that failure, unless a panic is behind it. Nothing else in a call fails.

That an error is reported correctly has two halves. What fails has to lead to the right error, and
an error has to come from what it says. The second half is the harder one, since an error might be
added anywhere on the way; it is why `Unfailing` goes through everything that a call does. What
remains is a list of places at which a call can fail, and the statements here are equivalences on
this list.

So `Rejects`, `Enters` and `Fails` are not definitions of convenience. They follow the operation in
its own order and say at each stage, in terms of the world, that it has come so far. A failure of
the engine is described by what guest code does there, and not by the error that comes of it, or
else the equivalence would say nothing.
-/

namespace WasmHost.Guest.Failure

variable {f : Failure}

/-- A failure is to be a trap: it is one of the engine or of a host function, or guest code was
running when it was raised. The last case is that of a refusal in the midst of guest code, which has
frames to be shown. The error is a trap then, since it is the guest that was stopped by it. -/
def Traps (f : Failure) : Prop :=
  (∃ cause, f.reason = .trap cause) ∨ (∃ message, f.reason = .hostTrap message) ∨ f.frames ≠ []

theorem toError_of_traps (h : f.Traps) : f.toError = .trap ⟨f.message, f.code?, f.frames⟩ := by
  obtain ⟨reason, frames⟩ := f
  cases reason with
  | refusal fault =>
    cases frames with
    | nil => simp [Traps] at h
    | cons frame frames => rfl
  | _ => rfl

theorem toError_of_not_traps (h : ¬f.Traps) :
    ∃ fault, f.reason = .refusal fault ∧ f.toError = .engine fault := by
  obtain ⟨reason, frames⟩ := f
  cases reason with
  | trap cause => exact absurd (.inl ⟨cause, rfl⟩) h
  | hostTrap message => exact absurd (.inr (.inl ⟨message, rfl⟩)) h
  | refusal fault =>
    cases frames with
    | nil => exact ⟨fault, rfl, rfl⟩
    | cons frame frames => exact absurd (.inr (.inr (List.cons_ne_nil _ _))) h

/-- Only a trap of the engine has a code, that of its cause. -/
theorem code?_eq_some {c : TrapCode} : f.code? = some c ↔ f.reason = .trap (.coded c) := by
  obtain ⟨reason, frames⟩ := f
  cases reason <;> simp [code?, TrapCause.code?_eq_some]

end WasmHost.Guest.Failure

namespace WasmHost

theorem TrapCode.isResourceLimit_iff {c : TrapCode} :
    c.isResourceLimit = true ↔ c = .outOfFuel ∨ c = .interrupt := by
  cases c <;> simp [isResourceLimit]

theorem Trap.isResourceLimit_iff {t : Trap} :
    t.isResourceLimit = true ↔ t.code = some .outOfFuel ∨ t.code = some .interrupt := by
  obtain ⟨message, code, frames⟩ := t
  cases code <;> simp [isResourceLimit, TrapCode.isResourceLimit_iff]

end WasmHost

namespace WasmHost.Host

open Act

variable {κ σ α : Type}

/-! ## Failures of the engine

Raising looks for a payload, so a failure gives its error only if there is none. A refusal that has
no frames is not even looked at for this: no closure can have been running. -/

/-- A failure is raised as the error that it comes to if it is none that may stand for a panic, or no
panic is there. -/
theorem Act.run_raise_of_quiet {s : Nat} {w : World κ σ} {f : Guest.Failure}
    (h : f.Traps → w.kept? s = none) : (raise s f : Act κ σ α).run w = (.failure f.toError, w) := by
  by_cases hf : f.Traps
  · exact run_raise_of_none (h hf) f
  · obtain ⟨fault, -, he⟩ := f.toError_of_not_traps hf
    unfold raise
    rw [he]
    rfl

theorem Act.raise_fails {s : Nat} {w w' : World κ σ} {f : Guest.Failure} {e : Error}
    (h : (raise s f : Act κ σ α).run w = (.failure e, w')) :
    e = f.toError ∧ (f.Traps → w.kept? s = none) := by
  cases hkept : w.kept? s with
  | none =>
    rw [run_raise_of_none hkept] at h
    cases h
    exact ⟨rfl, fun _ => rfl⟩
  | some p =>
    by_cases hf : f.Traps
    · have htake : (make (·.takePanic s) : Act κ σ (Option Payload)).run w =
          (.value (some p), (w.takePanic s).2) :=
        congrArg (fun o => (Outcome.value o, (w.takePanic s).2)) hkept
      unfold raise at h
      rw [f.toError_of_traps hf] at h
      -- With a payload there, a trap becomes a panic and no failure.
      cases (run_bind_panic (run_bind_value htake)).symm.trans h
    · rw [run_raise_of_quiet fun h => absurd h hf] at h
      cases h
      exact ⟨rfl, fun h => absurd h hf⟩

/-- What is there is found. -/
theorem Act.run_orAbort {f : Fault} {o : Option α} {w w' : World κ σ} {a : α}
    (h : (orAbort f o).run w = (.value a, w')) : o = some a ∧ w' = w := by
  cases o with
  | none => cases h
  | some b =>
    cases h
    exact ⟨rfl, rfl⟩

/-! ## Calls of functions

The order of the checks is part of what is said. Whoever gives too few arguments to a function whose
store has no fuel left gets to know about the arguments. -/

namespace Func

variable {host : Runner κ σ} {s : Nat} {f : Handle} {args : List Val} {w : World κ σ}

/-- A call is turned down before the engine is asked for anything: the arguments do not fit. -/
def Rejects (s : Nat) (f : Handle) (args : List Val) (w : World κ σ) (e : Error) : Prop :=
  ∃ place type, (funcPlace s f).run (w.drain s) = (.value place, w.drain s) ∧
    (typeAt s place).run (w.drain s) = (.value type, w.drain s) ∧ checkParams type args = .error e

/-- A call comes to the engine: the arguments fit and are handed over, and a place is to be called
with them. -/
def Enters (s : Nat) (f : Handle) (args : List Val) (w : World κ σ) (place : Nat)
    (given : List Guest.Value) (w' : World κ σ) : Prop :=
  ∃ type packed w₁, (funcPlace s f).run (w.drain s) = (.value place, w.drain s) ∧
    (typeAt s place).run (w.drain s) = (.value type, w.drain s) ∧ checkParams type args = .ok () ∧
    (packAll s args).run (w.drain s) = (.value packed, w₁) ∧
    (adoptAll s packed).run w₁ = (.value given, w')

/-- The engine answers a call with a failure, and if it is a trap, then no panic is behind it. A
result that has no form on the wire is a failure, too. -/
inductive Fails (host : Runner κ σ) (s : Nat) (f : Handle) (args : List Val) (w : World κ σ) :
    Guest.Failure → Prop
  | running {place : Nat} {given : List Guest.Value} {w₁ w₂ : World κ σ} {failure : Guest.Failure}
      (henters : Enters s f args w place given w₁)
      (hcall : (callPlace host s place none given).run w₁ = (.value (.error failure), w₂))
      (hquiet : failure.Traps → w₂.kept? s = none) : Fails host s f args w failure
  | result {place : Nat} {given results : List Guest.Value} {w₁ w₂ w₃ : World κ σ}
      {fault : EngineFault} (henters : Enters s f args w place given w₁)
      (hcall : (callPlace host s place none given).run w₁ = (.value (.ok results), w₂))
      (hexpose : (exposeAll s results).run w₂ = (.value (.error fault), w₃)) :
      Fails host s f args w ⟨.refusal fault, []⟩

theorem Fails.run {failure : Guest.Failure} (h : Fails host s f args w failure) :
    ∃ w', (Func.call host s f args).run w = (.failure failure.toError, w') := by
  cases h with
  | running henters hcall hquiet =>
    obtain ⟨type, packed, w₁, hplace, htype, hfit, hpack, hadopt⟩ := henters
    obtain ⟨u, w₄, hrelease, -⟩ := releasePackedAll_settling packed _
    refine ⟨w₄, (run_bind_value (run_context s w)).trans ((run_bind_value hplace).trans
      ((run_bind_value htype).trans ?_))⟩
    rw [hfit]
    refine (run_bind_value rfl).trans ((run_bind_value hpack).trans
      (run_ensuring_failure ?_ hrelease))
    exact (run_bind_value hadopt).trans ((run_bind_value hcall).trans (run_raise_of_quiet hquiet))
  | result henters hcall hexpose =>
    obtain ⟨type, packed, w₁, hplace, htype, hfit, hpack, hadopt⟩ := henters
    obtain ⟨u, w₄, hrelease, -⟩ := releasePackedAll_settling packed _
    refine ⟨w₄, (run_bind_value (run_context s w)).trans ((run_bind_value hplace).trans
      ((run_bind_value htype).trans ?_))⟩
    rw [hfit]
    refine (run_bind_value rfl).trans ((run_bind_value hpack).trans
      (run_ensuring_failure ?_ hrelease))
    exact (run_bind_value hadopt).trans ((run_bind_value hcall).trans (run_bind_value hexpose))

theorem run_of_rejects {e : Error} (h : Rejects s f args w e) (host : Runner κ σ) :
    (Func.call host s f args).run w = (.failure e, w.drain s) := by
  obtain ⟨place, type, hplace, htype, hfit⟩ := h
  refine (run_bind_value (run_context s w)).trans ((run_bind_value hplace).trans
    ((run_bind_value htype).trans ?_))
  rw [hfit]
  rfl

/-- A call that fails does so in one of the two ways. The operation is taken apart from the front.
Each stage either fails itself, which only two of them can, or it has given a value, and the failure
is one of the stages that are left. -/
theorem rejects_or_fails (hhost : Unfailing host) {e : Error} {w' : World κ σ}
    (h : (Func.call host s f args).run w = (.failure e, w')) :
    Rejects s f args w e ∨ ∃ failure, Fails host s f args w failure ∧ e = failure.toError := by
  have h := (run_bind_value (run_context s w)).symm.trans h
  obtain ⟨place, w₁, hplace, h⟩ := run_bind_failure h (funcPlace_unfailing s f)
  obtain rfl := (funcPlace_looking s f).run_value hplace
  obtain ⟨type, w₁, htype, h⟩ := run_bind_failure h (typeAt_unfailing s place)
  obtain rfl := (typeAt_looking s place).run_value htype
  cases hfit : checkParams type args with
  | error e' =>
    rw [hfit] at h
    cases h
    exact .inl ⟨place, type, hplace, htype, hfit⟩
  | ok u =>
    rw [hfit] at h
    have h := (run_bind_value (m := Pure.pure ()) rfl).symm.trans h
    obtain ⟨packed, w₁, hpack, h⟩ := run_bind_failure h (packAll_unfailing s args)
    obtain ⟨w₂, h⟩ := run_ensuring_fails h (.of_settling (releasePackedAll_settling packed))
    obtain ⟨given, w₃, hadopt, h⟩ := run_bind_failure h (adoptAll_unfailing s packed)
    have henters : Enters s f args w place given w₃ :=
      ⟨type, packed, w₁, hplace, htype, hfit, hpack, hadopt⟩
    obtain ⟨res, w₄, hcall, h⟩ := run_bind_failure h (callPlace_unfailing hhost s place none given)
    cases res with
    | error failure =>
      obtain ⟨rfl, hquiet⟩ := raise_fails h
      exact .inr ⟨failure, .running henters hcall hquiet, rfl⟩
    | ok results =>
      obtain ⟨res, w₅, hexpose, h⟩ := run_bind_failure h (exposeAll_unfailing s results)
      cases res with
      | error fault =>
        cases h
        exact .inr ⟨_, .result henters hcall hexpose, rfl⟩
      | ok packed =>
        obtain ⟨w₆, h⟩ := run_ensuring_fails h (.of_settling (releasePackedAll_settling packed))
        exact absurd (congrArg Prod.fst h) (unpackAll_unfailing s packed _ e)

end Func

/-! ## Instances

An instance is refused for its engine before its imports are counted. Then the engine links it,
which may fail and leave nothing or leave a part of it, and at the end a start function may fail in
any of the ways of a call. -/

namespace Instance

variable {host : Runner κ σ} {s module : Nat} {imports : List Item} {w : World κ σ}

/-- The making of an instance is turned down before the engine is asked for anything: the module is
one of another engine, or the imports are not as many as it needs. -/
inductive Rejects (s module : Nat) (imports : List Item) (w : World κ σ) : Error → Prop
  | engine {cell : ModuleCell} {store : StoreCell} (hmodule : (w.drain s).modules[module]? = some cell)
      (hstore : (w.drain s).stores[s]? = some store) (hengine : store.engine ≠ cell.engine) :
      Rejects s module imports w (.engine .foreignEngine)
  | count {cell : ModuleCell} {store : StoreCell} (hmodule : (w.drain s).modules[module]? = some cell)
      (hstore : (w.drain s).stores[s]? = some store) (hengine : store.engine = cell.engine)
      (hcount : imports.length ≠ cell.compiled.code.imports.size) :
      Rejects s module imports w (.importCount cell.compiled.code.imports.size imports.length)

/-- An engine has the bulk operations. -/
def hasBulk (w : World κ σ) (e : Nat) : Bool :=
  ((w.engines[e]?).map fun e => e.config.features.features.bulkMemory).getD true

/-- The making of an instance comes to the engine, which links it. -/
def Enters (s module : Nat) (imports : List Item) (w : World κ σ)
    (res : Except Guest.Failure Guest.Started) (w' : World κ σ) : Prop :=
  ∃ cell store places, (w.drain s).modules[module]? = some cell ∧
    (w.drain s).stores[s]? = some store ∧ store.engine = cell.engine ∧
    imports.length = cell.compiled.code.imports.size ∧
    (checkAll s imports).run (w.drain s) = (.value (), w.drain s) ∧
    (Instance.places s imports).run (w.drain s) = (.value places, w.drain s) ∧
    (onGuest s fun g => Guest.instantiate g (hasBulk (w.drain s) store.engine) cell.compiled.code
      places).run (w.drain s) = (.value res, w')

/-- The engine answers the making of an instance with a failure, in linking it or in running its
start function. If it is a trap, then no panic is behind it. -/
inductive Fails (host : Runner κ σ) (s module : Nat) (imports : List Item) (w : World κ σ) :
    Guest.Failure → Prop
  | linking {failure : Guest.Failure} {w₁ : World κ σ}
      (henters : Enters s module imports w (.error failure) w₁)
      (hquiet : failure.Traps → w₁.kept? s = none) : Fails host s module imports w failure
  | starting {started : Guest.Started} {failure : Guest.Failure} {w₁ w₂ : World κ σ}
      (henters : Enters s module imports w (.ok started) w₁)
      (hstart : (callStart host s started).run w₁ = (.value (.error failure), w₂))
      (hquiet : failure.Traps → w₂.kept? s = none) : Fails host s module imports w failure

/-- What is done with what the engine answers when it has linked an instance. -/
def linked (host : Runner κ σ) (s : Nat) : Except Guest.Failure Guest.Started → Act κ σ Handle
  | .error failure => raise s failure
  | .ok started => do
    match ← callStart host s started with
    | .error failure => raise s failure
    | .ok () => make (·.newHandle s (.instance_ s started.instance_))

theorem Enters.run {res : Except Guest.Failure Guest.Started} {w' : World κ σ}
    (h : Enters s module imports w res w') (host : Runner κ σ) :
    (Instance.create host s module imports).run w = (linked host s res).run w' := by
  obtain ⟨cell, store, places, hmodule, hstore, hengine, hcount, hcheck, hplaces, hlink⟩ := h
  refine (run_bind_value (run_context s w)).trans ((run_bind_value rfl).trans ?_)
  rw [hmodule]
  refine (run_bind_value rfl).trans ?_
  rw [hstore]
  refine (run_bind_value rfl).trans ?_
  rw [if_neg (not_not.mpr hengine), if_neg (not_not.mpr hcount)]
  refine (run_bind_value hcheck).trans ((run_bind_value hplaces).trans
    ((run_bind_value hlink).trans ?_))
  cases res <;> rfl

theorem Fails.run {failure : Guest.Failure} (h : Fails host s module imports w failure) :
    ∃ w', (Instance.create host s module imports).run w = (.failure failure.toError, w') := by
  cases h with
  | linking henters hquiet => exact ⟨_, (henters.run host).trans (run_raise_of_quiet hquiet)⟩
  | starting henters hstart hquiet =>
    exact ⟨_, (henters.run host).trans ((run_bind_value hstart).trans (run_raise_of_quiet hquiet))⟩

theorem run_of_rejects {e : Error} (h : Rejects s module imports w e) (host : Runner κ σ) :
    (Instance.create host s module imports).run w = (.failure e, w.drain s) := by
  cases h with
  | engine hmodule hstore hengine =>
    refine (run_bind_value (run_context s w)).trans ((run_bind_value rfl).trans ?_)
    rw [hmodule]
    refine (run_bind_value rfl).trans ?_
    rw [hstore]
    refine (run_bind_value rfl).trans ?_
    rw [if_pos hengine]
    rfl
  | count hmodule hstore hengine hcount =>
    refine (run_bind_value (run_context s w)).trans ((run_bind_value rfl).trans ?_)
    rw [hmodule]
    refine (run_bind_value rfl).trans ?_
    rw [hstore]
    refine (run_bind_value rfl).trans ?_
    rw [if_neg (not_not.mpr hengine), if_pos hcount]
    rfl

/-- A making of an instance that fails does so in one of the two ways. -/
theorem rejects_or_fails (hhost : Unfailing host) {e : Error} {w' : World κ σ}
    (h : (Instance.create host s module imports).run w = (.failure e, w')) :
    Rejects s module imports w e ∨
      ∃ failure, Fails host s module imports w failure ∧ e = failure.toError := by
  have h := (run_bind_value (run_context s w)).symm.trans h
  have h := (run_bind_value (m := Act.world) rfl).symm.trans h
  obtain ⟨cell, w₁, hfound, h⟩ := run_bind_failure h .orAbort
  obtain ⟨hmodule, rfl⟩ := run_orAbort hfound
  obtain ⟨store, w₁, hfound, h⟩ := run_bind_failure h .orAbort
  obtain ⟨hstore, rfl⟩ := run_orAbort hfound
  by_cases hengine : store.engine = cell.engine
  swap
  · rw [if_pos hengine] at h
    cases h
    exact .inl (.engine hmodule hstore hengine)
  rw [if_neg (not_not.mpr hengine)] at h
  by_cases hcount : imports.length = cell.compiled.code.imports.size
  swap
  · rw [if_pos hcount] at h
    cases h
    exact .inl (.count hmodule hstore hengine hcount)
  rw [if_neg (not_not.mpr hcount)] at h
  obtain ⟨u, w₁, hcheck, h⟩ := run_bind_failure h (checkAll_unfailing s imports)
  obtain rfl := (checkAll_looking s imports).run_value hcheck
  obtain ⟨places, w₁, hplaces, h⟩ := run_bind_failure h (places_unfailing s imports)
  obtain rfl := (places_looking s imports).run_value hplaces
  obtain ⟨res, w₁, hlink, h⟩ := run_bind_failure h (onGuest_unfailing s _)
  have henters : Enters s module imports w res w₁ :=
    ⟨cell, store, places, hmodule, hstore, hengine, hcount, hcheck, hplaces, hlink⟩
  cases res with
  | error failure =>
    obtain ⟨rfl, hquiet⟩ := raise_fails h
    exact .inr ⟨failure, .linking henters hquiet, rfl⟩
  | ok started =>
    obtain ⟨res, w₂, hstart, h⟩ := run_bind_failure h (callStart_unfailing hhost s started)
    cases res with
    | error failure =>
      obtain ⟨rfl, hquiet⟩ := raise_fails h
      exact .inr ⟨failure, .starting henters hstart hquiet, rfl⟩
    | ok u => cases h

end Instance

end WasmHost.Host
