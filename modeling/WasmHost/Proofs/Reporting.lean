import WasmHost.Proofs.TrapRelay

/-!
# Failures are reported faithfully

In whatever world an embedder reaches, a call of a function or the making of an instance that fails
in the engine gives one error: a trap if the engine trapped, if a host function gave a trap, or if
guest code was running, and an error of the engine otherwise. Traps keep their message on the way,
through guest code and through closures that hand them on; codes are those of the engine's traps.

Two things are asked for at the same time: that errors are classified rightly at the boundary, and
that nothing is lost or invented when a trap is handed on from guest to host to guest. The first is
about one operation; it is in `Failures`. For the second a notion is needed of a closure that "hands
on" what it received, although closures are arbitrary programs. `GivesTrap.handedOn` asks for no
more than that the program *would* give a trap which it is given in the place in question. How it
decides to do so is left to it.

Codes do not travel. A host function that hands on a trap gives a message, and the trap that the
outer guest sees has no code; only a trap that the engine itself raised in the run that is reported
has one. The fields `engineTraps` and `hostTraps` differ in this.
-/

namespace WasmHost.Host

open Act

variable {κ : Type} {L : Ledger (Code κ)} {w w' : World (Code κ) Pool}

/-! ## Asking for guest code to be run

The two operations that come to run guest code on behalf of the host, a call and an instance with a
start function, have in common that they call a place. Whatever is shown of what happens inside is
shown once for both. -/

/-- Host code makes a call, or an instance that has a start function, and comes to call a place of a
store with arguments of the guest. The last arguments are the world in which it does, and the instance
on whose behalf. -/
inductive Asks (host : Runner (Code κ) Pool) (s place : Nat) (given : List Guest.Value) :
    {α : Type} → Job κ α → World (Code κ) Pool → Option Nat → World (Code κ) Pool → Prop
  | call {f : Handle} {vs : List Val} {g : Guest.Store} {w w' : World (Code κ) Pool}
      (huse : w.InUse s g) (hvs : ∀ v ∈ vs, w.user.LendsVal v)
      (henters : Func.Enters s f vs w place given w') :
      Asks host s place given (Func.call host s f vs) w none w'
  | start {module : Nat} {imports : List Item} {g : Guest.Store} {started : Guest.Started}
      {w w' : World (Code κ) Pool} (huse : w.InUse s g)
      (henters : Instance.Enters s module imports w (.ok started) w')
      (hstart : started.start = some place) (hgiven : given = []) :
      Asks host s place given (Instance.create host s module imports) w (some started.instance_) w'

namespace Asks

variable {host : Runner (Code κ) Pool} {s place : Nat} {given : List Guest.Value} {α : Type}
  {m : Job κ α} {default : Option Nat}

/-- Somebody has the use of the store. -/
theorem invariant (h : Asks host s place given m w default w') (hw : Invariant L w) :
    ∃ R known N, Invariant (R + .tenure s known none ::ₘ N) w' := by
  have hw₀ : Invariant (0 + L) w := by rwa [zero_add]
  cases h with
  | call huse hvs henters =>
    obtain ⟨type, packed, w₁, -, -, -, hpack, hadopt⟩ := henters
    obtain ⟨known, hs⟩ := hw.tenure_of_inUse huse
    have hw₁ := (packAll_leaves fun v hv => hw.has_of_lendsVal (hvs v hv)).run_value
      (hw₀.drain s).1 hpack
    have hs₁ : .tenure s known none ∈ Ledger.owns (Packed.sharesAll packed) + L :=
      Multiset.mem_add.mpr (.inr hs)
    have hw₂ := (adoptAll_leaves hs₁ fun x hx => Ledger.has_owns_add hx _).run_value hw₁ hadopt
    obtain ⟨N, hN⟩ := Multiset.exists_cons_of_mem hs₁
    exact ⟨0, known, N, hN ▸ hw₂⟩
  | start huse henters hstart hgiven =>
    obtain ⟨cell, store, places, -, -, -, -, -, -, hlink⟩ := henters
    obtain ⟨known, hs⟩ := hw.tenure_of_inUse huse
    have hw₁ : Invariant (0 + L) w' := Leaves.run_value (onGuest_leaves fun g =>
      Guest.instantiate_extends g _ _ places) (hw₀.drain s).1 hlink
    obtain ⟨N, rfl⟩ := Multiset.exists_cons_of_mem hs
    exact ⟨0, known, N, hw₁⟩

/-- If the engine answers with a failure that has no panic behind it, that is what is reported. -/
theorem run_error (h : Asks host s place given m w default w') {w₁ : World (Code κ) Pool}
    {failure : Guest.Failure}
    (hcall : (callPlace host s place default given).run w' = (.value (.error failure), w₁))
    (hquiet : w₁.kept? s = none) : ∃ w₂, m.run w = (.failure failure.toError, w₂) := by
  cases h with
  | call huse hvs henters => exact (Func.Fails.running henters hcall fun _ => hquiet).run
  | @start _ _ _ started _ _ huse henters hstart hgiven =>
    subst hgiven
    -- An instance is started by a call of its own.
    have hrun : (callStart host s started).run w' = (.value (.error failure), w₁) := by
      unfold callStart
      rw [hstart]
      exact run_bind_value hcall
    exact (Instance.Fails.starting henters hrun fun _ => hquiet).run

end Asks

/-! ## Closures that give traps

For any depth of nesting there is a derivation of `GivesTrap` that is as high, so that an induction
on it is one on the depth. -/

/-- Host code asks for guest code to be run, and guest code comes to call a closure: what the closure
does, and the world in which it starts. -/
inductive RunsClosure (embedder : Embedder κ) : {α : Type} → Job κ α → World (Code κ) Pool →
    Job κ (Except Trap (List Val)) → World (Code κ) Pool → Prop
  | intro {nesting s place key : Nat} {given args : List Guest.Value} {default caller : Option Nat}
      {α : Type} {m : Job κ α} {w w₁ w₂ w₃ : World (Code κ) Pool} {r : Registration (Code κ)}
      {params : List Val} (hasks : Asks (embedder.hostTo nesting) s place given m w default w₁)
      (hout : PlaceCallsOut (embedder.hostTo nesting) s place default given key caller args w₁ w₂)
      (hr : w₂.registry.get? key = some r) (hdelivers : Delivers r key args w₂ params w₃) :
      RunsClosure embedder m w (embedder.hostTo nesting r.code r.captures ⟨r.store, caller⟩ params) w₃

/-- A closure comes to give a trap with a message: one of its own, or one that it received from a call
and hands on. In the course of that call another closure gave a trap with the message. -/
inductive GivesTrap (embedder : Embedder κ) (message : String) :
    Job κ (Except Trap (List Val)) → World (Code κ) Pool → Prop
  | own {c : Job κ (Except Trap (List Val))} {w w' : World (Code κ) Pool} {t : Trap}
      (hrun : c.run w = (.value (.error t), w')) (hmessage : t.message = message) :
      GivesTrap embedder message c w
  | handedOn {α : Type} {m : Job κ α} {k : Outcome α → Job κ (Except Trap (List Val))}
      {c c' : Job κ (Except Trap (List Val))} {w w₁ w₂ : World (Code κ) Pool}
      (hsteps : Act.StepsTo (m.after k) w₁ c w) (hruns : RunsClosure embedder m w₁ c' w₂)
      (hgives : GivesTrap embedder message c' w₂)
      (hon : ∀ t w₃, m.run w₁ = (.failure (.trap t), w₃) →
        ∃ w₄, (k (.failure (.trap t))).run w₃ = (.value (.error t), w₄)) :
      GivesTrap embedder message c w

section Closures

variable {embedder : Embedder κ} {α : Type} {m : Job κ α} {c : Job κ (Except Trap (List Val))}

/-- The closure keeps to a ledger of the world in which it starts. -/
theorem RunsClosure.safe (h : RunsClosure embedder m w c w') (hw : Invariant L w) :
    ∃ R N Q, c.Safe Q N ∧ Invariant (R + N) w' := by
  obtain @⟨nesting, s, place, key, given, args, default, caller, _, _, _, w₁, w₂, _, r, params, hasks,
    hout, hr, hdelivers⟩ := h
  obtain ⟨R, known, N, hw₁⟩ := hasks.invariant hw
  obtain ⟨r', hs, hr', hw₂⟩ := hout.invariant (embedder.fair_hostTo nesting) hw₁
  obtain rfl : r = r' := Option.some.inj (hr.symm.trans hr')
  subst hs
  exact ⟨R, hdelivers.safe (embedder.fair_hostTo nesting) (Multiset.mem_cons_self _ _) hw₂ caller⟩

/-- If the closure gives a trap, whoever asked gets one with its message and without a code. -/
theorem RunsClosure.run (h : RunsClosure embedder m w c w') (hw : Invariant L w) {t : Trap}
    {w'' : World (Code κ) Pool} (hrun : c.run w' = (.value (.error t), w'')) :
    ∃ frames w₁, m.run w = (.failure (.trap ⟨t.message, none, frames⟩), w₁) := by
  obtain @⟨nesting, s, place, key, given, args, default, caller, _, _, _, w₁, w₂, _, r, params, hasks,
    hout, hr, hdelivers⟩ := h
  obtain ⟨R, known, N, hw₁⟩ := hasks.invariant hw
  obtain ⟨r', hs, hr', hw₂⟩ := hout.invariant (embedder.fair_hostTo nesting) hw₁
  obtain rfl : r = r' := Option.some.inj (hr.symm.trans hr')
  subst hs
  obtain ⟨w₃, g, hcall, hg, hkept⟩ := hdelivers.callHost_trap (embedder.fair_hostTo nesting)
    (Multiset.mem_cons_self _ _) hw₂ hrun
  obtain ⟨g', w₄, -, hkept', hplace⟩ := hout.run_error hcall hg
  obtain ⟨w₅, hfails⟩ := hasks.run_error hplace (hkept'.trans hkept)
  exact ⟨_, w₅, hfails⟩

/-- Whether a trap is a closure's own or not, it has the message. A closure that hands on a trap has
received it in a call, where by the hypothesis of the induction the inner closure gave it; the call
fails with it, and the program goes on as `hon` says. That worlds in the middle of a closure keep
the invariant is what the ledgers are carried along for. -/
theorem GivesTrap.run {message : String} (h : GivesTrap embedder message c w)
    {Q : Outcome (Except Trap (List Val)) → Ledger (Code κ) → Prop} {R N : Ledger (Code κ)}
    (hc : c.Safe Q N) (hw : Invariant (R + N) w) :
    ∃ t w', c.run w = (.value (.error t), w') ∧ t.message = message := by
  induction h generalizing Q R N with
  | own hrun hmessage => exact ⟨_, _, hrun, hmessage⟩
  | @handedOn _ _ k _ _ _ _ _ hsteps hruns hgives hon ih =>
    obtain ⟨N', -, hw₁⟩ := hsteps.safe hc hw
    obtain ⟨R', N'', Q', hc', hw₂⟩ := hruns.safe hw₁
    -- The call in which the trap was received fails with it, and it is handed on.
    obtain ⟨t, w₃, hrun, rfl⟩ := ih hc' hw₂
    obtain ⟨frames, w₄, hcall⟩ := hruns.run hw₁ hrun
    obtain ⟨w₅, hk⟩ := hon _ _ hcall
    refine ⟨⟨t.message, none, frames⟩, w₅, hsteps.run.trans ?_, rfl⟩
    rw [run_after, hcall]
    exact hk

end Closures

/-! ## Reports

The classification (`classes`, `codes`, `limits`) holds of failures as such. The other fields are
about worlds that are reached. -/

/-- Guest code was running exactly if frames were active. -/
theorem Guest.Store.backtrace_eq_nil {g : Guest.Store} {active : List Frame} :
    g.backtrace active = [] ↔ active = [] := by
  cases active <;> simp [Guest.Store.backtrace]

/-- Failing calls, and failing makings of instances, report faithfully what has failed. -/
structure World.ReportsFailures (w : World (Code κ) Pool) (embedder : Embedder κ) (nesting : Nat) :
    Prop where
  /-- A call fails exactly if it is turned down before the engine is asked for anything, or if the
  engine answers with a failure that has no panic behind it, and then with what that comes to. -/
  calls : ∀ (s : Nat) (f : Handle) (args : List Val) (e : Error),
    (∃ w', (Func.call (embedder.hostTo nesting) s f args).run w = (.failure e, w')) ↔
      Func.Rejects s f args w e ∨
        ∃ failure, Func.Fails (embedder.hostTo nesting) s f args w failure ∧ e = failure.toError
  /-- And so does the making of an instance. -/
  instances : ∀ (s module : Nat) (imports : List Item) (e : Error),
    (∃ w', (Instance.create (embedder.hostTo nesting) s module imports).run w = (.failure e, w')) ↔
      Instance.Rejects s module imports w e ∨
        ∃ failure, Instance.Fails (embedder.hostTo nesting) s module imports w failure ∧
          e = failure.toError
  /-- A failure comes to a trap if it is one of the engine or of a host function, or if guest code was
  running, and to an error of the engine otherwise. -/
  classes : ∀ failure : Guest.Failure,
    (failure.Traps ∧ failure.toError = .trap ⟨failure.message, failure.code?, failure.frames⟩) ∨
    (¬failure.Traps ∧ ∃ fault, failure.reason = .refusal fault ∧ failure.toError = .engine fault)
  /-- The code of a trap is that of the cause for which the engine trapped. -/
  codes : ∀ (failure : Guest.Failure) (c : TrapCode),
    failure.code? = some c ↔ failure.reason = .trap (.coded c)
  /-- A failure is due to a limit exactly if fuel or time have run out. -/
  limits : ∀ failure : Guest.Failure, failure.toError.isResourceLimit = true ↔
    failure.code? = some .outOfFuel ∨ failure.code? = some .interrupt
  /-- If guest code traps, its trap is reported, whatever host functions have given results before. -/
  engineTraps : ∀ {α : Type} (m : Job κ α) (s place : Nat) (given : List Guest.Value)
    (default : Option Nat) (w' : World (Code κ) Pool) (cause : TrapCause) (frames : List Frame),
    Asks (embedder.hostTo nesting) s place given m w default w' →
    PlaceTraps (embedder.hostTo nesting) s place default given cause frames w' →
    ∃ w'', m.run w = (.failure (.trap ⟨cause.message, cause.code?, frames⟩), w'')
  /-- If a host function that is called is refused its arguments, a trap without a code is reported
  if guest code was running, and otherwise an error of the engine. -/
  refusals : ∀ {α : Type} (m : Job κ α) (s place key : Nat) (given args : List Guest.Value)
    (default caller : Option Nat) (w₁ w₂ w₃ : World (Code κ) Pool) (fault : EngineFault),
    Asks (embedder.hostTo nesting) s place given m w default w₁ →
    PlaceCallsOut (embedder.hostTo nesting) s place default given key caller args w₁ w₂ →
    (callHost (embedder.hostTo nesting) s key caller args).run w₂ =
      (.value (.error (.refusal fault)), w₃) →
    ∃ g e w', w₂.guest? s = some g ∧ m.run w = (.failure e, w') ∧
      (g.exited = [] → e = .engine fault) ∧
      (g.exited ≠ [] → ∃ message frames, e = .trap ⟨message, none, frames⟩)
  /-- If a closure gives a trap, whether its own or one that it received, a trap with the same message
  and without a code is reported. -/
  hostTraps : ∀ {α : Type} (m : Job κ α) (c : Job κ (Except Trap (List Val)))
    (w' : World (Code κ) Pool) (message : String), RunsClosure embedder m w c w' →
    GivesTrap embedder message c w' →
    ∃ frames w'', m.run w = (.failure (.trap ⟨message, none, frames⟩), w'')

theorem Invariant.reportsFailures (hw : Invariant L w) (embedder : Embedder κ) (nesting : Nat) :
    w.ReportsFailures embedder nesting where
  calls s f args e := by
    constructor
    · rintro ⟨w', h⟩
      exact Func.rejects_or_fails (embedder.unfailing_hostTo nesting) h
    · rintro (h | ⟨failure, h, rfl⟩)
      · exact ⟨_, Func.run_of_rejects h _⟩
      · exact h.run
  instances s module imports e := by
    constructor
    · rintro ⟨w', h⟩
      exact Instance.rejects_or_fails (embedder.unfailing_hostTo nesting) h
    · rintro (h | ⟨failure, h, rfl⟩)
      · exact ⟨_, Instance.run_of_rejects h _⟩
      · exact h.run
  classes failure := by
    by_cases h : failure.Traps
    · exact .inl ⟨h, failure.toError_of_traps h⟩
    · exact .inr ⟨h, failure.toError_of_not_traps h⟩
  codes failure c := failure.code?_eq_some
  limits failure := by
    by_cases h : failure.Traps
    · rw [failure.toError_of_traps h]
      exact Trap.isResourceLimit_iff
    · obtain ⟨fault, hreason, he⟩ := failure.toError_of_not_traps h
      rw [he, failure.code?_eq_some, failure.code?_eq_some, hreason]
      simp [Error.isResourceLimit, Error.trap?]
  engineTraps m s place given default w' cause frames hasks htraps := by
    obtain ⟨w₁, hcall⟩ := htraps.run
    obtain ⟨R, known, N, hw'⟩ := hasks.invariant hw
    -- A trap of the engine is not the one that takes the place of a panic, so nothing is behind it.
    have hquiet := callPlace_quiet (embedder.fair_hostTo nesting) hw' hcall fun h => by cases h
    exact hasks.run_error hcall hquiet
  refusals m s place key given args default caller w₁ w₂ w₃ fault hasks hout hcall := by
    obtain ⟨R, known, N, hw₁⟩ := hasks.invariant hw
    obtain ⟨r, rfl, -, hw₂⟩ := hout.invariant (embedder.fair_hostTo nesting) hw₁
    obtain ⟨g₃, hg₃⟩ := callHost_guest? (embedder.fair_hostTo nesting) hw₂ hcall
    obtain ⟨g, w₄, hg, -, hplace⟩ := hout.run_error hcall hg₃
    have hquiet := callPlace_quiet (embedder.fair_hostTo nesting) hw₁ hplace fun h => by cases h
    obtain ⟨w₅, hrun⟩ := hasks.run_error hplace hquiet
    refine ⟨g, _, w₅, hg, hrun, fun hnone => ?_, fun hsome => ?_⟩
    · rw [Guest.Store.backtrace_eq_nil.mpr hnone]
      rfl
    · exact ⟨_, _, Guest.Failure.toError_of_traps (.inr (.inr fun h =>
        hsome (Guest.Store.backtrace_eq_nil.mp h)))⟩
  hostTraps m c w' message hruns hgives := by
    obtain ⟨R, N, Q, hc, hw'⟩ := hruns.safe hw
    obtain ⟨t, w'', hrun, rfl⟩ := hgives.run hc hw'
    exact hruns.run hw hrun

/-- In every world that an embedder reaches, inside of closures at any depth as well, failures are
reported faithfully. -/
theorem Embedder.failures_reported (embedder : Embedder κ) (depth : Nat)
    (programs : List (Program κ Unit)) (order : List Nat) (nesting : Nat) :
    ((embedder.start depth programs).run order).world.ReportsFailures embedder nesting := by
  obtain ⟨Ls, -, hw⟩ := (embedder.safe_start depth programs).run order
  exact hw.reportsFailures embedder nesting

/-- Whatever the time, the guest function that traps does so with its first instruction. -/
theorem Specimen.traps (now : Nat) :
    (Guest.advance now workBound
      (Guest.enter now none { store with suspended := [[]] } [] 2 [])).2 =
    .trapped (.coded .unreachableCodeReached) [⟨0, none, some 1, none, some 31⟩] := by
  with_unfolding_all rfl

/-- The trap of a guest function is reported with its code and the frame that was active. -/
theorem Embedder.failures_reported_lent :
    ∃ w, (Func.call (Specimen.embedder.hostTo 1) 0 7 []).run Specimen.world =
      (.failure (.trap ⟨(TrapCause.coded .unreachableCodeReached).message, some .unreachableCodeReached,
        [⟨0, none, some 1, none, some 31⟩]⟩), w) := by
  have hreports : Specimen.world.ReportsFailures Specimen.embedder 1 :=
    Specimen.world_eq ▸ Specimen.embedder.failures_reported 1 Specimen.programs Specimen.order 1
  obtain ⟨L, hw⟩ := Specimen.invariant_world
  have hg := Specimen.guest?_drain
  have henters : Func.Enters 0 7 [] Specimen.world 2 [] (Specimen.world.drain 0) :=
    ⟨⟨[], []⟩, [], _, run_funcPlace ((hw.drain 0).2 7 _ Specimen.trapHandle),
      run_bind_value (run_guest hg), rfl, rfl, rfl⟩
  have htraps : PlaceTraps (Specimen.embedder.hostTo 1) 0 2 none [] (.coded .unreachableCodeReached)
      [⟨0, none, some 1, none, some 31⟩] (Specimen.world.drain 0) := by
    refine ⟨_, _, hg, rfl, ?_⟩
    exact ThreadTraps.here rfl (World.guest?_setGuest hg _) (Prod.ext rfl (Specimen.traps _))
  exact hreports.engineTraps _ 0 2 [] none _ _ _ (.call Specimen.inUse_store (by simp) henters) htraps

end WasmHost.Host
