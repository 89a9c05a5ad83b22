import WasmHost.Proofs.Refusals
import WasmHost.Proofs.Transit

/-!
# Closures that give functions of other stores

A closure that gives a function of another store panics: the guest that called it gets a trap, and
the store keeps the panic. `CallsOut` says how a run of guest code comes to call the closure, perhaps
after other closures that gave results. Nothing runs after the trap, so the run ends with it, and the
call that had entered the guest finds the panic and panics.

A closure runs in the middle of a call, and its values are checked after it. By then guest code is
waiting for them, so nobody can simply be told that the values are refused: the panic has to pass
through the guest like any other. So this is the second half of what is said about refusals, and it
takes the same way as a panic of the closure itself.

The question how a run comes to the closure cannot be left open. It would be easy to prove the
statement for calls of a host function by host code, and it would say nothing of guests. `CallsOut`
is defined by what runs: a stretch of guest code up to the next call out, and if the closure that is
called there gives results, another stretch, and so on. It is about any guest code, not only about
functions that pass on.
-/

namespace WasmHost.Host

open Act

variable {κ σ α : Type}

/-- A closure is called with arguments, and gives values of its type of which one is a function of
another store. -/
def World.GivesForeign (w : World κ σ) (host : Runner κ σ) (r : Registration κ) (key : Nat)
    (instance_ : Option Nat) (args : List Guest.Value) : Prop :=
  ∃ packed params values w₀ w₁ w₂,
    (exposeAll r.store args).run w = (.value (.ok packed), w₀) ∧
    (unpackAll r.store packed).run (w₀.lookup r.store key (packed.map Packed.kind)).2 =
      (.value params, w₁) ∧
    (host r.code r.captures ⟨r.store, instance_⟩ params).run w₁ = (.value (.ok values), w₂) ∧
    checkResults r.type values = none ∧ ∃ v ∈ values, w₂.ForeignVal r.store v

/-! ## Closures -/

section Closures

variable [Keeper κ σ] {host : Runner κ σ} (hhost : Fair host) {R L : Ledger κ}
  {known : List (Pin κ)} {w w₁ w₂ : World κ σ} {r : Registration κ} {key : Nat}
  {instance_ : Option Nat} {params values : List Val}

include hhost

/-- A closure that gives a function of another store panics, if what it gives is of its type. -/
theorem runClosure_refused {packed : List (Packed r.store)}
    (hs : .tenure r.store ((key, r) :: known) none ∈ L)
    (hheld : ∀ x ∈ Packed.sharesAll packed, L.Has x) (hw : Invariant (R + L) w)
    (hunpack : (unpackAll r.store packed).run w = (.value params, w₁))
    (hrun : (host r.code r.captures ⟨r.store, instance_⟩ params).run w₁ =
      (.value (.ok values), w₂)) (hfit : checkResults r.type values = none)
    (hf : ∃ v ∈ values, w₂.ForeignVal r.store v) :
    (runClosure host r instance_ packed).Refused (fun _ => False) w := by
  have hinv₁ := (unpackAll_leaves (Ledger.has_of_tenure hs) hheld).run_value hw hunpack
  have hinv₂ := (hhost key r known instance_ params _ (Multiset.mem_add.mpr (.inr hs))
    fun x hx => Ledger.has_owns_add hx _).run_value hinv₁ hrun
  refine .first hunpack (.ensuring (releaseVals_settling params) (.first hrun ?_))
  refine .ensuring (releaseVals_settling values) ?_
  rw [hfit]
  refine .here (packAll_refused (fun v hv => hinv₂.val_cases (fun x hx => ?_) r.store) hf)
  exact Ledger.has_owns_add (List.mem_flatMap.mpr ⟨v, hv, hx⟩) _

/-- The guest gets a trap for it, and the store keeps the panic. -/
theorem callHost_foreign {args : List Guest.Value}
    (hs : .tenure r.store ((key, r) :: known) none ∈ L) (hw : Invariant (R + L) w)
    (hf : w.GivesForeign host r key instance_ args) :
    ∃ w', (callHost host r.store key instance_ args).run w =
      (.value (.error (.hostTrap panicMessage)), w') ∧
      w'.kept? r.store = some (.text foreignMessage) := by
  obtain ⟨packed, params, values, w₀, w₁, w₂, hexpose, hunpack, hrun, hfit, hf⟩ := hf
  have hinv₀ := (exposeAll_leaves _ args).run_value hw hexpose
  have hs₀ : .tenure r.store ((key, r) :: known) none ∈
      Ledger.owns (Packed.sharesAll packed) + L := Multiset.mem_add.mpr (.inr hs)
  -- The closure is found, and it panics.
  obtain ⟨hfound, hsound⟩ := hinv₀.apart.lookup (Multiset.mem_add.mpr (.inl hs₀))
    (List.mem_cons_self ..) (packed.map Packed.kind)
  have hinv : Invariant (R + (Ledger.owns (Packed.sharesAll packed) + L))
      (w₀.lookup r.store key (packed.map Packed.kind)).2 := hinv₀.of_sound rfl hsound (.refl _)
  have hfind : (make (·.lookup r.store key (packed.map Packed.kind)) : Act κ σ _).run w₀ =
      (.value (some r), (w₀.lookup r.store key (packed.map Packed.kind)).2) :=
    congrArg (fun o => (Outcome.value o, (w₀.lookup r.store key (packed.map Packed.kind)).2)) hfound
  have hheld : ∀ x ∈ Packed.sharesAll packed, (Ledger.owns (Packed.sharesAll packed) + L).Has x :=
    fun x hx => Ledger.has_owns_add hx L
  obtain ⟨w₃, hpanic⟩ := (runClosure_refused hhost hs₀ hheld hinv hunpack hrun hfit hf).panics
  have hcaught : (catchPanic (runClosure host r instance_ packed)).run
      (w₀.lookup r.store key (packed.map Packed.kind)).2 =
      (.value (.error (.text foreignMessage)), w₃) := by
    rw [catchPanic, run_after, hpanic]
    rfl
  -- Until then the store has kept nothing.
  obtain ⟨N, hinv₃, hN⟩ := Safe.run (runClosure_leaves hhost instance_ hs₀ hheld) hinv
  rw [hpanic] at hinv₃ hN
  obtain rfl : N = Ledger.owns (Packed.sharesAll packed) + L := hN rfl
  obtain ⟨c, g, -, hg, hkept⟩ := hinv₃.tenured hs₀
  have hstash : (update (·.stashPanic r.store (.text foreignMessage)) : Act κ σ Unit).run w₃ =
      (.value (), w₃.keep r.store (some (.text foreignMessage))) := by
    rw [← World.stashPanic_eq hkept]
    rfl
  -- What was packed is released, and the store keeps the panic.
  obtain ⟨w₄, hrelease, hkeep⟩ := releasePackedAll_aside (s := r.store) packed w₃
  obtain ⟨u, w₅, hrelease', hsettles⟩ := releasePackedAll_settling packed w₃
  obtain ⟨-, rfl⟩ : Outcome.value u = .value () ∧ w₅ = w₄ :=
    Prod.mk.inj (hrelease'.symm.trans hrelease)
  obtain ⟨c, hc, -⟩ := Option.bind_eq_some_iff.mp ((hsettles.guests r.store).trans hg)
  refine ⟨_, (run_bind_value hexpose).trans (run_ensuring_value ((run_bind_value hfind).trans
    ((run_bind_value hcaught).trans (run_bind_value hstash))) (hkeep _)), ?_⟩
  simp [World.keep, World.kept?, World.modifyStore, Array.getElem?_modify, hc]

end Closures

section InUse

variable [Keeper κ σ] {host : Runner κ σ} {R L : Ledger κ} {known : List (Pin κ)} {w w' : World κ σ}
  {r : Registration κ} {key : Nat} {caller : Option Nat} {args : List Guest.Value}

/-- A store is still in use when it has called a host function. -/
theorem callHost_guest? (hhost : Fair host)
    (hw : Invariant (R + .tenure r.store ((key, r) :: known) none ::ₘ L) w)
    {res : Except Guest.Reason (List Guest.Value)}
    (hcall : (callHost host r.store key caller args).run w = (.value res, w')) :
    ∃ g, w'.guest? r.store = some g := by
  obtain ⟨N, hw', hN⟩ := Safe.run (callHost_meets hhost rfl caller args) hw
  rw [hcall] at hw' hN
  obtain ⟨p, rfl, -⟩ := hN rfl
  obtain ⟨c, g, hc, hg, -⟩ := hw'.apart.hosted.tenured r.store _ p (Multiset.mem_filter.mpr
    ⟨Multiset.mem_add.mpr (.inl (Multiset.mem_cons_self _ _)), rfl⟩)
  exact ⟨g, by simp [World.guest?, hc, hg]⟩

end InUse

/-! ## Calling out

The definitions follow the recursion of `runThread`, cut at the calls out. That they agree with it
is `CallsNext.run`, from which everything else is derived by induction on `CallsOut`. -/

/-- A store whose guest code has stopped in order to call out. -/
def World.callingOut (w : World κ σ) (s : Nat) (g : Guest.Store) (thread : List Guest.Activation) :
    World κ σ :=
  (w.setGuest s g).setGuest s { g with
    exited := activeFrames g thread
    stackUsed := g.stackUsed + hostStackCost }

/-- How a thread goes on with the results of a host function. -/
def resuming (thread : List Guest.Activation) (results : List Guest.Value) (g : Guest.Store) :
    Guest.Progress :=
  Guest.resume { g with stackUsed := g.stackUsed - hostStackCost } thread results

/-- How a thread goes on when the host function that it called is over. -/
def answered (host : Runner κ σ) (s : Nat) (default : Option Nat) (fuel : Nat)
    (thread : List Guest.Activation) (active : List Frame) :
    Except Guest.Reason (List Guest.Value) → Act κ σ (Except Guest.Failure (List Guest.Value))
  | .error reason => do return .error ⟨reason, (← guest s).backtrace active⟩
  | .ok results => runThread host s default fuel (resuming thread results)

/-- A thread runs from one world to another, where it calls a host function. -/
def CallsNext (s : Nat) (default : Option Nat) (start : Guest.Store → Guest.Progress)
    (w : World κ σ) (key : Nat) (caller : Option Nat) (args : List Guest.Value)
    (thread : List Guest.Activation) (w' : World κ σ) : Prop :=
  ∃ now g g' type instance_, (epoch s : Act κ σ Nat).run w = (.value now, w) ∧ w.guest? s = some g ∧
    Guest.advance now workBound (start g) = (g', .called key type args instance_ thread) ∧
    instance_.or default = caller ∧ w.callingOut s g' thread = w'

/-- A thread runs from one world to another, where it calls a host function: the first that it calls,
or one that it calls after others that gave results. The number bounds the calls. -/
inductive CallsOut (host : Runner κ σ) (s : Nat) (default : Option Nat) (key : Nat)
    (caller : Option Nat) (args : List Guest.Value) (w' : World κ σ) :
    Nat → (Guest.Store → Guest.Progress) → World κ σ → Prop
  | next {fuel : Nat} {start : Guest.Store → Guest.Progress} {w : World κ σ}
      {thread : List Guest.Activation} (h : CallsNext s default start w key caller args thread w') :
      CallsOut host s default key caller args w' (fuel + 1) start w
  | later {fuel key₁ : Nat} {start : Guest.Store → Guest.Progress} {w w₁ w₂ : World κ σ}
      {caller₁ : Option Nat} {args₁ results : List Guest.Value} {thread : List Guest.Activation}
      (h : CallsNext s default start w key₁ caller₁ args₁ thread w₁)
      (hcall : (callHost host s key₁ caller₁ args₁).run w₁ = (.value (.ok results), w₂))
      (hrest : CallsOut host s default key caller args w' fuel (resuming thread results) w₂) :
      CallsOut host s default key caller args w' (fuel + 1) start w

/-- A call of a function is made from one world, and in another its guest code calls a host
function: the arguments fit and are handed over, and a place in the store is called. -/
def Func.CallsOut (host : Runner κ σ) (s : Nat) (f : Handle) (args : List Val) (key : Nat)
    (caller : Option Nat) (values : List Guest.Value) (w w' : World κ σ) : Prop :=
  ∃ place type packed given now g w₁ w₂,
    (funcPlace s f).run (w.drain s) = (.value place, w.drain s) ∧
    (typeAt s place).run (w.drain s) = (.value type, w.drain s) ∧
    checkParams type args = .ok () ∧
    (packAll s args).run (w.drain s) = (.value packed, w₁) ∧
    (adoptAll s packed).run w₁ = (.value given, w₂) ∧
    w₂.guest? s = some g ∧ (epoch s : Act κ σ Nat).run w₂ = (.value now, w₂) ∧
    Host.CallsOut host s none key caller values w' workBound
      (fun g => Guest.enter now none g [] place given)
      (w₂.setGuest s { g with suspended := g.exited :: g.suspended })

namespace CallsNext

variable {s key : Nat} {default caller : Option Nat} {start : Guest.Store → Guest.Progress}
  {args : List Guest.Value} {thread : List Guest.Activation} {w w₁ w₂ : World κ σ} {host : Runner κ σ}

/-- Nothing is run before the host function. The frames that count as active are set aside. -/
theorem run (h : CallsNext s default start w key caller args thread w₁)
    {res : Except Guest.Reason (List Guest.Value)}
    (hcall : (callHost host s key caller args).run w₁ = (.value res, w₂)) (fuel : Nat) :
    ∃ g, w₁.guest? s = some g ∧ (runThread host s default (fuel + 1) start).run w =
      (answered host s default fuel thread g.exited res).run w₂ := by
  obtain ⟨now, g, g', type, instance_, hnow, hg, hevent, rfl, rfl⟩ := h
  have hadvance := run_advance (σ := σ) start hg (congrArg Prod.snd hevent)
  rw [hevent] at hadvance
  have hactive := run_onGuest (σ := σ) (World.guest?_setGuest hg g') fun g =>
    let active := activeFrames g thread
    (active, { g with exited := active, stackUsed := g.stackUsed + hostStackCost })
  refine ⟨_, World.guest?_setGuest (World.guest?_setGuest hg g') _, ?_⟩
  refine (run_bind_value hnow).trans ((run_bind_value hadvance).trans ?_)
  refine (run_bind_value hactive).trans ((run_bind_value hcall).trans ?_)
  cases res <;> rfl

variable [Keeper κ σ] {R L : Ledger κ} {known : List (Pin κ)}

/-- The closure that is called is known from then on. -/
theorem invariant (h : CallsNext s default start w key caller args thread w₁)
    (hw : Invariant (R + .tenure s known none ::ₘ L) w)
    (hstart : ∀ g : Guest.Store, (start g).Among g.shape) :
    ∃ r : Registration κ, r.store = s ∧ w₁.registry.get? key = some r ∧
      Invariant (R + .tenure s ((key, r) :: known) none ::ₘ L) w₁ := by
  obtain ⟨now, g, g', type, instance_, hnow, hg, hevent, rfl, rfl⟩ := h
  obtain ⟨r, hr, hfound, hinv⟩ := advance_learns hw hg hstart (congrArg Prod.snd hevent)
  rw [hevent] at hinv
  have hactive := run_onGuest (σ := σ) (World.guest?_setGuest hg g') fun g =>
    let active := activeFrames g thread
    (active, { g with exited := active, stackUsed := g.stackUsed + hostStackCost })
  exact ⟨r, hr, hfound, (onGuest_leaves' fun g => rfl).run_value hinv hactive⟩

end CallsNext

namespace CallsOut

variable {s key fuel : Nat} {default caller : Option Nat} {start : Guest.Store → Guest.Progress}
  {args : List Guest.Value} {w w' w'' : World κ σ} {host : Runner κ σ}

/-- If the host function gives a trap, the run ends with it, and with the frames that were active. -/
theorem run_error (h : CallsOut host s default key caller args w' fuel start w)
    {reason : Guest.Reason} {g : Guest.Store}
    (hcall : (callHost host s key caller args).run w' = (.value (.error reason), w''))
    (hg : w''.guest? s = some g) :
    ∃ g', w'.guest? s = some g' ∧ (runThread host s default fuel start).run w =
      (.value (.error ⟨reason, g.backtrace g'.exited⟩), w'') := by
  induction h with
  | next h =>
    obtain ⟨g', hg', hrun⟩ := h.run hcall _
    exact ⟨g', hg', hrun.trans (run_bind_value (run_guest hg))⟩
  | later h hcall₁ _ ih =>
    obtain ⟨g', hg', hrest⟩ := ih
    obtain ⟨_, -, hrun⟩ := h.run hcall₁ _
    exact ⟨g', hg', hrun.trans hrest⟩

variable [Keeper κ σ] (hhost : Fair host) {R L : Ledger κ} {known : List (Pin κ)}

include hhost

/-- What is known of closures that have given results is forgotten; the closure that is called is
known. -/
theorem invariant (h : CallsOut host s default key caller args w' fuel start w)
    (hw : Invariant (R + .tenure s known none ::ₘ L) w)
    (hstart : ∀ g : Guest.Store, (start g).Among g.shape) :
    ∃ r : Registration κ, r.store = s ∧ w'.registry.get? key = some r ∧
      Invariant (R + .tenure s ((key, r) :: known) none ::ₘ L) w' := by
  induction h with
  | next h => exact h.invariant hw hstart
  | later h hcall _ ih =>
    obtain ⟨r, hr, -, hw₁⟩ := h.invariant hw hstart
    obtain ⟨N, hw₂, hN⟩ := Safe.run (callHost_meets hhost hr _ _) hw₁
    rw [hcall] at hw₂ hN
    obtain ⟨p, rfl, hp⟩ := hN rfl
    obtain rfl : p = none := by
      by_contra hne
      cases hp hne
    exact ih hw₂.forget fun g => Guest.resume_among (g.setStack_shape _) _

end CallsOut

/-! ## Calls -/

/-- A trap behind which there is a panic. -/
theorem Act.run_raise_of_kept {s : Nat} {w : World κ σ} {p : Payload} (h : w.kept? s = some p)
    (message : String) (frames : List Frame) :
    ∃ w', (raise s ⟨.hostTrap message, frames⟩ : Act κ σ α).run w = (.panic p, w') := by
  have htake : (make (·.takePanic s) : Act κ σ (Option Payload)).run w =
      (.value (some p), (w.takePanic s).2) :=
    congrArg (fun o => (Outcome.value o, (w.takePanic s).2)) h
  exact ⟨_, run_bind_panic (run_bind_value htake)⟩

section Calls

variable [Keeper κ σ] {host : Runner κ σ} (hhost : Fair host) {R L : Ledger κ}
  {known : List (Pin κ)} {w w' : World κ σ} {r : Registration κ} {s key fuel : Nat}
  {default caller : Option Nat} {start : Guest.Store → Guest.Progress} {args : List Guest.Value}

include hhost

/-- A run in which a closure gives a function of another store ends with the trap. -/
theorem runThread_foreign (h : CallsOut host s default key caller args w' fuel start w)
    (hw : Invariant (R + .tenure s known none ::ₘ L) w)
    (hstart : ∀ g : Guest.Store, (start g).Among g.shape) (hr : w'.registry.get? key = some r)
    (hf : w'.GivesForeign host r key caller args) :
    ∃ frames w'', (runThread host s default fuel start).run w =
      (.value (.error ⟨.hostTrap panicMessage, frames⟩), w'') ∧
      w''.kept? s = some (.text foreignMessage) := by
  obtain ⟨r', hs, hr', hw'⟩ := h.invariant hhost hw hstart
  obtain rfl : r = r' := Option.some.inj (hr.symm.trans hr')
  subst hs
  obtain ⟨w'', hcall, hkept⟩ := callHost_foreign hhost (Multiset.mem_cons_self _ _) hw' hf
  obtain ⟨g, hg⟩ := callHost_guest? hhost hw' hcall
  obtain ⟨g', -, hrun⟩ := h.run_error hcall hg
  exact ⟨_, w'', hrun, hkept⟩

/-- The frames that were set aside come back, and the panic stays with the store. -/
theorem callPlace_foreign {place now : Nat} {g : Guest.Store} {given : List Guest.Value}
    (h : CallsOut host s default key caller args w' workBound
      (fun g => Guest.enter now none g [] place given)
      (w.setGuest s { g with suspended := g.exited :: g.suspended }))
    (hw : Invariant (R + .tenure s known none ::ₘ L) w) (hg : w.guest? s = some g)
    (hnow : (epoch s : Act κ σ Nat).run w = (.value now, w))
    (hr : w'.registry.get? key = some r) (hf : w'.GivesForeign host r key caller args) :
    ∃ frames w'', (callPlace host s place default given).run w =
      (.value (.error ⟨.hostTrap panicMessage, frames⟩), w'') ∧
      w''.kept? s = some (.text foreignMessage) := by
  have hbefore : (onGuest s fun g => (g, { g with suspended := g.exited :: g.suspended }) :
      Act κ σ Guest.Store).run w =
      (.value g, w.setGuest s { g with suspended := g.exited :: g.suspended }) := run_onGuest hg _
  have hw₁ := (onGuest_leaves' (L := .tenure s known none ::ₘ L) fun g => rfl).run_value hw hbefore
  obtain ⟨frames, w'', hrun, hkept⟩ := runThread_foreign hhost h hw₁
    (fun g => Guest.enter_among rfl place given) hr hf
  have hback : (update (·.back s g) : Act κ σ Unit).run w'' = (.value (), w''.back s g) := rfl
  exact ⟨frames, w''.back s g, (run_bind_value hnow).trans ((run_bind_value hbefore).trans
    (run_ensuring_value hrun hback)), (World.kept?_back s s g).trans hkept⟩

/-- A call in the course of which a closure gives a function of another store panics. -/
theorem Func.call_foreign {f : Handle} {vs : List Val} (hw : Invariant (R + L) w)
    (hs : .tenure s known none ∈ L) (hvs : ∀ x ∈ Val.sharesAll vs, L.Has x)
    (h : Func.CallsOut host s f vs key caller args w w') (hr : w'.registry.get? key = some r)
    (hf : w'.GivesForeign host r key caller args) :
    (Func.call host s f vs).Refused (fun _ => False) w := by
  obtain ⟨place, type, packed, given, now, g, w₁, w₂, hplace, htype, hfit, hpack, hadopt, hg, hnow,
    h⟩ := h
  have hw₁ := (packAll_leaves fun v hv x hx =>
    hvs x (List.mem_flatMap.mpr ⟨v, hv, hx⟩)).run_value (hw.drain s).1 hpack
  have hw₂ := (adoptAll_leaves (Multiset.mem_add.mpr (.inr hs))
    fun x hx => Ledger.has_owns_add hx _).run_value hw₁ hadopt
  obtain ⟨M, hM⟩ := Multiset.exists_cons_of_mem (Multiset.mem_add.mpr
    (.inr hs) : .tenure s known none ∈ Ledger.owns (Packed.sharesAll packed) + L)
  rw [hM] at hw₂
  obtain ⟨frames, w₃, hcall, hkept⟩ := callPlace_foreign hhost h hw₂ hg hnow hr hf
  refine .first (run_context s w) (.first hplace (.first htype ?_))
  rw [hfit]
  refine .first rfl (.first hpack (.ensuring (releasePackedAll_settling packed) ?_))
  refine .first hadopt (.first hcall ?_)
  obtain ⟨w₄, hraise⟩ := run_raise_of_kept (α := List Val) hkept panicMessage frames
  show ((raise s _ : Act κ σ (List Val)).run w₃).1.Refuses _
  rw [hraise]
  rfl

end Calls

end WasmHost.Host
