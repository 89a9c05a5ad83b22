import WasmHost.Proofs.Failures

/-!
# Traps on their way to the host

Host code asks for guest code to be run (`Asks`), and guest code traps (`PlaceTraps`) or calls a host
function (`PlaceCallsOut`) that fails. Either way nothing else runs, and the failure is what the host
gets to know. A closure that gives a trap may have received it from a call of its own: `GivesTrap`
says so to any depth, and the trap keeps its message all the way.

A run of guest code is interrupted whenever it calls a host function, and in between closures do
what they like, calls of guest code among it. So a trap passes through layers: activations of a
thread, the host function that called the guest, the activations of the guest that called the host
function, and so on. To speak of "a trap at any depth" by nesting outcomes would need a statement
for each number of layers. Instead there is a relation for one layer, and it is used inductively.

For the layer of guest code the induction is on how often the thread has been interrupted
(`ThreadTraps.later`, `CallsOut.later`). For that of host code there is none: a closure is an
arbitrary program, and its own calls are found within it by `StepsTo`, as what is left of the
program after some steps.
-/

namespace WasmHost.Host

open Act

variable {κ σ α β : Type}

/-! ## Steps of an action

An action runs from one world to its outcome. To say what happens in the course of it there must be
a notion of being in the middle; here it is, for actions that are carried out without a step of
others. -/

/-- After some of its steps from a world, an action has come to another world, where something is left
to do. -/
inductive Act.StepsTo {α : Type} (m' : Act κ σ α) (w' : World κ σ) : Act κ σ α → World κ σ → Prop
  | here : StepsTo m' w' m' w'
  | step {β : Type} {f : World κ σ → β × World κ σ} {next : β → Act κ σ α} {w : World κ σ}
      (h : StepsTo m' w' (next (f w).1) (f w).2) : StepsTo m' w' (.step f next) w

namespace Act.StepsTo

variable {m m' : Act κ σ α} {w w' : World κ σ}

theorem run (h : StepsTo m' w' m w) : m.run w = m'.run w' := by
  induction h with
  | here => rfl
  | step _ ih => exact ih

/-- What is left to do is safe if all of it was. -/
theorem safe [Keeper κ σ] {Q : Outcome α → Ledger κ → Prop} {R L : Ledger κ}
    (h : StepsTo m' w' m w) (hm : m.Safe Q L) (hw : Invariant (R + L) w) :
    ∃ L', m'.Safe Q L' ∧ Invariant (R + L') w' := by
  induction h generalizing L with
  | here => exact ⟨L, hm, hw⟩
  | step _ ih =>
    obtain ⟨L', hw', hnext⟩ := hm R _ hw
    exact ih hnext hw'

end Act.StepsTo

/-! ## Calling a place

Around the thread are the frames of what was running before. They are put back whatever the outcome,
which leaves it as it is. -/

/-- In calling a place from a world, guest code calls a host function in another world. -/
def PlaceCallsOut (host : Runner κ σ) (s place : Nat) (default : Option Nat)
    (given : List Guest.Value) (key : Nat) (caller : Option Nat) (args : List Guest.Value)
    (w w' : World κ σ) : Prop :=
  ∃ now g, w.guest? s = some g ∧ (epoch s : Act κ σ Nat).run w = (.value now, w) ∧
    CallsOut host s default key caller args w' workBound
      (fun g => Guest.enter now none g [] place given)
      (w.setGuest s { g with suspended := g.exited :: g.suspended })

/-- A thread traps, perhaps after host functions that gave results. The number bounds their calls. -/
inductive ThreadTraps (host : Runner κ σ) (s : Nat) (default : Option Nat) (cause : TrapCause)
    (frames : List Frame) : Nat → (Guest.Store → Guest.Progress) → World κ σ → Prop
  | here {fuel now : Nat} {start : Guest.Store → Guest.Progress} {w : World κ σ} {g g' : Guest.Store}
      (hnow : (epoch s : Act κ σ Nat).run w = (.value now, w)) (hg : w.guest? s = some g)
      (htrap : Guest.advance now workBound (start g) = (g', .trapped cause frames)) :
      ThreadTraps host s default cause frames (fuel + 1) start w
  | later {fuel key : Nat} {start : Guest.Store → Guest.Progress} {w w₁ w₂ : World κ σ}
      {caller : Option Nat} {args results : List Guest.Value} {thread : List Guest.Activation}
      (h : CallsNext s default start w key caller args thread w₁)
      (hcall : (callHost host s key caller args).run w₁ = (.value (.ok results), w₂))
      (hrest : ThreadTraps host s default cause frames fuel (resuming thread results) w₂) :
      ThreadTraps host s default cause frames (fuel + 1) start w

/-- In calling a place from a world, guest code traps. -/
def PlaceTraps (host : Runner κ σ) (s place : Nat) (default : Option Nat)
    (given : List Guest.Value) (cause : TrapCause) (frames : List Frame) (w : World κ σ) : Prop :=
  ∃ now g, w.guest? s = some g ∧ (epoch s : Act κ σ Nat).run w = (.value now, w) ∧
    ThreadTraps host s default cause frames workBound (fun g => Guest.enter now none g [] place given)
      (w.setGuest s { g with suspended := g.exited :: g.suspended })

section Places

variable {host : Runner κ σ} {s place key : Nat} {default caller : Option Nat}
  {given args : List Guest.Value} {w w' w'' : World κ σ}

/-- Guest code is entered, and the frames that were set aside come back. -/
theorem callPlace_run {now : Nat} {g : Guest.Store} {res : Except Guest.Failure (List Guest.Value)}
    (hg : w.guest? s = some g) (hnow : (epoch s : Act κ σ Nat).run w = (.value now, w))
    (hrun : (runThread host s default workBound fun g => Guest.enter now none g [] place given).run
      (w.setGuest s { g with suspended := g.exited :: g.suspended }) = (.value res, w')) :
    (callPlace host s place default given).run w = (.value res, w'.back s g) := by
  have hbefore : (onGuest s fun g => (g, { g with suspended := g.exited :: g.suspended }) :
      Act κ σ Guest.Store).run w =
      (.value g, w.setGuest s { g with suspended := g.exited :: g.suspended }) := run_onGuest hg _
  have hback : (update (·.back s g) : Act κ σ Unit).run w' = (.value (), w'.back s g) := rfl
  exact (run_bind_value hnow).trans ((run_bind_value hbefore).trans (run_ensuring_value hrun hback))

/-- If the host function fails, so does the call, with the frames that were active. -/
theorem PlaceCallsOut.run_error
    (h : PlaceCallsOut host s place default given key caller args w w') {reason : Guest.Reason}
    {g : Guest.Store} (hcall : (callHost host s key caller args).run w' =
      (.value (.error reason), w'')) (hg : w''.guest? s = some g) :
    ∃ g' w₁, w'.guest? s = some g' ∧ w₁.kept? s = w''.kept? s ∧
      (callPlace host s place default given).run w =
        (.value (.error ⟨reason, g.backtrace g'.exited⟩), w₁) := by
  obtain ⟨now, g₀, hg₀, hnow, hout⟩ := h
  obtain ⟨g', hg', hrun⟩ := hout.run_error hcall hg
  exact ⟨g', _, hg', World.kept?_back s s g₀, callPlace_run hg₀ hnow hrun⟩

/-- A thread that traps gives the trap, with the causes and frames that it has. The induction is on
the host functions that were called before; they have given results, so the thread went on. -/
theorem ThreadTraps.run {cause : TrapCause} {frames : List Frame} {fuel : Nat}
    {start : Guest.Store → Guest.Progress} (h : ThreadTraps host s default cause frames fuel start w) :
    ∃ w', (runThread host s default fuel start).run w =
      (.value (.error ⟨.trap cause, frames⟩), w') := by
  induction h with
  | @here _ _ start _ _ _ hnow hg htrap =>
    have hadvance := run_advance (σ := σ) start hg (congrArg Prod.snd htrap)
    exact ⟨_, (run_bind_value hnow).trans (run_bind_value hadvance)⟩
  | later h hcall _ ih =>
    obtain ⟨w', hrest⟩ := ih
    obtain ⟨_, -, hrun⟩ := h.run hcall _
    exact ⟨w', hrun.trans hrest⟩

/-- If guest code traps, the call fails with that trap. -/
theorem PlaceTraps.run {cause : TrapCause} {frames : List Frame}
    (h : PlaceTraps host s place default given cause frames w) :
    ∃ w', (callPlace host s place default given).run w =
      (.value (.error ⟨.trap cause, frames⟩), w') := by
  obtain ⟨now, g, hg, hnow, htraps⟩ := h
  obtain ⟨w', hrun⟩ := htraps.run
  exact ⟨_, callPlace_run hg hnow hrun⟩

section Ledgers

variable [Keeper κ σ] (hhost : Fair host) {R L : Ledger κ} {known : List (Pin κ)}

include hhost

/-- The closure that is called is known. -/
theorem PlaceCallsOut.invariant
    (h : PlaceCallsOut host s place default given key caller args w w')
    (hw : Invariant (R + .tenure s known none ::ₘ L) w) :
    ∃ r : Registration κ, r.store = s ∧ w'.registry.get? key = some r ∧
      Invariant (R + .tenure s ((key, r) :: known) none ::ₘ L) w' := by
  obtain ⟨now, g, hg, hnow, hout⟩ := h
  have hbefore : (onGuest s fun g => (g, { g with suspended := g.exited :: g.suspended }) :
      Act κ σ Guest.Store).run w =
      (.value g, w.setGuest s { g with suspended := g.exited :: g.suspended }) := run_onGuest hg _
  have hw₁ := (onGuest_leaves' (L := .tenure s known none ::ₘ L) fun g => rfl).run_value hw hbefore
  exact hout.invariant hhost hw₁ fun g => Guest.enter_among rfl place given

/-- A failure of a call has a panic behind it only if it is the trap that takes its place. -/
theorem callPlace_quiet (hw : Invariant (R + .tenure s known none ::ₘ L) w)
    {failure : Guest.Failure} (hcall : (callPlace host s place default given).run w =
      (.value (.error failure), w')) (hne : failure.reason ≠ .hostTrap panicMessage) :
    w'.kept? s = none := by
  obtain ⟨N, hw', hN⟩ := Safe.run (callPlace_meets hhost place default given) hw
  rw [hcall] at hw' hN
  obtain ⟨p, rfl, hp⟩ := hN rfl
  obtain rfl : p = none := by
    -- The contract of a call says that a payload stays behind with one trap only.
    by_contra hsome
    obtain ⟨frames, h⟩ := hp hsome
    cases h
    exact hne rfl
  obtain ⟨c, g, hc, -, hkept⟩ := hw'.tenured (Multiset.mem_cons_self _ _)
  exact hkept

end Ledgers

end Places

/-! ## Closures

From the packed arguments of the guest to those that the closure gets, and back from what it gives
to what the guest is told. -/

/-- A host function is called with arguments, and its closure comes to be run with parameters. -/
def Delivers (r : Registration κ) (key : Nat) (args : List Guest.Value) (w : World κ σ)
    (params : List Val) (w' : World κ σ) : Prop :=
  ∃ packed w₀, (exposeAll r.store args).run w = (.value (.ok packed), w₀) ∧
    (unpackAll r.store packed).run (w₀.lookup r.store key (packed.map Packed.kind)).2 =
      (.value params, w')

section Closures

variable [Keeper κ σ] {host : Runner κ σ} (hhost : Fair host) {R L : Ledger κ}
  {known : List (Pin κ)} {w w₁ w₂ : World κ σ} {r : Registration κ} {key : Nat}
  {args : List Guest.Value} {params : List Val} {t : Trap}

omit [Keeper κ σ] in
/-- The closure that is registered is found. -/
theorem run_lookup {s : Nat} {kinds : List Kind} (hr : w.registry.get? key = some r) :
    (make (·.lookup s key kinds) : Act κ σ (Option (Registration κ))).run w =
      (.value (some r), (w.lookup s key kinds).2) :=
  congrArg (fun o => (Outcome.value o, (w.lookup s key kinds).2)) hr

/-- When its arguments have been packed, the closure is looked up, and found. -/
theorem lookup_known {packed : List (Packed r.store)}
    (hs : .tenure r.store ((key, r) :: known) none ∈ L)
    (hw : Invariant (R + L) w) (hexpose : (exposeAll r.store args).run w = (.value (.ok packed), w₁)) :
    w₁.registry.get? key = some r ∧
      Invariant (R + (Ledger.owns (Packed.sharesAll packed) + L))
        (w₁.lookup r.store key (packed.map Packed.kind)).2 := by
  have hw₁ := (exposeAll_leaves _ args).run_value hw hexpose
  obtain ⟨hfound, hsound⟩ := hw₁.apart.lookup
    (Multiset.mem_add.mpr (.inl (Multiset.mem_add.mpr (.inr hs)))) (List.mem_cons_self ..)
    (packed.map Packed.kind)
  exact ⟨hfound, hw₁.of_sound rfl hsound (.refl _)⟩

include hhost

/-- The closure keeps to a ledger of the world in which it starts. -/
theorem Delivers.safe (h : Delivers r key args w params w₁)
    (hs : .tenure r.store ((key, r) :: known) none ∈ L) (hw : Invariant (R + L) w)
    (instance_ : Option Nat) :
    ∃ N Q, (host r.code r.captures ⟨r.store, instance_⟩ params).Safe Q N ∧
      Invariant (R + N) w₁ := by
  obtain ⟨packed, w₀, hexpose, hunpack⟩ := h
  obtain ⟨-, hw₀⟩ := lookup_known hs hw hexpose
  have hs₀ : .tenure r.store ((key, r) :: known) none ∈
      Ledger.owns (Packed.sharesAll packed) + L := Multiset.mem_add.mpr (.inr hs)
  have hw₁ := (unpackAll_leaves (Ledger.has_of_tenure hs₀) fun x hx =>
    Ledger.has_owns_add hx L).run_value hw₀ hunpack
  exact ⟨_, _, hhost key r known instance_ params _ (Multiset.mem_add.mpr (.inr hs₀))
    fun x hx => Ledger.has_owns_add hx _, hw₁⟩

/-- If a message comes of a closure, the guest gets a trap with it, and nothing else. -/
theorem callHost_message {packed : List (Packed r.store)} {message : String} {instance_ : Option Nat}
    (hs : .tenure r.store ((key, r) :: known) none ∈ L) (hw : Invariant (R + L) w)
    (hexpose : (exposeAll r.store args).run w = (.value (.ok packed), w₁))
    (hclosure : (runClosure host r instance_ packed).run
      (w₁.lookup r.store key (packed.map Packed.kind)).2 = (.value (.error message), w₂)) :
    ∃ w' g, (callHost host r.store key instance_ args).run w =
      (.value (.error (.hostTrap message)), w') ∧ w'.guest? r.store = some g ∧
      w'.kept? r.store = none ∧ w₂.Settles w' := by
  obtain ⟨hfound, hw₁⟩ := lookup_known hs hw hexpose
  have hs₁ : .tenure r.store ((key, r) :: known) none ∈
      Ledger.owns (Packed.sharesAll packed) + L := Multiset.mem_add.mpr (.inr hs)
  have hw₂ := (runClosure_leaves hhost instance_ hs₁ fun x hx =>
    Ledger.has_owns_add hx L).run_value hw₁ hclosure
  have hcaught : (catchPanic (runClosure host r instance_ packed)).run
      (w₁.lookup r.store key (packed.map Packed.kind)).2 = (.value (.ok (.error message)), w₂) := by
    rw [catchPanic, run_after, hclosure]
    rfl
  -- What was packed is released, and the store is as quiet as before.
  obtain ⟨u, w₃, hrelease, hsettles⟩ := releasePackedAll_settling packed w₂
  have hw₂ : Invariant (R + (Ledger.owns (Packed.sharesAll packed) + L)) w₂ := by
    simpa [Share.ofExcept] using hw₂
  have hw₃ : Invariant (R + L) w₃ := Leaves.run_value (releasePackedAll_leaves packed) hw₂ hrelease
  obtain ⟨c, g, -, hg, hkept⟩ := hw₃.tenured hs
  exact ⟨w₃, g, (run_bind_value hexpose).trans (run_ensuring_value
    ((run_bind_value (run_lookup hfound)).trans (run_bind_value hcaught)) hrelease), hg, hkept,
    hsettles⟩

/-- If the closure gives a trap, the guest gets one with its message. -/
theorem Delivers.callHost_trap (h : Delivers r key args w params w₁)
    (hs : .tenure r.store ((key, r) :: known) none ∈ L) (hw : Invariant (R + L) w)
    {instance_ : Option Nat}
    (hrun : (host r.code r.captures ⟨r.store, instance_⟩ params).run w₁ = (.value (.error t), w₂)) :
    ∃ w' g, (callHost host r.store key instance_ args).run w =
      (.value (.error (.hostTrap t.message)), w') ∧ w'.guest? r.store = some g ∧
      w'.kept? r.store = none := by
  obtain ⟨packed, w₀, hexpose, hunpack⟩ := h
  obtain ⟨u, w₃, hrelease, -⟩ := releaseVals_settling params w₂
  -- All of the trap but its message is lost here. Its code and frames belong to the guest that it
  -- came from.
  have hclosure : (runClosure host r instance_ packed).run
      (w₀.lookup r.store key (packed.map Packed.kind)).2 = (.value (.error t.message), w₃) :=
    (run_bind_value hunpack).trans (run_ensuring_value (run_bind_value hrun) hrelease)
  obtain ⟨w', g, hcall, hg, hkept, -⟩ := callHost_message hhost hs hw hexpose hclosure
  exact ⟨w', g, hcall, hg, hkept⟩

end Closures

end WasmHost.Host
