import WasmHost.Proofs.Unwinding

/-!
# Relayed panics

The calls that relay panics do the same as those through which panics unwind. While guest code runs,
the trap that takes the place of a panic stands for it, and the payload lies with the store; the
caller finds it there, and nothing else has been there before.

The invariant that carries this is that a store keeps no payload whenever a host function is called.
It is in the ledger of the caller, as the third component of the token `tenure`, and not in the
correspondence: so it need not be proved here, it was proved when calls were shown to keep their
ledgers. What is done with it here is this. If no payload is there before a closure is called, the
one that is found afterwards is the one that this closure left (`callHost_relays`). And if guest
code ends with an error that is not the trap of a panic, there is no payload, and whoever entered
the guest fails with this error (`raising_agrees`); without the invariant it could find an old
payload and panic with it.

Calls nest. A closure may call guest code, in the same store or in another one, so that what
closures do is not the same text on both sides: one relays panics further down and the other does
not. Hence `SameHost`, which is assumed for the closures that are called. For those that call, it is
proved by induction on the depth of calls (`Embedder.same_hostTo`).

The first section repeats for the calls of `Unwinding` what was proved of the calls that relay
panics: that they keep the ledger. Nothing could be carried over, since `Agrees` compares two
actions in worlds that agree with a ledger, and in the middle of an action there must be one to
compare them with.
-/

namespace WasmHost.Host

open Act

variable {κ σ α β : Type} [Keeper κ σ] {L rest : Ledger κ} {s : Nat} {known : List (Pin κ)}

/-- Two meanings of closures that cannot be told apart. -/
def SameHost (host host' : Runner κ σ) : Prop :=
  ∀ (key : Nat) (r : Registration κ) (known : List (Pin κ)) (instance_ : Option Nat)
    (args : List Val) (L : Ledger κ), .tenure r.store ((key, r) :: known) none ∈ L →
    (∀ x ∈ Val.sharesAll args, L.Has x) →
    Agrees L (host r.code r.captures ⟨r.store, instance_⟩ args)
      (host' r.code r.captures ⟨r.store, instance_⟩ args)

/-- A store that is somebody's to use is there, and keeps no payload. -/
theorem Invariant.tenured {R : Ledger κ} {w : World κ σ} (hw : Invariant (R + L) w)
    (hs : .tenure s known none ∈ L) :
    ∃ c g, w.stores[s]? = some c ∧ w.guest? s = some g ∧ w.kept? s = none := by
  obtain ⟨L, rfl⟩ := Multiset.exists_cons_of_mem hs
  have hsound := hw.apart.cast (Multiset.cons_add _ _ _)
  obtain ⟨c, g, hc, hg, -⟩ := hsound.hosted.tenured s known none (by simp)
  exact ⟨c, g, hc, by simp [World.guest?, hc, hg], hsound.panic_eq⟩

/-! ## Calls through which panics unwind keep the ledger

The proofs are those about the other calls, less the payload: there is none, and the tenure of the
store is always the same. -/

namespace Ledger.Relaying

theorem eq_of_not {M : Ledger κ} (h : Relaying s known L False M) :
    M = .tenure s known none ::ₘ L := by
  obtain ⟨p, hM, hp⟩ := h
  obtain rfl : p = none := by
    by_contra hne
    exact hp hne
  exact hM

end Ledger.Relaying

section Closures

variable {host : Runner κ σ} (hhost : Fair host)

include hhost

namespace Unwinding

theorem callHost_leaves {key : Nat} {r : Registration κ} (hr : r.store = s)
    (instance_ : Option Nat) (args : List Guest.Value) :
    (callHost host s key instance_ args).Leaves (.tenure s ((key, r) :: known) none ::ₘ L)
      (fun _ => .tenure s ((key, r) :: known) none ::ₘ L)
      (.tenure s ((key, r) :: known) none ::ₘ L) := by
  subst hr
  refine Leaves.bind (exposeAll_leaves _ args) fun res => ?_
  cases res with
  | error fault => exact Leaves.pure (by simp [Share.ofExcept])
  | ok packed =>
    let U : Ledger κ := .tenure r.store ((key, r) :: known) none ::ₘ L
    refine Leaves.holding (L := U) (M := fun _ => Ledger.owns (Packed.sharesAll packed) + U)
      (fun _ => releasePackedAll_leaves packed) ?_ fun _ => rfl
    have hs : .tenure r.store ((key, r) :: known) none ∈
        Ledger.owns (Packed.sharesAll packed) + U := by simp [U]
    refine Safe.make (fun _ => rfl) fun T w h _ => ⟨_, .refl _, ?_⟩
    obtain ⟨hfound, hsound⟩ := h.lookup (Multiset.mem_add.mpr (.inl hs)) (List.mem_cons_self ..) _
    rw [hfound]
    refine ⟨hsound, ?_⟩
    refine Leaves.bind (runClosure_leaves hhost instance_ hs fun x hx => Ledger.has_owns_add hx _)
      fun res => ?_
    cases res with
    | error message => exact Leaves.pure (zero_add _)
    | ok results =>
      refine Leaves.holding (fun _ => releasePackedAll_leaves results) ?_ fun _ => rfl
      refine Leaves.bind (adoptAll_leaves (Multiset.mem_add.mpr (.inr hs))
        fun x hx => Ledger.has_owns_add hx _) fun _ => Leaves.pure rfl

theorem runThread_leaves (default : Option Nat) (fuel : Nat) (start : Guest.Store → Guest.Progress)
    (hstart : ∀ g : Guest.Store, (start g).Among g.shape) :
    (runThread host s default fuel start).Leaves (.tenure s known none ::ₘ L)
      (fun _ => .tenure s known none ::ₘ L) (.tenure s known none ::ₘ L) := by
  induction fuel generalizing known start with
  | zero => exact Leaves.exhaust
  | succ fuel ih =>
    refine Leaves.bind (epoch_leaves s) fun now => ?_
    refine Meets.bind (advance_meets hstart now workBound) fun event N hN => ?_
    cases event with
    | finished results => exact Leaves.pure hN
    | trapped cause frames => exact Leaves.pure hN
    | stuck => exact Leaves.stuck
    | timeout => exact Leaves.exhaust
    | called key type args thread =>
      obtain ⟨r, hr, rfl⟩ := hN
      refine (forgetting (k := (key, r)) (P := fun _ => False) ?_).mono fun _ _ h => h.eq_of_not
      refine Meets.mono (P := fun _ N => N = .tenure s ((key, r) :: known) none ::ₘ L) ?_
        fun _ _ h => h ▸ .quiet
      refine Leaves.bind (onGuest_leaves' fun g => rfl) fun active => ?_
      refine Leaves.bind (callHost_leaves hhost hr _ args) fun res => ?_
      cases res with
      | error reason => exact Leaves.bind (guest_leaves s) fun g => Leaves.pure rfl
      | ok results =>
        refine ih _ fun g => ?_
        exact Guest.resume_among (g.setStack_shape _) results

theorem callPlace_leaves (hs : .tenure s known none ∈ L) (place : Nat) (default : Option Nat)
    (args : List Guest.Value) :
    (callPlace host s place default args).Leaves L (fun _ => L) L := by
  obtain ⟨L, rfl⟩ := Multiset.exists_cons_of_mem hs
  refine Leaves.bind (epoch_leaves s) fun now => ?_
  exact entering_meets (runThread_leaves hhost default workBound _ fun g =>
    Guest.enter_among rfl place args)

theorem call_leaves {f : Handle} {args : List Val} (hs : .tenure s known none ∈ L)
    (hf : L.Has (.handle f (.item .func))) (hargs : ∀ x ∈ Val.sharesAll args, L.Has x) :
    (call host s f args).Leaves L (fun vs => Ledger.owns (Val.sharesAll vs) + L) L := by
  refine Leaves.bind (context_leaves s) fun _ => Leaves.bind (funcPlace_leaves hf) fun place => ?_
  refine Leaves.bind (Func.typeAt_leaves place) fun type => ?_
  refine Leaves.bind (M := fun _ => L) (Leaves.ofExcept (fun _ _ => rfl) fun _ _ => rfl) fun _ => ?_
  refine Leaves.bind (packAll_leaves fun v hv x hx => hargs x (List.mem_flatMap.mpr ⟨v, hv, hx⟩))
    fun packed => ?_
  refine Leaves.holding (fun _ => releasePackedAll_leaves packed) ?_ fun _ => add_left_comm _ _ _
  have hs' : .tenure s known none ∈ Ledger.owns (Packed.sharesAll packed) + L :=
    Multiset.mem_add.mpr (.inr hs)
  refine Leaves.bind (adoptAll_leaves hs' fun x hx => Ledger.has_owns_add hx _) fun values => ?_
  refine Leaves.bind (callPlace_leaves hhost hs' place none values) fun res => ?_
  cases res with
  | error f => exact Leaves.fail rfl
  | ok results =>
    refine Leaves.bind (exposeAll_leaves s results) fun res => ?_
    cases res with
    | error fault => exact Leaves.fail (zero_add _)
    | ok results =>
      refine Leaves.holding (m := unpackAll s results) (fun _ => releasePackedAll_leaves results) ?_
        fun _ => add_left_comm _ _ _
      exact unpackAll_leaves ((Ledger.has_of_tenure hs').add _)
        fun x hx => Ledger.has_owns_add hx _

theorem callStart_leaves (hs : .tenure s known none ∈ L) (started : Guest.Started) :
    (callStart host s started).Leaves L (fun _ => L) L := by
  unfold callStart
  split
  · exact Leaves.pure rfl
  · exact Leaves.bind (callPlace_leaves hhost hs _ _ []) fun _ => Leaves.pure rfl

theorem create_leaves {imports : List Item} (hs : .tenure s known none ∈ L)
    (hi : ∀ x ∈ Item.sharesAll imports, L.Has x) (module : Nat) :
    (create host s module imports).Leaves L (fun h => .own (.handle h .instance_) ::ₘ L) L := by
  refine Leaves.bind (context_leaves s) fun _ => Leaves.world fun _ w _ _ => ?_
  refine Leaves.expect fun cell _ => Leaves.expect fun store _ => ?_
  refine Leaves.guard rfl (Leaves.guard rfl ?_)
  refine Leaves.bind (Instance.checkAll_leaves hi) fun _ => ?_
  refine Leaves.bind (Instance.places_leaves hi) fun places => ?_
  refine Leaves.bind (onGuest_leaves fun g => Guest.instantiate_extends g _ _ places) fun res => ?_
  cases res with
  | error f => exact Leaves.fail rfl
  | ok started =>
    refine Leaves.bind (callStart_leaves hhost hs started) fun res => ?_
    cases res with
    | error f => exact Leaves.fail rfl
    | ok _ =>
      refine Leaves.make (fun _ => rfl) (by simp [Ledger.Alike.refl]) fun T w h hpos => ?_
      have hpresent : (Target.instance_ s started.instance_).Present w.stores := trivial
      exact (h.newHandle (hpos _ (Ledger.has_of_tenure hs)) rfl hpresent).cast
        (Multiset.cons_add _ _ _).symm

theorem instantiate_leaves {l : Nat} (hs : .tenure s known none ∈ L) (hl : L.Has (.linker l))
    (module : Nat) :
    (instantiate host s l module).Leaves L (fun h => .own (.handle h .instance_) ::ₘ L) L := by
  refine Leaves.world fun _ w _ _ => Leaves.expect fun m _ => ?_
  refine Meets.bind (Linker.take_meets hl fun _ _ h => Linker.resolve_mem _ h) fun items N hN => ?_
  obtain ⟨-, rfl⟩ := hN
  refine Leaves.holding (m := create host s module items) (fun _ => releaseItems_leaves items) ?_
    fun _ => (Multiset.add_cons _ _ _).symm
  exact create_leaves hhost (Multiset.mem_add.mpr (.inr hs)) (fun x hx => Ledger.has_owns_add hx _)
    module

theorem defineModule_leaves {l : Nat} (hs : .tenure s known none ∈ L) (hl : L.Has (.linker l))
    (name : String) (module : Nat) :
    (defineModule host s l name module).Leaves L (fun _ => L) L := by
  refine Leaves.bind (instantiate_leaves hhost hs hl module) fun i => ?_
  refine Leaves.ensuring (M := fun _ => .own (.handle i .instance_) ::ₘ L)
    (U := .own (.handle i .instance_) ::ₘ L) ?_ (fun _ => releaseHandle_leaves i .instance_)
    (releaseHandle_leaves i .instance_)
  exact Linker.defineInstance_leaves (hl.cons _)
    (Ledger.has_own _ _) name

end Unwinding

end Closures

/-! ## Calls cannot be told apart

From the inside out: first the closure, then what the engine does to call a host function, then a
thread of guest code, and last the operations by which host code enters the guest. -/

/-- Whoever called the guest fails or panics as if panics unwound. This is the end of the
correspondence: a trap that stands for a panic is turned back into the panic, and any other failure
is handed on. -/
theorem raising_agrees {m m' : Act κ σ (Except Guest.Failure α)}
    {k k' : Except Guest.Failure α → Act κ σ β} (hs : .tenure s known none ∈ L)
    (h : Relays s (fun res => ∃ frames, res = .error ⟨.hostTrap panicMessage, frames⟩) L m m')
    (hm : m'.Leaves L (fun _ => L) L) (hraise : ∀ f, k (.error f) = raise s f)
    (hfail : ∀ f, k' (.error f) = fail f.toError) (hk : ∀ a, Agrees L (k (.ok a)) (k' (.ok a))) :
    Agrees L (m >>= k) (m' >>= k') := by
  refine Relays.raise h hm (fun res N hN => ?_) fun res hres R w hw p => ?_
  · subst hN
    cases res with
    | error f =>
      intro R w hw
      obtain ⟨c, g, -, -, hkept⟩ := hw.tenured hs
      rw [hraise, hfail]
      exact run_raise_of_none hkept f
    | ok a => exact hk a
  · obtain ⟨frames, rfl⟩ := hres
    obtain ⟨c, g, hc, -, hkept⟩ := hw.tenured hs
    rw [hraise]
    exact run_raise_of_some hc hkept _ frames p

section Correspondence

variable {host host' : Runner κ σ} (hhost : Fair host) (hhost' : Fair host')
  (hsame : SameHost host host')

include hhost hsame

theorem runClosure_agrees {key : Nat} {r : Registration κ} (instance_ : Option Nat)
    {args : List (Packed r.store)} (hs : .tenure r.store ((key, r) :: known) none ∈ L)
    (hargs : ∀ x ∈ Packed.sharesAll args, L.Has x) :
    Agrees L (runClosure host r instance_ args) (runClosure host' r instance_ args) := by
  refine Agrees.bind (E := L) (.refl _) (unpackAll_leaves (Ledger.has_of_tenure hs) hargs)
    fun params N hN => Agrees.ensuring ?_ _
  subst hN
  have hs' : .tenure r.store ((key, r) :: known) none ∈ Ledger.owns (Val.sharesAll params) + L :=
    Multiset.mem_add.mpr (.inr hs)
  refine Agrees.bind (hsame key r known instance_ params _ hs' fun x hx => Ledger.has_owns_add hx _)
    (hhost key r known instance_ params _ hs' fun x hx => Ledger.has_owns_add hx _)
    fun res N _ => .refl _

/-- What the engine does to call a host function relays a panic of the closure: the payload is put
aside where there was none, and the trap that is returned instead stands for it. -/
theorem callHost_relays {key : Nat} {r : Registration κ} (hr : r.store = s)
    (instance_ : Option Nat) (args : List Guest.Value) :
    Relays s (fun res => res = .error (.hostTrap panicMessage))
      (.tenure s ((key, r) :: known) none ::ₘ L) (callHost host s key instance_ args)
      (Unwinding.callHost host' s key instance_ args) := by
  subst hr
  refine Relays.first (E := 0) (exposeAll_leaves r.store args) fun res N hN => ?_
  subst hN
  cases res with
  | error fault => exact .refl _
  | ok packed =>
    refine Relays.ensuring (releasePackedAll_aside packed) ?_
    let U : Ledger κ := .tenure r.store ((key, r) :: known) none ::ₘ L
    have hs : .tenure r.store ((key, r) :: known) none ∈
        Ledger.owns (Packed.sharesAll packed) + U := by simp [U]
    have hlookup : (make (·.lookup r.store key (packed.map Packed.kind)) :
        Act κ σ (Option (Registration κ))).Meets
        (Ledger.owns (Packed.sharesAll packed) + U)
        (fun o N => o = some r ∧ N = Ledger.owns (Packed.sharesAll packed) + U) 0 :=
      Meets.make (fun _ => rfl) fun T w h _ =>
        have h' := h.lookup (Multiset.mem_add.mpr (.inl hs)) (List.mem_cons_self ..) _
        ⟨_, .refl _, h'.2, h'.1, rfl⟩
    refine Relays.first hlookup fun o N hN => ?_
    obtain ⟨rfl, rfl⟩ := hN
    refine Relays.catchPanic (runClosure_agrees hhost hsame instance_ hs
      fun x hx => Ledger.has_owns_add hx _) (runClosure_leaves hhost instance_ hs
      fun x hx => Ledger.has_owns_add hx _) (fun res N _ => ?_) fun p R w hw => ?_
    · obtain message | results := res <;> exact .refl _
    · refine ⟨_, rfl, ?_⟩
      obtain ⟨c, g, -, -, hkept⟩ := hw.tenured hs
      rw [← World.stashPanic_eq hkept]
      rfl

include hhost'

/-- A thread of guest code lets the trap pass. The induction is on the number of host functions that
it may still call; a call that gives results goes on with the induction hypothesis, and one that
does not is the last. -/
theorem runThread_relays (default : Option Nat) (fuel : Nat)
    (start : Guest.Store → Guest.Progress) (hstart : ∀ g : Guest.Store, (start g).Among g.shape) :
    Relays s (fun res => ∃ frames, res = .error ⟨.hostTrap panicMessage, frames⟩)
      (.tenure s known none ::ₘ L) (runThread host s default fuel start)
      (Unwinding.runThread host' s default fuel start) := by
  induction fuel generalizing known start with
  | zero => exact .refl _
  | succ fuel ih =>
    refine Relays.first (E := 0) (epoch_leaves s) fun now N hN => ?_
    subst hN
    refine Relays.first (E := 0) (advance_meets hstart now workBound) fun event N hN => ?_
    cases event with
    | called key type args thread =>
      obtain ⟨r, hr, rfl⟩ := hN
      refine Relays.first (E := 0) (onGuest_leaves' fun g => rfl) fun active N hN => ?_
      subst hN
      refine Relays.bind (callHost_relays hhost hsame hr _ args)
        (Unwinding.callHost_leaves hhost' hr _ args) (fun res N hN => ?_) fun res hres R w hw => ?_
      · subst hN
        cases res with
        | error reason => exact .refl _
        | ok results =>
          refine ih _ fun g => ?_
          exact Guest.resume_among (g.setStack_shape _) results
      · -- The trap ends the thread. The frames it is reported with do not depend on the payload.
        subst hres
        obtain ⟨c, g, -, hg, -⟩ := hw.tenured (Multiset.mem_cons_self _ _)
        refine ⟨_, ⟨g.backtrace active, rfl⟩, fun p => run_bind_value ?_⟩
        exact run_guest ((World.guest?_keep s).trans hg)
    | _ => exact .refl _

theorem callPlace_relays (hs : .tenure s known none ∈ L) (place : Nat) (default : Option Nat)
    (args : List Guest.Value) :
    Relays s (fun res => ∃ frames, res = .error ⟨.hostTrap panicMessage, frames⟩) L
      (callPlace host s place default args) (Unwinding.callPlace host' s place default args) := by
  obtain ⟨L, rfl⟩ := Multiset.exists_cons_of_mem hs
  refine Relays.first (E := 0) (epoch_leaves s) fun now N hN => ?_
  subst hN
  refine Relays.first (E := 0) (onGuest_leaves' fun g => rfl) fun before N hN => ?_
  subst hN
  refine Relays.ensuring (.update fun w p => World.modifyStore_keep s fun _ _ => rfl) ?_
  exact runThread_relays hhost hhost' hsame default workBound _ fun g =>
    Guest.enter_among rfl place args

/-- A call by host code. What is done before the guest is entered is the same on both sides, so that
the calls agree as soon as the rest does. -/
theorem Func.call_agrees {f : Handle} {args : List Val} (hs : .tenure s known none ∈ L)
    (hf : L.Has (.handle f (.item .func))) (hargs : ∀ x ∈ Val.sharesAll args, L.Has x) :
    Agrees L (Func.call host s f args) (Unwinding.call host' s f args) := by
  refine Agrees.bind (E := L) (.refl _) (context_leaves s) fun _ N hN => ?_
  subst hN
  refine Agrees.bind (.refl _) (funcPlace_leaves hf) fun place N hN => ?_
  subst hN
  refine Agrees.bind (.refl _) (Func.typeAt_leaves place) fun type N hN => ?_
  subst hN
  refine Agrees.bind (M := fun _ M => M = N) (E := N) (.refl _)
    (Leaves.ofExcept (fun _ _ => rfl) fun _ _ => rfl) fun _ M hM => ?_
  subst hM
  refine Agrees.bind (.refl _) (packAll_leaves fun v hv x hx =>
    hargs x (List.mem_flatMap.mpr ⟨v, hv, hx⟩)) fun packed N hN => Agrees.ensuring ?_ _
  subst hN
  have hs' : .tenure s known none ∈ Ledger.owns (Packed.sharesAll packed) + M :=
    Multiset.mem_add.mpr (.inr hs)
  refine Agrees.bind (E := 0) (.refl _) (adoptAll_leaves hs'
    fun x hx => Ledger.has_owns_add hx _) fun values N hN => ?_
  subst hN
  exact raising_agrees hs' (callPlace_relays hhost hhost' hsame hs' place none values)
    (Unwinding.callPlace_leaves hhost' hs' place none values) (fun _ => rfl) (fun _ => rfl)
    fun results => .refl _

theorem callStart_relays (hs : .tenure s known none ∈ L) (started : Guest.Started) :
    Relays s (fun res => ∃ frames, res = .error ⟨.hostTrap panicMessage, frames⟩) L
      (callStart host s started) (Unwinding.callStart host' s started) := by
  unfold callStart Unwinding.callStart
  cases started.start with
  | none => exact .refl _
  | some place =>
    refine Relays.bind (callPlace_relays hhost hhost' hsame hs place _ [])
      (Unwinding.callPlace_leaves hhost' hs place _ []) (fun _ _ _ => .refl _) ?_
    rintro _ ⟨frames, rfl⟩ R w _
    exact ⟨_, ⟨frames, rfl⟩, fun p => rfl⟩

theorem Instance.create_agrees {imports : List Item} (hs : .tenure s known none ∈ L)
    (hi : ∀ x ∈ Item.sharesAll imports, L.Has x) (module : Nat) :
    Agrees L (Instance.create host s module imports) (Unwinding.create host' s module imports) := by
  refine Agrees.bind (E := L) (.refl _) (context_leaves s) fun _ N hN => ?_
  subst hN
  refine Agrees.world fun w => Agrees.orAbort fun cell => Agrees.orAbort fun store => ?_
  refine Agrees.guard (Agrees.guard ?_)
  refine Agrees.bind (.refl _) (Instance.checkAll_leaves hi) fun _ N hN => ?_
  subst hN
  refine Agrees.bind (.refl _) (Instance.places_leaves hi) fun places N hN => ?_
  subst hN
  refine Agrees.bind (E := 0) (.refl _) (onGuest_leaves fun g =>
    Guest.instantiate_extends g _ _ places) fun res N hN => ?_
  subst hN
  cases res with
  -- The instance could not be made, so that nothing has run, and no payload is kept.
  | error f =>
    intro R w hw
    obtain ⟨c, g, -, -, hkept⟩ := hw.tenured hs
    exact run_raise_of_none hkept f
  | ok started =>
    exact raising_agrees hs (callStart_relays hhost hhost' hsame hs started)
      (Unwinding.callStart_leaves hhost' hs started) (fun _ => rfl) (fun _ => rfl) fun _ => .refl _

theorem Linker.instantiate_agrees {l : Nat} (hs : .tenure s known none ∈ L)
    (hl : L.Has (.linker l)) (module : Nat) :
    Agrees L (Linker.instantiate host s l module) (Unwinding.instantiate host' s l module) := by
  refine Agrees.world fun w => Agrees.orAbort fun m => ?_
  refine Agrees.bind (.refl _) (Linker.take_meets hl fun _ _ h => Linker.resolve_mem _ h)
    fun items N hN => Agrees.ensuring ?_ _
  obtain ⟨-, rfl⟩ := hN
  exact Instance.create_agrees hhost hhost' hsame (Multiset.mem_add.mpr (.inr hs))
    (fun x hx => Ledger.has_owns_add hx _) module

theorem Linker.defineModule_agrees {l : Nat} (hs : .tenure s known none ∈ L)
    (hl : L.Has (.linker l)) (name : String) (module : Nat) :
    Agrees L (Linker.defineModule host s l name module)
      (Unwinding.defineModule host' s l name module) := by
  refine Agrees.bind (Linker.instantiate_agrees hhost hhost' hsame hs hl module)
    (Linker.instantiate_leaves hhost hs hl module) fun i N hN => ?_
  exact .refl _

end Correspondence

end WasmHost.Host
