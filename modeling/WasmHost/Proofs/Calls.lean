import WasmHost.Proofs.Linking
import WasmHost.Proofs.GuestFunctions

/-!
# What calls leave

A call keeps the ledger of whoever makes it, as long as closures do (`Fair`): they may rely on
the store of their caller, on what they keep alive and on their arguments. While guest code runs,
the caller comes to know each closure that is called, and the store may come to keep the payload of
a panic; then a trap with the text that takes the place of a panic is on its way, and whoever called
the guest finds the payload.

While guest code runs, the thread that called it has given control away, and closures of which it
knows nothing are called in its name. Two things make it possible to say what it holds when it comes
back. One is the contract `Fair`: a closure leaves the ledger it was called with, to which only the
values it gives are added. The contract is an assumption here, and is proved of closures whose code
is a program elsewhere, where calls that closures make are calls in the sense of this module again;
so the two make up one induction, on the number of calls inside one another. The other is that the
tenure of the store is never given away: while a closure runs, it is in the ledger the closure was
called with.

Which closures may be called is not known before the call. But a thread that stops because a host
function is called *sees* the function, and so comes to know the closure under its key (`Learned`),
for as long as the call takes (`forgetting`).

A panic of a closure cannot pass through guest code, so it is put aside and a trap is sent in its
place. At that point the store keeps a payload, which it must not do when the next host function is
called, or the payload would be overwritten. `Relaying` is what is known in between. A payload is
kept *only if* the run has come to the trap that takes its place; guest code cannot catch it, so no
host function is called any more before whoever entered the guest finds the payload.
-/

namespace WasmHost.Host

open Act

variable {κ σ α : Type} [Keeper κ σ] {L rest : Ledger κ} {s : Nat} {known : List (Pin κ)}

/-- The contract of closures. One may rely on the store of its caller, on what it keeps alive, and on
its arguments, and leaves everything as it was, except for the values it gives. -/
def Fair (host : Runner κ σ) : Prop :=
  ∀ (key : Nat) (r : Registration κ) (known : List (Pin κ)) (instance_ : Option Nat)
    (args : List Val) (L : Ledger κ), .tenure r.store ((key, r) :: known) none ∈ L →
    (∀ x ∈ Val.sharesAll args, L.Has x) →
    (host r.code r.captures ⟨r.store, instance_⟩ args).Leaves L
      (fun res => Ledger.owns (Share.ofExcept Val.sharesAll res) + L) L

/-- A store may keep the payload of a panic if a trap that takes its place is on its way. -/
def Ledger.Relaying (s : Nat) (known : List (Pin κ)) (L : Ledger κ) (relays : Prop) (M : Ledger κ) :
    Prop := ∃ p, M = .tenure s known p ::ₘ L ∧ (p ≠ none → relays)

namespace Ledger.Relaying

variable {relays relays' : Prop} {M : Ledger κ}

theorem quiet : Relaying s known L relays (.tenure s known none ::ₘ L) :=
  ⟨none, rfl, fun h => absurd rfl h⟩

theorem mono (h : Relaying s known L relays M) (hr : relays → relays') :
    Relaying s known L relays' M := by
  obtain ⟨p, hM, hp⟩ := h
  exact ⟨p, hM, fun hne => hr (hp hne)⟩

end Ledger.Relaying

/-! ## Running guest code

One stretch of guest code, from where it is entered to where it stops. It may do anything to its
store except what the shape of a store excludes. -/

/-- What is known of a closure may be forgotten. -/
theorem Invariant.forget {R : Ledger κ} {w : World κ σ} {k : Pin κ} {p : Option Payload}
    (hw : Invariant (R + .tenure s (k :: known) p ::ₘ L) w) :
    Invariant (R + .tenure s known p ::ₘ L) w := by
  refine hw.of_sound rfl ?_ (by simp [Ledger.Alike.refl])
  rw [Multiset.cons_add]
  exact (hw.apart.cast (Multiset.cons_add _ _ _)).forget (List.subset_cons_self ..)

/-- What became known of a closure during a call is forgotten with it. -/
theorem forgetting {m : Act κ σ α} {k : Pin κ} {M : Ledger κ} {P : α → Prop}
    (hm : m.Meets M (fun a => Ledger.Relaying s (k :: known) L (P a))
      (.tenure s (k :: known) none ::ₘ L)) :
    m.Meets M (fun a => Ledger.Relaying s known L (P a)) (.tenure s known none ::ₘ L) := by
  refine Safe.settle hm fun r N hr hN R w hw => ?_
  cases r with
  | value a =>
    obtain ⟨p, rfl, hp⟩ := hN
    exact ⟨_, hw.forget, p, rfl, hp⟩
  | failure e =>
    obtain rfl : N = _ := hN
    exact ⟨_, hw.forget, rfl⟩
  | panic q =>
    obtain rfl : N = _ := hN
    exact ⟨_, hw.forget, rfl⟩
  | _ => cases hr

/-- When guest code stops, the closure that it calls, if it does, is known. -/
def Ledger.Learned (s : Nat) (known : List (Pin κ)) (L : Ledger κ) : Guest.Event → Ledger κ → Prop
  | .called key _ _ _ _, M =>
    ∃ r : Registration κ, r.store = s ∧ M = .tenure s ((key, r) :: known) none ::ₘ L
  | _, M => M = .tenure s known none ::ₘ L

theorem advance_meets {start : Guest.Store → Guest.Progress}
    (hstart : ∀ g : Guest.Store, (start g).Among g.shape) (now bound : Nat) :
    (onGuest s fun g =>
      let (g, event) := Guest.advance now bound (start g)
      (event, g) : Act κ σ Guest.Event).Meets (.tenure s known none ::ₘ L)
        (Ledger.Learned s known L) rest := by
  have hadvance := fun g => Guest.advance_among (hstart g) now bound
  refine Safe.make (fun w => ?_) fun T w h _ => ?_
  · unfold World.onGuest
    split <;> rfl
  · have hs := h.onGuest (s := s) (f := fun g =>
      ((Guest.advance now bound (start g)).2, (Guest.advance now bound (start g)).1))
      fun g => .of_shape (hadvance g).1
    unfold World.onGuest at hs ⊢
    split
    · exact ⟨_, .refl _, h, Meets.stuck⟩
    · rename_i g hg
      simp only [hg] at hs
      have hg' := World.guestAt_setGuest hg (Guest.advance now bound (start g)).1
      have hevent := (hadvance g).2
      rw [← (hadvance g).1] at hevent
      dsimp only
      generalize (Guest.advance now bound (start g)).1 = g' at *
      generalize (Guest.advance now bound (start g)).2 = event at *
      cases event with
      | called key type args thread =>
        obtain ⟨r, hr, hl⟩ := (hs.cast (Multiset.cons_add _ _ _)).learn hg'
          (World.mem_hostKeys.mpr (hevent.imp fun _ h => ⟨type, h⟩))
        exact ⟨_, by simp [Ledger.Alike.refl], hl.cast (Multiset.cons_add _ _ _).symm,
          Meets.pure ⟨r, hr, rfl⟩⟩
      | _ => exact ⟨_, .refl _, hs, Meets.pure rfl⟩

/-- Whatever becomes of a run, the frames that were set aside for it come back. -/
theorem entering_meets {m : Act κ σ α} {P : α → Ledger κ → Prop} (hm : m.Meets L P rest) :
    (entering s m).Meets L P rest := by
  refine Meets.bind (onGuest_leaves' fun g => rfl) fun before N hN => ?_
  subst hN
  have hback : ∀ M, (update fun w : World κ σ => w.modifyStore s fun c =>
      { c with guest := c.guest.map fun g =>
        { g with
          exited := before.exited
          suspended := before.suspended
          stackUsed := before.stackUsed } }).Leaves M (fun _ => M) rest :=
    fun M => Leaves.update (fun _ => rfl) (.refl M) fun T w h _ => h.mapGuest fun g _ => .of_shape rfl
  exact Meets.ensuring hm (fun a M hM => (hback M).mono fun _ _ h => h ▸ hM) (hback rest)

section Closures

variable {host : Runner κ σ} (hhost : Fair host)

include hhost

/-! ## Closures -/

theorem runClosure_leaves {key : Nat} {r : Registration κ} (instance_ : Option Nat)
    {args : List (Packed r.store)} (hs : .tenure r.store ((key, r) :: known) none ∈ L)
    (hargs : ∀ x ∈ Packed.sharesAll args, L.Has x) :
    (runClosure host r instance_ args).Leaves L
      (fun res => Ledger.owns (Share.ofExcept Packed.sharesAll res) + L) L := by
  refine Leaves.bind (unpackAll_leaves (Ledger.has_of_tenure hs) hargs) fun params => ?_
  refine Leaves.holding (fun _ => releaseVals_leaves params) ?_ fun _ => add_left_comm _ _ _
  refine Leaves.bind (hhost key r known instance_ params _ (Multiset.mem_add.mpr (.inr hs))
    fun x hx => Ledger.has_owns_add hx _) fun res => ?_
  cases res with
  | error trap => exact Leaves.pure rfl
  | ok values =>
    refine Leaves.holding (fun _ => releaseVals_leaves values) ?_ fun _ => add_left_comm _ _ _
    split
    · exact Leaves.pure (by simp [Share.ofExcept])
    · refine Leaves.bind (packAll_leaves fun v hv x hx => ?_) fun ps => Leaves.pure rfl
      exact Ledger.has_owns_add (List.mem_flatMap.mpr ⟨v, hv, hx⟩) _

theorem callHost_meets {key : Nat} {r : Registration κ} (hr : r.store = s) (instance_ : Option Nat)
    (args : List Guest.Value) :
    (callHost host s key instance_ args).Meets (.tenure s ((key, r) :: known) none ::ₘ L)
      (fun res => Ledger.Relaying s ((key, r) :: known) L
        (res = .error (.hostTrap panicMessage)))
      (.tenure s ((key, r) :: known) none ::ₘ L) := by
  subst hr
  refine Meets.bind (exposeAll_leaves _ args) fun res N hN => ?_
  subst hN
  cases res with
  | error fault =>
    refine Meets.pure ?_
    simpa [Share.ofExcept] using Ledger.Relaying.quiet
  | ok packed =>
    -- The packed arguments are kept until the closure is over, whatever it does.
    let X : Ledger κ := Ledger.owns (Packed.sharesAll packed)
    let U : Ledger κ := .tenure r.store ((key, r) :: known) none ::ₘ L
    refine Meets.ensuring (L := X + U) (M := fun res N => ∃ M, N = X + M ∧
      Ledger.Relaying r.store ((key, r) :: known) L (res = .error (.hostTrap panicMessage)) M)
      ?_ (fun res N hN => ?_) (releasePackedAll_leaves packed)
    · have hs : .tenure r.store ((key, r) :: known) none ∈ X + U := by simp [U]
      refine Safe.make (fun _ => rfl) fun T w h _ => ⟨_, .refl _, ?_⟩
      obtain ⟨hfound, hsound⟩ := h.lookup (Multiset.mem_add.mpr (.inl hs)) (List.mem_cons_self ..) _
      rw [hfound]
      refine ⟨hsound, ?_⟩
      -- From here on nothing fails: a panic is caught, and an error is a result.
      refine Meets.bind (Leaves.catchPanic (P := fun res => Ledger.owns
        (Share.ofExcept (Share.ofExcept Packed.sharesAll) res) + (X + U)) (runClosure_leaves hhost
          instance_ hs fun x hx => Ledger.has_owns_add hx _) fun _ => (zero_add _).symm)
        fun res N hN => ?_
      subst hN
      -- The closure has panicked, or asks for a trap, or has given results.
      obtain payload | message | results := res
      · refine Meets.bind (M := fun _ N =>
          N = X + (.tenure r.store ((key, r) :: known) (some payload) ::ₘ L)) ?_ fun _ N hN => ?_
        · refine Meets.make (fun w => ?_) fun T w h _ =>
            ⟨_, by simp [X, U, Share.ofExcept, Ledger.Alike.refl], ?_, rfl⟩
          · simp only [World.stashPanic, World.user_modifyStore]
            split <;> rfl
          · refine ((h.cast (U := .tenure r.store ((key, r) :: known) none ::ₘ (X + L + T)) ?_)
              |>.stashPanic payload).cast ?_
            · simp [U, Share.ofExcept]
            · simp
        · exact Meets.pure ⟨_, hN, some payload, rfl, fun _ => rfl⟩
      · exact Meets.pure ⟨U, zero_add _, .quiet⟩
      · refine Meets.mono (Leaves.holding (P := fun _ => X + U)
          (fun _ => releasePackedAll_leaves results) ?_ fun _ => rfl)
          fun res N hN => ⟨U, hN, .quiet⟩
        refine Leaves.bind (adoptAll_leaves (Multiset.mem_add.mpr (.inr hs))
          fun x hx => Ledger.has_owns_add hx _) fun _ => Leaves.pure rfl
    · obtain ⟨M, rfl, hM⟩ := hN
      exact (releasePackedAll_leaves packed).mono fun _ _ hN => hN ▸ hM

theorem runThread_meets (default : Option Nat) (fuel : Nat) (start : Guest.Store → Guest.Progress)
    (hstart : ∀ g : Guest.Store, (start g).Among g.shape) :
    (runThread host s default fuel start).Meets (.tenure s known none ::ₘ L)
      (fun res => Ledger.Relaying s known L
        (∃ frames, res = .error ⟨.hostTrap panicMessage, frames⟩))
      (.tenure s known none ::ₘ L) := by
  induction fuel generalizing known start with
  | zero => exact Meets.exhaust
  | succ fuel ih =>
    refine Meets.bind (epoch_leaves s) fun now N hN => ?_
    subst hN
    refine Meets.bind (advance_meets hstart now workBound) fun event N hN => ?_
    cases event with
    | finished results =>
      subst hN
      exact Meets.pure .quiet
    | trapped cause frames =>
      subst hN
      exact Meets.pure .quiet
    | stuck => exact Meets.stuck
    | timeout => exact Meets.exhaust
    | called key type args thread =>
      obtain ⟨r, hr, rfl⟩ := hN
      -- The closure is known for the time of this call.
      refine forgetting (k := (key, r)) ?_
      refine Meets.bind (onGuest_leaves' fun g => rfl) fun active N hN => ?_
      subst hN
      refine Meets.bind (callHost_meets hhost hr _ args) fun res N hN => ?_
      cases res with
      | error reason =>
        refine Meets.bind (guest_leaves s) fun g M hM => Meets.pure ?_
        subst hM
        refine hN.mono fun h => ?_
        cases h
        exact ⟨_, rfl⟩
      | ok results =>
        obtain ⟨p, rfl, hp⟩ := hN
        -- The guest goes on, so no trap is on its way, and no payload has been put aside.
        obtain rfl : p = none := by
          by_contra hne
          cases hp hne
        refine ih _ fun g => ?_
        exact Guest.resume_among (g.setStack_shape _) results

theorem callPlace_meets (place : Nat) (default : Option Nat) (args : List Guest.Value) :
    (callPlace host s place default args).Meets (.tenure s known none ::ₘ L)
      (fun res => Ledger.Relaying s known L
        (∃ frames, res = .error ⟨.hostTrap panicMessage, frames⟩))
      (.tenure s known none ::ₘ L) := by
  refine Meets.bind (epoch_leaves s) fun now N hN => ?_
  subst hN
  exact entering_meets (runThread_meets hhost default workBound _ fun g =>
    Guest.enter_among rfl place args)

end Closures

/-! ## Functions -/

/-- An error after which a payload may be kept takes it from the store and panics with it. -/
theorem raise_leaves {P : α → Ledger κ} {M : Ledger κ} {f : Guest.Failure}
    (hM : Ledger.Relaying s known L (∃ message, f.reason = .hostTrap message) M) :
    (raise s f : Act κ σ α).Leaves M P (.tenure s known none ::ₘ L) := by
  obtain ⟨p, rfl, hp⟩ := hM
  unfold raise
  split
  · rename_i fault hf
    refine Leaves.fail ?_
    have hnone : p = none := by
      by_contra hne
      obtain ⟨message, hreason⟩ := hp hne
      obtain ⟨reason, frames⟩ := f
      subst hreason
      simp [Guest.Failure.toError] at hf
    rw [hnone]
  · refine Leaves.bind (M := fun _ => .tenure s known none ::ₘ L) ?_ fun _ => Leaves.fail rfl
    refine Leaves.bind (M := fun _ => .tenure s known none ::ₘ L) ?_ fun o => ?_
    · refine Leaves.make (fun _ => rfl) (by simp [Ledger.Alike.refl]) fun T w h _ => ?_
      exact ((h.cast (Multiset.cons_add _ _ _)).setPanic none).cast (Multiset.cons_add _ _ _).symm
    · cases o with
      | none => exact Leaves.pure rfl
      | some q => exact Leaves.panic rfl

section Calling

variable {host : Runner κ σ} (hhost : Fair host)

include hhost

theorem Func.call_leaves {f : Handle} {args : List Val} (hs : .tenure s known none ∈ L)
    (hf : L.Has (.handle f (.item .func))) (hargs : ∀ x ∈ Val.sharesAll args, L.Has x) :
    (Func.call host s f args).Leaves L (fun vs => Ledger.owns (Val.sharesAll vs) + L) L := by
  refine Leaves.bind (context_leaves s) fun _ => Leaves.bind (funcPlace_leaves hf) fun place => ?_
  refine Leaves.bind (Func.typeAt_leaves place) fun type => ?_
  refine Leaves.bind (M := fun _ => L) (Leaves.ofExcept (fun _ _ => rfl) fun _ _ => rfl) fun _ => ?_
  refine Leaves.bind (packAll_leaves fun v hv x hx => hargs x (List.mem_flatMap.mpr ⟨v, hv, hx⟩))
    fun packed => ?_
  refine Leaves.holding (fun _ => releasePackedAll_leaves packed) ?_ fun _ => add_left_comm _ _ _
  obtain ⟨L, rfl⟩ := Multiset.exists_cons_of_mem hs
  have hstore : ∀ X : Ledger κ, (X + .tenure s known none ::ₘ L).Has (.store s) := fun X =>
    (Ledger.has_of_tenure hs).add X
  refine Leaves.bind (adoptAll_leaves (Multiset.mem_add.mpr (.inr hs))
    fun x hx => Ledger.has_owns_add hx _) fun values => ?_
  rw [Multiset.add_cons]
  refine Meets.bind (callPlace_meets hhost place none values) fun res N hN => ?_
  cases res with
  | error f =>
    refine raise_leaves (hN.mono fun h => ?_)
    obtain ⟨frames, h⟩ := h
    cases h
    exact ⟨_, rfl⟩
  | ok results =>
    obtain ⟨p, rfl, hp⟩ := hN
    -- Results have come back, so there was no trap.
    obtain rfl : p = none := by
      by_contra hne
      obtain ⟨_, h⟩ := hp hne
      cases h
    rw [← Multiset.add_cons]
    refine Leaves.bind (exposeAll_leaves s results) fun res => ?_
    cases res with
    | error fault => exact Leaves.fail (zero_add _)
    | ok results =>
      refine Leaves.holding (m := unpackAll s results) (fun _ => releasePackedAll_leaves results) ?_
        fun _ => add_left_comm _ _ _
      exact unpackAll_leaves ((hstore _).add _) fun x hx => Ledger.has_owns_add hx _

/-! ## Instances -/

theorem callStart_meets (started : Guest.Started) :
    (callStart host s started).Meets (.tenure s known none ::ₘ L)
      (fun res => Ledger.Relaying s known L
        (∃ frames, res = .error ⟨.hostTrap panicMessage, frames⟩))
      (.tenure s known none ::ₘ L) := by
  unfold callStart
  split
  · exact Meets.pure .quiet
  · refine Meets.bind (callPlace_meets hhost _ _ []) fun res N hN => Meets.pure (hN.mono fun h => ?_)
    obtain ⟨frames, rfl⟩ := h
    exact ⟨frames, rfl⟩

theorem Instance.create_leaves {imports : List Item} (hs : .tenure s known none ∈ L)
    (hi : ∀ x ∈ Item.sharesAll imports, L.Has x) (module : Nat) :
    (Instance.create host s module imports).Leaves L
      (fun h => .own (.handle h .instance_) ::ₘ L) L := by
  refine Leaves.bind (context_leaves s) fun _ => Leaves.world fun _ w _ _ => ?_
  refine Leaves.expect fun cell _ => Leaves.expect fun store _ => ?_
  refine Leaves.guard rfl (Leaves.guard rfl ?_)
  refine Leaves.bind (Instance.checkAll_leaves hi) fun _ => ?_
  refine Leaves.bind (Instance.places_leaves hi) fun places => ?_
  refine Leaves.bind (onGuest_leaves fun g => Guest.instantiate_extends g _ _ places) fun res => ?_
  obtain ⟨L, rfl⟩ := Multiset.exists_cons_of_mem hs
  cases res with
  | error f => exact raise_leaves .quiet
  | ok started =>
    refine Meets.bind (callStart_meets hhost started) fun res N hN => ?_
    cases res with
    | error f =>
      refine raise_leaves (hN.mono fun h => ?_)
      obtain ⟨frames, h⟩ := h
      cases h
      exact ⟨_, rfl⟩
    | ok _ =>
      obtain ⟨p, rfl, hp⟩ := hN
      obtain rfl : p = none := by
        by_contra hne
        obtain ⟨_, h⟩ := hp hne
        cases h
      refine Leaves.make (fun _ => rfl) (by simp [Ledger.Alike.refl]) fun T w h hpos => ?_
      have hpresent : (Target.instance_ s started.instance_).Present w.stores := trivial
      exact (h.newHandle (hpos _ (Ledger.has_of_tenure hs)) rfl hpresent).cast
        (Multiset.cons_add _ _ _).symm

theorem Linker.instantiate_leaves {l : Nat} (hs : .tenure s known none ∈ L)
    (hl : L.Has (.linker l)) (module : Nat) :
    (Linker.instantiate host s l module).Leaves L
      (fun h => .own (.handle h .instance_) ::ₘ L) L := by
  refine Leaves.world fun _ w _ _ => Leaves.expect fun m _ => ?_
  refine Meets.bind (Linker.take_meets hl fun _ _ h => Linker.resolve_mem _ h) fun items N hN => ?_
  obtain ⟨-, rfl⟩ := hN
  refine Leaves.holding (m := Instance.create host s module items)
    (fun _ => releaseItems_leaves items) ?_ fun _ => (Multiset.add_cons _ _ _).symm
  exact Instance.create_leaves hhost (Multiset.mem_add.mpr (.inr hs))
    (fun x hx => Ledger.has_owns_add hx _) module

theorem Linker.defineModule_leaves {l : Nat} (hs : .tenure s known none ∈ L)
    (hl : L.Has (.linker l)) (name : String) (module : Nat) :
    (Linker.defineModule host s l name module).Leaves L (fun _ => L) L := by
  refine Leaves.bind (Linker.instantiate_leaves hhost hs hl module) fun i => ?_
  refine Leaves.ensuring (M := fun _ => .own (.handle i .instance_) ::ₘ L)
    (U := .own (.handle i .instance_) ::ₘ L) ?_ (fun _ => releaseHandle_leaves i .instance_)
    (releaseHandle_leaves i .instance_)
  exact Linker.defineInstance_leaves (hl.cons _)
    (Ledger.has_own _ _) name

end Calling

end WasmHost.Host
