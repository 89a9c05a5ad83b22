import WasmHost.Proofs.Requests

/-!
# What programs leave

A program keeps its ledger whatever it asks for, as long as it runs where it can: with the tenure of
its caller's store, with arguments and captured things that somebody keeps. So closures whose code is
a program are fair to whoever calls them, to any depth.

This is where the circle closes. An operation keeps its ledger if the closures it runs are fair; a
closure is fair if the requests of its program keep their ledgers; and some requests are operations
that run closures. There is no well-founded order on programs, since a closure may ask for a call of
itself. What there is, is a bound on the number of calls inside one another (`Embedder.hostTo`), as
there is one on every machine's stack, and `fair_hostTo` is the induction on it. A run that exceeds
the bound has no end, and nothing is said of it.

A program of a closure runs with what its caller has. `Setting.Fits` says that this is enough for
whatever it may ask: its store is that of the caller, whose tenure is in the ledger; its arguments
are kept until it has come to its end; and what the closure keeps alive is vouched for by the
closure, which the caller knows.
-/

namespace WasmHost.Host

open Act

variable {κ α : Type} {L : Ledger (Code κ)}

/-- A program can run with a ledger where it does. -/
structure Setting.Fits (at_ : Setting κ) (L : Ledger (Code κ)) : Prop where
  calls : at_.calls.Fair
  caller : ∀ c, at_.caller = some c → ∃ known, .tenure c.store known none ∈ L
  args : ∀ x ∈ Val.sharesAll at_.args, L.Has x
  captures : ∀ c ∈ at_.captures, L.Has c.share

namespace Job

variable {at_ : Setting κ}

/-! ## Requests -/

theorem onStore_keeps (hat : at_.Fits L) {ref : StoreRef} {m : Nat → Job κ Reply}
    (hm : ∀ s known N, .tenure s known none ∈ N → (m s).Keeps N) : (onStore at_ ref m).Keeps L := by
  unfold onStore
  split
  · -- A closure uses the store it was called from, and need not take it out of the pool;
    rename_i c hc
    obtain ⟨known, hs⟩ := hat.caller c hc
    exact hm c.store known L hs
  · exact Leaves.pure rfl
  · -- any other program takes a store out, and puts it back however the request ends.
    rename_i i
    refine Meets.bind (take_meets Thing.store?) fun o N hN => ?_
    cases o with
    | none =>
      subst hN
      exact Leaves.pure rfl
    | some s =>
      obtain ⟨t, ht, rfl⟩ := hN
      obtain rfl : t = .store s := by cases t <;> simp_all [Thing.store?]
      exact Leaves.ensuring (hm s [] _ (Multiset.mem_cons_self _ _)) (fun _ => put_leaves) put_leaves

/-- A new thing of the world that is put into the pool. -/
theorem answerNew_keeps {f : World (Code κ) Pool → Nat × World (Code κ) Pool} {c : Nat → Capture}
    {N : Ledger (Code κ)} (hu : ∀ w, (f w).2.user = w.user) (hl : L.Alike N)
    (h : ∀ T w, Sound (N + T) w → (∀ x, N.Has x → 0 < w.recorded x) →
      Sound (.own (c (f w).1).share ::ₘ (L + T)) (f w).2) :
    Leaves (do answer [c (← make f)] .nothing : Job κ Reply) N (fun _ => L) L := by
  refine Leaves.bind (M := fun n => .own (c n).share ::ₘ L) ?_ fun n =>
    (answer_leaves [c n] _).cast (by simp)
  refine Leaves.make hu (by simp [hl]) fun T w hs hpos => ?_
  exact (h T w hs hpos).cast (Multiset.cons_add _ _ _).symm

/-- Something that may be there is shared. -/
theorem shareIf_keeps {o : Option Capture} (h : ∀ c, o = some c → L.Has c.share) :
    (shareIf o : Job κ Reply).Keeps L := by
  cases o with
  | none => exact Leaves.pure rfl
  | some c => exact share_keeps (h c rfl)

/-- A request keeps the ledger of the program that makes it, one case for each request. Those that
use a store come down to queries. -/
theorem carryOut_keeps (hat : at_.Fits L) (r : Request κ) : (carryOut at_ r).Keeps L := by
  cases r with
  | engine config =>
    exact Leaves.bind (Engine.create_leaves config) fun e => (answer_leaves [.engine e] _).cast
      (by simp [Capture.share])
  | incrementEpoch e =>
    exact lendingEngine_keeps fun e N _ _ => answerDone_keeps (Engine.incrementEpoch_leaves e)
  | store e limits =>
    refine lendingEngine_keeps fun e N _ he => ?_
    refine Leaves.bind (M := fun s => .tenure s [] none ::ₘ N) (counted_gives ?_) fun s =>
      Leaves.bind (own_leaves (.store s)) fun i => Leaves.pure rfl
    cases limits with
    | none => exact Store.create_leaves (he.cons _)
    | some limits => exact Store.createWith_leaves he limits
  | module e compiled =>
    exact lendingEngine_keeps fun e N _ he => answerNew_keeps (fun _ => rfl) (.refl N)
      fun T w hs hpos => hs.newModule (hpos _ he) compiled
  | linker e =>
    exact lendingEngine_keeps fun e N _ he => answerNew_keeps (fun _ => rfl) (.refl N)
      fun T w hs hpos => hs.newLinker (hpos _ he)
  | allowShadowing l allow =>
    refine lendingLinker_keeps fun l N _ _ => answerDone_keeps ?_
    exact Leaves.update (fun _ => rfl) (.refl N) fun _ _ h _ =>
      h.modifyLinker (fun _ => rfl) fun _ => rfl
  | define l module name i =>
    refine lendingLinker_keeps fun l N _ hl => ?_
    refine Meets.bind (take_meets fun t => t.capture?.bind Capture.item?) fun o M hM => ?_
    cases o with
    | none =>
      subst hM
      exact Leaves.pure rfl
    | some item =>
      obtain ⟨t, ht, rfl⟩ := hM
      rw [Capture.token_of_bind (f := fun i => i.wrapper.share) ht Capture.share_of_item?]
      exact answerDone_keeps (Linker.define_leaves hl module name item)
  | get l module name =>
    refine lendingLinker_keeps fun l N _ hl => answerItems_keeps
      (f := fun item : Option Item => item.toList.map fun item => (name, item)) ?_
    simpa [Function.comp_def] using Linker.get?_leaves hl module name
  | object data captures =>
    refine Leaves.bind (takeAll_leaves (fun _ _ => Capture.share_of_wrapper?) captures) fun xs => ?_
    refine answerNew_keeps (fun _ => rfl) (by simp [Ledger.Alike.refl]) fun T w hs _ => ?_
    exact (hs.cast (add_assoc _ _ _)).newObject data
  | log =>
    refine answerNumber_keeps (Leaves.make (fun _ => rfl) (fun _ => .refl L) fun T w hs _ => ?_)
    exact hs.setLogs _
  | clone i =>
    refine lending_keeps fun c N _ hc => share_keeps ?_
    obtain ⟨c', hc', hx⟩ := hc
    cases hc'
    exact hx
  | drop i =>
    refine Meets.bind (take_meets some) fun o N hN => ?_
    cases o with
    | none =>
      subst hN
      exact Leaves.pure rfl
    | some t =>
      obtain ⟨t, ht, rfl⟩ := hN
      cases ht
      exact answerDone_keeps (letGo_leaves t)
  | argument index =>
    refine shareIf_keeps fun c hc => hat.args _ ?_
    obtain ⟨v, hv, hc⟩ := Option.bind_eq_some_iff.mp hc
    exact List.mem_flatMap.mpr ⟨v, List.mem_of_getElem? hv, by simp [Val.shares, hc]⟩
  | captured index => exact shareIf_keeps fun c hc => hat.captures c (List.mem_of_getElem? hc)
  | callerExport name =>
    simp only [carryOut]
    split
    · rename_i c hc
      obtain ⟨known, hs⟩ := hat.caller c hc
      refine answerItems_keeps
        (f := fun item : Option Item => item.toList.map fun item => (name, item)) ?_
      simpa [Function.comp_def] using Caller.getExport_leaves _ name
    · exact Leaves.pure rfl
  | query ref q =>
    exact onStore_keeps hat fun s known N hs => query_keeps hat.calls hs q

/-- Errors and panics come back to the program, and so does its ledger. -/
theorem reply_keeps (hat : at_.Fits L) (r : Request κ) : (reply at_ r).Keeps L := by
  have h : (attempt (carryOut at_ r)).Leaves L (fun _ => L) L :=
    Leaves.attempt (carryOut_keeps hat r) fun _ => rfl
  refine Leaves.bind (Leaves.catchPanic (P := fun _ => L) h fun _ => rfl) fun res => ?_
  obtain p | e | reply := res <;> exact Leaves.pure rfl

end Job

/-! ## Programs -/

namespace Program

variable {at_ : Setting κ}

theorem run_keeps (hat : at_.Fits L) (p : Program κ α) : Job.Keeps (p.run at_) L := by
  induction p with
  | finish a => exact Leaves.pure rfl
  | ask r next ih => exact Leaves.bind (Job.reply_keeps hat r) fun reply => ih reply

theorem runClosure_leaves (hat : at_.Fits L) (p : Program κ Ending) :
    (p.runClosure at_).Leaves L
      (fun res => Ledger.owns (Share.ofExcept Val.sharesAll res) + L) L := by
  refine Leaves.bind (run_keeps hat p) fun ending => ?_
  cases ending with
  | values vs => exact Leaves.bind (Job.give_leaves vs) fun vs => Leaves.pure rfl
  | trap t => exact Leaves.pure (zero_add _).symm
  | panic p => exact Leaves.panic rfl

end Program

/-! ## Closures of an embedder -/

/-- A program that does not belong to a closure can run anywhere. -/
theorem Setting.fits_outside {calls : Calls κ} (hcalls : calls.Fair) :
    Setting.Fits ⟨calls, none, [], []⟩ L where
  calls := hcalls
  caller c hc := by cases hc
  args x hx := by cases hx
  captures c hc := by cases hc

/-- The program of a closure can run where the closure is called. -/
theorem Setting.fits_closure {calls : Calls κ} (hcalls : calls.Fair) {key : Nat}
    {r : Registration (Code κ)} {known : List (Pin (Code κ))} {args : List Val}
    (hs : .tenure r.store ((key, r) :: known) none ∈ L)
    (hargs : ∀ x ∈ Val.sharesAll args, L.Has x) (instance_ : Option Nat) :
    Setting.Fits ⟨calls, some ⟨r.store, instance_⟩, args, r.captures⟩ L where
  calls := hcalls
  caller c hc := by
    cases hc
    exact ⟨_, hs⟩
  args := hargs
  captures c hc := by
    refine ⟨_, hs, .inr ⟨(key, r), List.mem_cons_self .., ?_⟩⟩
    exact Multiset.mem_cons_of_mem (List.mem_map_of_mem hc)

namespace Embedder

variable (embedder : Embedder κ)

/-- Closures whose code is a program are fair if what they call is. -/
theorem fair_host {calls : Calls κ} (hcalls : calls.Fair) : Host.Fair (embedder.host calls) := by
  exact Host.fair_host fun key r known instance_ args L code hs hargs =>
    Program.runClosure_leaves (Setting.fits_closure hcalls hs hargs instance_) _

/-- The closures of an embedder are fair, to whatever depth they call one another. -/
theorem fair_hostTo (depth : Nat) : Host.Fair (embedder.hostTo depth) := by
  induction depth with
  | zero => exact fun _ _ _ _ _ _ _ _ => Leaves.exhaust
  | succ depth ih => exact embedder.fair_host (Calls.fair_through ih)

end Embedder

end WasmHost.Host
