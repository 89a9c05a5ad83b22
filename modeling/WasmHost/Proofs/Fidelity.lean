import WasmHost.Proofs.Relaying
import WasmHost.Proofs.Interleavings

/-!
# Programs cannot tell how panics travel

A program asks for calls and goes on with what becomes of them; its closures are called back, panic,
and catch the panics of calls that they make themselves, to any depth and in any number of stores.
All this comes to the same whether panics are relayed past the guest or unwind through it: every
reply is the same, and so is the world at the end.

This is where the two meanings of calls are put side by side: `Calls.through`, which keeps a payload
with the store and raises it again behind the guest, and `Calls.unwinding`, where nothing is kept
and nothing is raised. The second one is the specification. It cannot be carried out by a host that
must not unwind through foreign frames, but there is nothing in it that could go wrong.

Programs call closures, and closures are programs, so what is to be shown of calls is needed for
closures and the other way round. This ends because closures are nested only so deep. The induction
on the depth is the only one in this module that matters, in `same_hostTo`. Everything else carries
the agreement through one construct after another.

The agreement is one of actions in a ledger, `Agrees`, and not equality of actions. The two differ
in worlds in which a store keeps a payload before it is called, and only in those. That there are
none is the invariant, so an action may be replaced by the other one where the ledger says so.
-/

namespace WasmHost.Host

open Act

variable {κ α β : Type} {L : Ledger (Code κ)} {s : Nat} {known : List (Pin (Code κ))}

/-- Guest code runs with a meaning of closures, and panics unwind through it. -/
def Calls.unwinding (host : Runner (Code κ) Pool) : Calls κ where
  call := Unwinding.call host
  instance_ := Unwinding.create host
  instantiate := Unwinding.instantiate host
  defineModule := Unwinding.defineModule host

/-- The meaning of the closures of an embedder, nested up to a depth, where panics unwind through
guest code. -/
def Embedder.unwindingTo (embedder : Embedder κ) : Nat → Runner (Code κ) Pool
  | 0 => fun _ _ _ _ => exhaust
  | depth + 1 => embedder.host (Calls.unwinding (embedder.unwindingTo depth))

/-- Calls keep their contract if closures do, also where panics unwind. -/
theorem Calls.fair_unwinding {host : Runner (Code κ) Pool} (h : Host.Fair host) :
    (Calls.unwinding host).Fair where
  call := Unwinding.call_leaves h
  instance_ := Unwinding.create_leaves h
  instantiate := Unwinding.instantiate_leaves h
  defineModule := Unwinding.defineModule_leaves h

/-- Two kinds of calls that cannot be told apart. -/
structure Calls.Same (calls calls' : Calls κ) : Prop where
  call : ∀ {L : Ledger (Code κ)} {s : Nat} {known : List (Pin (Code κ))} {f : Handle}
    {args : List Val}, .tenure s known none ∈ L → L.Has (.handle f (.item .func)) →
    (∀ x ∈ Val.sharesAll args, L.Has x) → Agrees L (calls.call s f args) (calls'.call s f args)
  instance_ : ∀ {L : Ledger (Code κ)} {s : Nat} {known : List (Pin (Code κ))} {imports : List Item},
    .tenure s known none ∈ L → (∀ x ∈ Item.sharesAll imports, L.Has x) → ∀ module,
    Agrees L (calls.instance_ s module imports) (calls'.instance_ s module imports)
  instantiate : ∀ {L : Ledger (Code κ)} {s l : Nat} {known : List (Pin (Code κ))},
    .tenure s known none ∈ L → L.Has (.linker l) → ∀ module,
    Agrees L (calls.instantiate s l module) (calls'.instantiate s l module)
  defineModule : ∀ {L : Ledger (Code κ)} {s l : Nat} {known : List (Pin (Code κ))},
    .tenure s known none ∈ L → L.Has (.linker l) → ∀ name module,
    Agrees L (calls.defineModule s l name module) (calls'.defineModule s l name module)

theorem Calls.same_unwinding {host host' : Runner (Code κ) Pool} (h : Host.Fair host)
    (h' : Host.Fair host') (hsame : SameHost host host') :
    (Calls.through host).Same (Calls.unwinding host') where
  call := Func.call_agrees h h' hsame
  instance_ := Instance.create_agrees h h' hsame
  instantiate := Linker.instantiate_agrees h h' hsame
  defineModule := Linker.defineModule_agrees h h' hsame

/-! ## Requests

All but four kinds of queries never call guest code, and for these there is nothing to compare. -/

namespace Job

theorem lending_agrees {i : Nat} {sort : Capture → Option β} {m m' : β → Job κ Reply}
    (hm : ∀ b N, L ≤ N → Lends sort N b → Agrees N (m b) (m' b)) :
    Agrees L (lending i sort m) (lending i sort m') := by
  refine Agrees.bind (E := L) (.refl _) (lend_meets sort) fun o N hN => ?_
  cases o with
  | none => exact .refl _
  | some b =>
    obtain ⟨c, hc, rfl⟩ := hN
    exact Agrees.ensuring
      (hm b _ (Multiset.le_cons_self _ _) ⟨c, hc, Ledger.has_loan _ _ _⟩) _

theorem lendingAll_agrees {sort : Capture → Option β} {is : List Nat}
    {m m' : List β → Job κ Reply}
    (hm : ∀ bs N, L ≤ N → (∀ b ∈ bs, Lends sort N b) → Agrees N (m bs) (m' bs)) :
    Agrees L (lendingAll sort is m) (lendingAll sort is m') := by
  induction is generalizing L m m' with
  | nil => exact hm [] L le_rfl (by simp)
  | cons i is ih =>
    refine lending_agrees fun b N hN hb => ih fun bs M hM hbs => hm (b :: bs) M (hN.trans hM) ?_
    intro b' hb'
    rcases List.mem_cons.mp hb' with rfl | hb'
    · exact hb.imp fun c hc => ⟨hc.1, hc.2.of_le hM⟩
    · exact hbs b' hb'

theorem lendingArgs_agrees {as : List Arg} {m m' : List Val → Job κ Reply}
    (hm : ∀ vs N, L ≤ N → (∀ x ∈ Val.sharesAll vs, N.Has x) → Agrees N (m vs) (m' vs)) :
    Agrees L (lendingArgs as m) (lendingArgs as m') := by
  induction as generalizing L m m' with
  | nil => exact hm [] L le_rfl (by simp)
  | cons a as ih =>
    have hcons : ∀ v N, L ≤ N → (∀ x ∈ v.shares, N.Has x) →
        Agrees N (lendingArgs as fun vs => m (v :: vs)) (lendingArgs as fun vs => m' (v :: vs)) := by
      intro v N hN hv
      refine ih fun vs M hM hvs => hm (v :: vs) M (hN.trans hM) fun x hx => ?_
      rw [Val.sharesAll_cons] at hx
      rcases List.mem_append.mp hx with hx | hx
      · exact (hv x hx).of_le hM
      · exact hvs x hx
    cases a with
    | plain v => exact hcons (plain v) L le_rfl (by simp [shares_plain])
    | thing i =>
      refine lending_agrees fun v N hN hv => hcons v N hN ?_
      obtain ⟨c, hc, hx⟩ := hv
      simpa [Capture.shares_of_val? hc] using hx

theorem query_agrees {calls calls' : Calls κ} (hcalls : calls.Same calls')
    (hs : .tenure s known none ∈ L) (q : Query κ) :
    Agrees L (query calls s q) (query calls' s q) := by
  have tenure {N : Ledger (Code κ)} (hN : L ≤ N) : .tenure s known none ∈ N :=
    Multiset.mem_of_le hN hs
  cases q with
  | call f args =>
    refine lending_agrees fun f N hN hf => lendingArgs_agrees fun args M hM hargs => ?_
    obtain ⟨c, hc, hx⟩ := hf
    exact Agrees.after (hcalls.call (tenure (hN.trans hM))
      (Capture.share_of_handle? hc ▸ hx.of_le hM) hargs) _
  | instance_ m imports =>
    refine lending_agrees fun m N hN _ => lendingAll_agrees fun items M hM hitems => ?_
    refine Agrees.after (hcalls.instance_ (tenure (hN.trans hM)) (fun x hx => ?_) m) _
    obtain ⟨item, hitem, rfl⟩ := List.mem_map.mp hx
    obtain ⟨c, hc, hx⟩ := hitems item hitem
    exact Capture.share_of_item? hc ▸ hx
  | defineModule l name m =>
    refine lending_agrees fun l N hN hl => lending_agrees fun m M hM _ => ?_
    obtain ⟨c, hc, hx⟩ := hl
    exact Agrees.after (hcalls.defineModule (tenure (hN.trans hM))
      (Capture.share_of_linker? hc ▸ hx.of_le hM) name m) _
  | instantiate l m =>
    refine lending_agrees fun l N hN hl => lending_agrees fun m M hM _ => ?_
    obtain ⟨c, hc, hx⟩ := hl
    exact Agrees.after (hcalls.instantiate (tenure (hN.trans hM))
      (Capture.share_of_linker? hc ▸ hx.of_le hM) m) _
  | _ => exact .refl _

variable {at_ : Setting κ} {calls : Calls κ}

theorem carryOut_agrees (hat : at_.Fits L) (hcalls : at_.calls.Same calls) (r : Request κ) :
    Agrees L (carryOut at_ r) (carryOut { at_ with calls } r) := by
  cases r with
  | query ref q =>
    show Agrees L (onStore at_ ref fun s => query at_.calls s q)
      (onStore at_ ref fun s => query calls s q)
    unfold onStore
    split
    · rename_i c hc
      obtain ⟨known, hs⟩ := hat.caller c hc
      exact query_agrees hcalls hs q
    · exact .refl _
    · refine Agrees.bind (E := L) (.refl _) (take_meets Thing.store?) fun o N hN => ?_
      cases o with
      | none => exact .refl _
      | some s =>
        obtain ⟨t, ht, rfl⟩ := hN
        obtain rfl : t = .store s := by cases t <;> simp_all [Thing.store?]
        exact Agrees.ensuring (query_agrees hcalls (Multiset.mem_cons_self _ _) q) _
  | _ => exact .refl _

/-- Every reply is the same. -/
theorem reply_agrees (hat : at_.Fits L) (hcalls : at_.calls.Same calls) (r : Request κ) :
    Agrees L (reply at_ r) (reply { at_ with calls } r) :=
  (((carryOut_agrees hat hcalls r).after _).after _).after _

end Job

/-! ## Programs

A request is answered in the same way, so the program goes on with the same reply. -/

namespace Program

variable {at_ : Setting κ} {calls : Calls κ}

theorem run_agrees (hat : at_.Fits L) (hcalls : at_.calls.Same calls) (p : Program κ α) :
    Agrees L (p.run at_) (p.run { at_ with calls }) := by
  induction p with
  | finish a => exact .refl _
  | ask r next ih =>
    refine Agrees.bind (Job.reply_agrees hat hcalls r) (Job.reply_keeps hat r) fun reply N hN => ?_
    subst hN
    exact ih reply

theorem runClosure_agrees (hat : at_.Fits L) (hcalls : at_.calls.Same calls)
    (p : Program κ Ending) : Agrees L (p.runClosure at_) (p.runClosure { at_ with calls }) :=
  (run_agrees hat hcalls p).after _

end Program

namespace Embedder

variable (embedder : Embedder κ)

theorem same_host {calls calls' : Calls κ} (hfair : calls.Fair) (hcalls : calls.Same calls') :
    SameHost (embedder.host calls) (embedder.host calls') := by
  intro key r known instance_ args L hs hargs
  unfold Embedder.host Code.host
  cases r.code with
  | custom code =>
    exact Program.runClosure_agrees (Setting.fits_closure hfair hs hargs instance_) hcalls _
  | _ => exact .refl _

theorem fair_unwindingTo (depth : Nat) : Host.Fair (embedder.unwindingTo depth) := by
  induction depth with
  | zero => exact fun _ _ _ _ _ _ _ _ => Leaves.exhaust
  | succ depth ih => exact embedder.fair_host (Calls.fair_unwinding ih)

/-- Closures that are nested less deep cannot be told apart, and so neither can those that call
them. -/
theorem same_hostTo (depth : Nat) :
    SameHost (embedder.hostTo depth) (embedder.unwindingTo depth) := by
  induction depth with
  | zero => exact fun _ _ _ _ _ _ _ _ => .refl _
  | succ depth ih =>
    exact embedder.same_host (Calls.fair_through (embedder.fair_hostTo depth))
      (Calls.same_unwinding (embedder.fair_hostTo depth) (embedder.fair_unwindingTo depth) ih)

end Embedder

/-! ## Payloads

That no store keeps a payload when it has no panic to deliver. A payload that stayed behind would be
raised by the next call that traps, whatever has trapped there. -/

/-- Payloads stay with stores only while a trap is on its way that takes the place of a panic. -/
structure World.PayloadsInPlace (w : World (Code κ) Pool) : Prop where
  /-- No store was given a payload while it kept another one. -/
  single : ∀ s, .overwritten s ∉ w.faults
  /-- No store kept a payload when it called a host function. -/
  entries : ∀ e ∈ w.chronicle.entries, e.panic = none
  /-- A store that is in nobody's use keeps none. -/
  idle : ∀ i s n, w.user.at? i = some ⟨.store s, n⟩ → w.kept? s = none
  /-- A store that is deleted keeps none. -/
  gone : ∀ s, w.guest? s = none → w.kept? s = none

/-- A store in the pool is nobody's. -/
theorem Invariant.idle {w : World (Code κ) Pool} (hw : Invariant L w) {i n : Nat}
    (h : w.user.at? i = some ⟨.store s, n⟩) : ∃ c g, w.stores[s]? = some c ∧ c.guest = some g ∧
      c.panic = none := by
  have hmem : .tenure s [] none ∈ (w.user.kept : Ledger (Code κ)) :=
    mem_total.mpr ⟨i, _, Pool.places_of_at? h, by simp [Pool.placeTokens, Thing.token]⟩
  have hclaim : .tenure s [] none ∈ (L + w.user.kept).claims :=
    Multiset.mem_filter.mpr ⟨Multiset.mem_add.mpr (.inr hmem), rfl⟩
  obtain ⟨c, g, hc, hg, hp, -⟩ := hw.sound.hosted.tenured s [] none hclaim
  exact ⟨c, g, hc, hg, hp⟩

theorem Invariant.payloadsInPlace {w : World (Code κ) Pool} (hw : Invariant L w) :
    w.PayloadsInPlace where
  single s hf := by cases hw.sound.blameless.faultless _ hf
  entries := hw.sound.blameless.quiet
  idle i s n h := by
    obtain ⟨c, g, hc, -, hp⟩ := hw.idle h
    simp [World.kept?, hc, hp]
  gone s h := by
    cases hc : w.stores[s]? with
    | none => simp [World.kept?, hc]
    | some c =>
      have hg : c.guest = none := by simpa [World.guest?, hc] using h
      simp [World.kept?, hc, (hw.sound.hosted.vacant s c hc hg).1]

/-- No program can tell from a world on whether panics are relayed past guest code or unwind. -/
theorem Embedder.run_eq (embedder : Embedder κ) {w : World (Code κ) Pool} (hw : Invariant L w)
    (depth : Nat) (p : Program κ α) :
    (p.run ⟨Calls.through (embedder.hostTo depth), none, [], []⟩).run w =
      (p.run ⟨Calls.unwinding (embedder.unwindingTo depth), none, [], []⟩).run w := by
  have hfair := Calls.fair_through (embedder.fair_hostTo depth)
  have hsame := Calls.same_unwinding (embedder.fair_hostTo depth)
    (embedder.fair_unwindingTo depth) (embedder.same_hostTo depth)
  have hagrees := p.run_agrees (Setting.fits_outside (L := 0) hfair) hsame
  -- The agreement is used in this world, where the invariant holds.
  exact hagrees L w (by simpa using hw)

/-- In every world that an embedder reaches, payloads are where they should be, and no program can
tell from there on whether panics are relayed past guest code or unwind through it: it ends in the
same way, with the same world. -/
theorem Embedder.panics_relayed (embedder : Embedder κ) (depth : Nat)
    (programs : List (Program κ Unit)) (order : List Nat) :
    ((embedder.start depth programs).run order).world.PayloadsInPlace ∧
    ∀ (nesting : Nat) (p : Program κ α),
      (p.run ⟨Calls.through (embedder.hostTo nesting), none, [], []⟩).run
          ((embedder.start depth programs).run order).world =
        (p.run ⟨Calls.unwinding (embedder.unwindingTo nesting), none, [], []⟩).run
          ((embedder.start depth programs).run order).world := by
  obtain ⟨Ls, -, hw⟩ := (embedder.safe_start depth programs).run order
  exact ⟨hw.payloadsInPlace, embedder.run_eq hw⟩

end WasmHost.Host
