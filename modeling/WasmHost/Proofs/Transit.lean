import WasmHost.Proofs.Senses
import WasmHost.Proofs.Forwarding
import WasmHost.Proofs.Relaying

/-!
# Values on their way through a call

A call of a host function, directly or through guest functions that only pass on, comes to run its
closure once, with arguments that stand for those of the call, and gives values that stand for those
of the closure. `Act.Passing` says this of an action; it is proved from the inside out, for what the
engine does to call a host function, for a thread of guest code, and for a call by host code.

A call is an action with another one, the closure, somewhere inside. What is to be said about it
refers to both: to the world in which the closure begins, which is not the one in which the call
began, and to the world in which the closure ended, whatever it did. So a statement of the form "if
the call begins here, it ends there" will not do. `Act.Reaches` says that running the call is
running the closure from some world `w₁`, with everything else coming after it. `Act.Passing` adds
what is known of `w₁`, and what is known of the end of the call *if* the closure gives values of its
type. If it fails or panics, this says nothing; that is the subject of other modules.

Nothing may be assumed of the world in which the closure ends, except what the ledger says. What was
packed before it was called may be released by then elsewhere; what the store holds may be more.
That the values it gives stand for the same afterwards is proved from there on.

How often the closure is called is read off the chronicle, in which every call of a host function is
entered: at the beginning of the closure there is one entry more than at the beginning of the call,
and after the closure no other has been added.
-/

namespace WasmHost.Host

open Act

variable {κ σ α β : Type}

/-! ## Reaching a closure

Rules for putting actions together around the closure, in the form in which operations are built:
something comes first, something comes after, something is released at the end. -/

/-- In running an action from a world, another one is run from a world of its own, and everything
else comes after that. -/
def Act.Reaches (m : Act κ σ α) (w : World κ σ) (c : Act κ σ β) (w₁ : World κ σ) : Prop :=
  ∃ finish : Outcome β → Act κ σ α, m.run w = (c.after finish).run w₁

/-- Run from a world, an action runs a closure as one of its parts, with arguments that stand for
`xs`, when `entries` are the calls of host functions so far. If the closure gives values of its
store that are of its type, the action gives something that is what `Q` says of them, and no host
function has been called in the meantime. -/
def Act.Passing (host : Runner κ σ) (r : Registration κ) (xs : List Sense) (m : Act κ σ α)
    (w : World κ σ) (entries : List (Entry κ)) (Q : List Sense → α → World κ σ → Prop) : Prop :=
  ∃ (instance_ : Option Nat) (params : List Val) (w₁ : World κ σ),
    m.Reaches w (host r.code r.captures ⟨r.store, instance_⟩ params) w₁ ∧
    List.Forall₂ (w₁.Means r.store) params xs ∧ w₁.chronicle.entries = entries ∧
    ∀ values w₂ ys, (host r.code r.captures ⟨r.store, instance_⟩ params).run w₁ =
        (.value (.ok values), w₂) →
      values.map Val.kind = r.type.results → List.Forall₂ (w₂.Means r.store) values ys →
      ∃ a w₃, m.run w = (.value a, w₃) ∧ w₃.chronicle.entries = w₂.chronicle.entries ∧ Q ys a w₃

namespace Act.Passing

variable {host : Runner κ σ} {r : Registration κ} {xs : List Sense} {m : Act κ σ α} {w w' : World κ σ}
  {entries : List (Entry κ)} {Q : List Sense → α → World κ σ → Prop}

/-- Something is done before. -/
theorem first {m : Act κ σ β} {k : β → Act κ σ α} {b : β} (hm : m.run w = (.value b, w'))
    (hk : Passing host r xs (k b) w' entries Q) : Passing host r xs (m >>= k) w entries Q := by
  have hrun : (m >>= k).run w = (k b).run w' := run_bind_value hm
  obtain ⟨instance_, params, w₁, ⟨finish, hfinish⟩, hparams, hentries, hvalues⟩ := hk
  refine ⟨instance_, params, w₁, ⟨finish, hrun.trans hfinish⟩, hparams, hentries, ?_⟩
  intro values w₂ ys hhost hkinds hys
  obtain ⟨a, w₃, ha, hrest⟩ := hvalues values w₂ ys hhost hkinds hys
  exact ⟨a, w₃, hrun.trans ha, hrest⟩

/-- Something is done afterwards. -/
theorem after {k : Outcome α → Act κ σ β} {Q' : List Sense → β → World κ σ → Prop}
    (hm : Passing host r xs m w entries Q)
    (hk : ∀ ys a w₃, ys.length = r.type.results.length → Q ys a w₃ → ∃ b w₄, (k (.value a)).run w₃ = (.value b, w₄) ∧
      w₄.chronicle.entries = w₃.chronicle.entries ∧ Q' ys b w₄) :
    Passing host r xs (m.after k) w entries Q' := by
  obtain ⟨instance_, params, w₁, ⟨finish, hfinish⟩, hparams, hentries, hvalues⟩ := hm
  refine ⟨instance_, params, w₁, ⟨fun o => (finish o).after k, ?_⟩, hparams, hentries, ?_⟩
  · rw [run_after, hfinish]
    simp only [run_after]
  · intro values w₂ ys hhost hkinds hys
    obtain ⟨a, w₃, ha, he, hQ⟩ := hvalues values w₂ ys hhost hkinds hys
    have hlen : ys.length = r.type.results.length := by
      rw [← hys.length_eq, ← hkinds, List.length_map]
    obtain ⟨b, w₄, hb, he', hQ'⟩ := hk ys a w₃ hlen hQ
    refine ⟨b, w₄, ?_, he'.trans he, hQ'⟩
    rw [run_after, ha]
    exact hb

theorem bind {k : α → Act κ σ β} {Q' : List Sense → β → World κ σ → Prop}
    (hm : Passing host r xs m w entries Q)
    (hk : ∀ ys a w₃, ys.length = r.type.results.length → Q ys a w₃ → ∃ b w₄, (k a).run w₃ = (.value b, w₄) ∧
        w₄.chronicle.entries = w₃.chronicle.entries ∧ Q' ys b w₄) :
    Passing host r xs (m >>= k) w entries Q' := hm.after hk

/-- Something is released at the end. -/
theorem ensuring {cleanup : Act κ σ Unit} (hm : Passing host r xs m w entries Q)
    (hc : Settling cleanup) (hQ : ∀ ys a w₃ w₄, Q ys a w₃ → w₃.Settles w₄ → Q ys a w₄) :
    Passing host r xs (Act.ensuring cleanup m) w entries Q := by
  refine hm.after fun ys a w₃ _ ha => ?_
  obtain ⟨u, w₄, hrun, hw₄⟩ := hc w₃
  refine ⟨a, w₄, ?_, hw₄.entries, hQ ys a w₃ w₄ ha hw₄⟩
  exact run_bind_value (k := fun _ => Pure.pure a) hrun

/-- Panics would be caught. -/
theorem catchPanic (hm : Passing host r xs m w entries Q) :
    Passing host r xs (Act.catchPanic m) w entries fun ys res w' => ∃ a, res = .ok a ∧ Q ys a w' :=
  hm.after fun _ a w₃ _ ha => ⟨.ok a, w₃, rfl, rfl, a, rfl, ha⟩

/-- The closure itself, and what comes after it. -/
theorem here {instance_ : Option Nat} {params : List Val}
    {k : Except Trap (List Val) → Act κ σ α} (hparams : List.Forall₂ (w.Means r.store) params xs)
    (hk : ∀ values w₂ ys, (host r.code r.captures ⟨r.store, instance_⟩ params).run w =
        (.value (.ok values), w₂) → values.map Val.kind = r.type.results →
      List.Forall₂ (w₂.Means r.store) values ys → ∃ a w₃, (k (.ok values)).run w₂ = (.value a, w₃) ∧
        w₃.chronicle.entries = w₂.chronicle.entries ∧ Q ys a w₃) :
    Passing host r xs (host r.code r.captures ⟨r.store, instance_⟩ params >>= k) w
      w.chronicle.entries Q := by
  refine ⟨instance_, params, w, ⟨(·.go k), rfl⟩, hparams, rfl, ?_⟩
  intro values w₂ ys hhost hkinds hys
  obtain ⟨a, w₃, ha, hrest⟩ := hk values w₂ ys hhost hkinds hys
  exact ⟨a, w₃, (run_bind_value hhost).trans ha, hrest⟩

end Act.Passing

/-! ## Checks at the boundary -/

theorem checkKindsFrom_eq_none {ks : List Kind} {vs : List Val} (h : vs.map Val.kind = ks)
    (index : Nat) : checkKindsFrom index ks vs = none := by
  induction vs generalizing ks index with
  | nil =>
    subst h
    rfl
  | cons v vs ih =>
    subst h
    exact (if_pos rfl).trans (ih rfl _)

/-- Arguments of the kinds that a type declares are let through. -/
theorem checkParams_eq_ok {type : Signature} {args : List Val}
    (h : args.map Val.kind = type.params) : checkParams type args = .ok () := by
  have hlen : args.length = type.params.length := by rw [← h, List.length_map]
  simp [checkParams, hlen, checkKindsFrom_eq_none h]

/-- Values of the kinds that a type declares are let through. -/
theorem checkResults_eq_none {type : Signature} {values : List Val}
    (h : values.map Val.kind = type.results) : checkResults type values = none := by
  have hlen : values.length = type.results.length := by rw [← h, List.length_map]
  simp [checkResults, hlen, checkKindsFrom_eq_none h]

/-! ## Guest parts -/

theorem Act.run_onGuest {w : World κ σ} {s : Nat} {g : Guest.Store} (hg : w.guest? s = some g)
    (f : Guest.Store → α × Guest.Store) :
    (onGuest s f : Act κ σ α).run w = (.value (f g).1, w.setGuest s (f g).2) := by
  have hrun : w.onGuest s f = (some (f g).1, w.setGuest s (f g).2) := by
    simp only [World.onGuest, hg]
  exact (run_bind_value (run_make (f := (·.onGuest s f)) hrun)).trans rfl

theorem World.guest?_setGuest {w : World κ σ} {s : Nat} {g : Guest.Store} (hg : w.guest? s = some g)
    (g' : Guest.Store) : (w.setGuest s g').guest? s = some g' :=
  (World.guestAt_setGuest hg g').symm ▸ rfl

theorem World.setGuest_preserves (w : World κ σ) (s : Nat) (g : Guest.Store) :
    w.Preserves (w.setGuest s g) := .modifyStore w s fun _ _ hg => hg

/-- What the value of a run leaves. -/
theorem Act.Leaves.run_value [Keeper κ σ] {L R : Ledger κ} {P : α → Ledger κ} {m : Act κ σ α}
    {w w' : World κ σ} {a : α} (h : m.Leaves L P L) (hw : Invariant (R + L) w)
    (hrun : m.run w = (.value a, w')) : Invariant (R + P a) w' := by
  obtain ⟨L', hw', hL'⟩ := Safe.run h hw
  rw [hrun] at hw' hL'
  obtain rfl : L' = P a := hL' rfl
  exact hw'

/-! ## Results

What a call carries back, once as packed values and once as values of the guest. -/

/-- A result is packed values that stand for `ys`, and the store is there. -/
def World.PacksResult {ε : Type} (s : Nat) (ys : List Sense) (res : Except ε (List (Packed s)))
    (w : World κ σ) : Prop :=
  ∃ ps g, res = .ok ps ∧ List.Forall₂ w.Packs ps ys ∧ w.guest? s = some g

/-- A result is values of the guest that stand for `ys`, and the store is there. -/
def World.HoldsResult {ε : Type} (s : Nat) (ys : List Sense) (res : Except ε (List Guest.Value))
    (w : World κ σ) : Prop :=
  ∃ vs g, res = .ok vs ∧ List.Forall₂ (w.Holds s) vs ys ∧ w.guest? s = some g

theorem World.PacksResult.settled {ε : Type} {s : Nat} {ys : List Sense}
    {res : Except ε (List (Packed s))} {w w' : World κ σ} (h : PacksResult s ys res w)
    (hw : w.Settles w') : PacksResult s ys res w' := by
  obtain ⟨ps, g, hres, hps, hg⟩ := h
  exact ⟨ps, g, hres, hps.imp fun _ _ h => h.preserved hw.toPreserves, (hw.guests s).trans hg⟩

theorem World.HoldsResult.settled {ε : Type} {s : Nat} {ys : List Sense}
    {res : Except ε (List Guest.Value)} {w w' : World κ σ} (h : HoldsResult s ys res w)
    (hw : w.Settles w') : HoldsResult s ys res w' := by
  obtain ⟨vs, g, hres, hvs, hg⟩ := h
  exact ⟨vs, g, hres, hvs.imp fun _ _ h => h.preserved hw.toPreserves, (hw.guests s).trans hg⟩

section Calls

variable [Keeper κ σ] {host : Runner κ σ} (hhost : Fair host) {R L : Ledger κ}
  {known : List (Pin κ)} {w : World κ σ} {xs : List Sense}

include hhost

/-! ## What the engine does to call a host function -/

omit [Keeper κ σ] hhost in
/-- A thread is advanced. -/
theorem Act.run_advance {s now : Nat} {g : Guest.Store} {event : Guest.Event}
    (start : Guest.Store → Guest.Progress) (hg : w.guest? s = some g)
    (hevent : (Guest.advance now workBound (start g)).2 = event) :
    (onGuest s fun g => ((Guest.advance now workBound (start g)).2,
        (Guest.advance now workBound (start g)).1) : Act κ σ Guest.Event).run w =
      (.value event, w.setGuest s (Guest.advance now workBound (start g)).1) :=
  (run_onGuest hg _).trans (congrArg (fun e => (Outcome.value e, _)) hevent)

omit hhost in
/-- The closure that a thread calls is the one that is registered, and known from then on. -/
theorem advance_learns {s key now : Nat} {type : Signature} {g : Guest.Store}
    {args : List Guest.Value} {thread : List Guest.Activation}
    {start : Guest.Store → Guest.Progress} (hw : Invariant (R + .tenure s known none ::ₘ L) w)
    (hg : w.guest? s = some g) (hstart : ∀ g : Guest.Store, (start g).Among g.shape)
    (hevent : (Guest.advance now workBound (start g)).2 = .called key type args caller thread) :
    ∃ r : Registration κ, r.store = s ∧ w.registry.get? key = some r ∧
      Invariant (R + .tenure s ((key, r) :: known) none ::ₘ L)
        (w.setGuest s (Guest.advance now workBound (start g)).1) := by
  have hmeets : Act.Meets _ (.tenure s known none ::ₘ L) (Ledger.Learned s known L) L :=
    advance_meets (σ := σ) hstart now workBound
  obtain ⟨N, hinv, hN⟩ := Safe.run hmeets hw
  rw [run_advance (σ := σ) start hg hevent] at hinv hN
  obtain ⟨r, hr, rfl⟩ := hN rfl
  have hfound := (hinv.apart.lookup (k := (key, r)) (Multiset.mem_add.mpr
    (.inl (Multiset.mem_cons_self _ _))) (List.mem_cons_self ..) []).1
  exact ⟨r, hr, hfound, hinv⟩

/-- What is left of a run of guest code when it is over: the frames that were set aside for it are
back. -/
def World.back (w : World κ σ) (s : Nat) (before : Guest.Store) : World κ σ :=
  w.modifyStore s fun c => { c with guest := c.guest.map fun g =>
    { g with
      exited := before.exited
      suspended := before.suspended
      stackUsed := before.stackUsed } }

omit [Keeper κ σ] hhost in
theorem World.HoldsResult.back {ε : Type} {s : Nat} {ys : List Sense}
    {res : Except ε (List Guest.Value)} (h : HoldsResult s ys res w) (before : Guest.Store) :
    HoldsResult s ys res (w.back s before) := by
  obtain ⟨vs, g, hres, hvs, hg⟩ := h
  have hback : w.Preserves (w.back s before) := .modifyStore w s fun _ _ hg => hg
  obtain ⟨c, hc, hcg⟩ := Option.bind_eq_some_iff.mp hg
  have hg' : ∃ g', (w.back s before).guest? s = some g' := by
    simp [World.guest?, World.back, World.modifyStore, Array.getElem?_modify, hc, hcg]
  obtain ⟨g', hg'⟩ := hg'
  exact ⟨vs, g', hres, hvs.imp fun _ _ h => h.preserved hback, hg'⟩

omit [Keeper κ σ] hhost in
theorem World.kept?_modifyStore (s t : Nat) {f : StoreCell → StoreCell}
    (hf : ∀ c, (f c).panic = c.panic) : (w.modifyStore s f).kept? t = w.kept? t := by
  simp only [World.kept?, World.modifyStore, Array.getElem?_modify]
  split
  · cases w.stores[t]? <;> simp [hf]
  · rfl

omit [Keeper κ σ] hhost in
theorem World.kept?_back (s t : Nat) (g : Guest.Store) : (w.back s g).kept? t = w.kept? t := by
  refine World.kept?_modifyStore s t ?_
  exact fun _ => rfl

/-- Values stood for `ys` when they were made, and what came after that only settled. -/
def World.Yields (s : Nat) (ys : List Sense) (vs : List Val) (w : World κ σ) : Prop :=
  ∃ w₀ : World κ σ, List.Forall₂ (w₀.Means s) vs ys ∧ w₀.Settles w

omit [Keeper κ σ] hhost in
/-- What is done at the end of an action that failed. -/
theorem Act.run_ensuring_failure {m : Act κ σ α} {cleanup : Act κ σ Unit} {e : Error}
    {w' w'' : World κ σ} (h : m.run w = (.failure e, w')) (hc : cleanup.run w' = (.value (), w'')) :
    (Act.ensuring cleanup m).run w = (.failure e, w'') := run_ensuring rfl h hc

end Calls

end WasmHost.Host
