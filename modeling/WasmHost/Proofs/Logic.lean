import WasmHost.Proofs.Steps

/-!
# A logic of actions

What an action does to the ledger of its thread. `Act.Safe` says it of every step: whatever else is
held, a step turns a ledger that agrees with the world into another one, and goes on safely from
there. Since the rest of the world may be anything that agrees, other threads may take steps in
between. `Act.Leaves` is the form in which operations are specified: the ledger an action leaves
with each value, and the one it leaves when it ends with an error or a panic.

A statement about whole runs of an action, from its beginning to its end, would be worth little
here: in the middle of it another thread may run, and there is no end that would be reached in one
go. So `Act.Safe` follows the action step by step. It quantifies over the frame `R`, what all other
threads hold, and over every world that agrees, *again at each step*. That is as much as to say that
anything may have happened in between that kept the invariant; and the single thing a thread knows
about a world it comes back to is that its own ledger is still a part of the accounts.

Steps that look at the world give up nothing, and steps that fail leave the ledger as it is, so most
rules are about one thing only: which ledger is left, with a value and without one. `Act.Meets` has
a predicate on ledgers with each value, and is needed where the ledger depends on more than the
value shows; `Act.Leaves` has one ledger. Both have the same ledger `rest` for all errors and
panics. That is a restriction, but one which all operations obey: what an operation has taken hold
of before it fails, it gives back on the way out. The rules for `ensuring`, `onUnwind` and `holding`
are how it is proved.

Nothing is asked of an action that runs out of steps, or that is aborted because guest code got
stuck: it has no end of its own, and its thread does not go on. What is shown elsewhere of other
faults is that they do not occur at all.
-/

namespace WasmHost.Host

variable {κ σ α β : Type}

/-! ## Running actions -/

namespace Act

theorem run_after (m : Act κ σ α) (k : Outcome α → Act κ σ β) (w : World κ σ) :
    (m.after k).run w = (k (m.run w).1).run (m.run w).2 := by
  induction m generalizing w with
  | done r => rfl
  | step f next ih => exact ih _ _

/-- A single step. -/
theorem run_make {f : World κ σ → α × World κ σ} {w w' : World κ σ} {a : α} (h : f w = (a, w')) :
    (make f).run w = (.value a, w') := by
  show (Outcome.value (f w).1, (f w).2) = _
  rw [h]

/-- What comes after an action that gave a value. -/
theorem run_bind_value {m : Act κ σ α} {k : α → Act κ σ β} {a : α} {w' : World κ σ}
    (h : m.run w = (.value a, w')) : (m >>= k).run w = (k a).run w' := by
  show (m.after (·.go k)).run w = _
  rw [run_after, h]
  rfl

/-- Nothing comes after an action that panicked. -/
theorem run_bind_panic {m : Act κ σ α} {k : α → Act κ σ β} {p : Payload} {w' : World κ σ}
    (h : m.run w = (.panic p, w')) : (m >>= k).run w = (.panic p, w') := by
  show (m.after (·.go k)).run w = _
  rw [run_after, h]
  rfl

theorem run_bind_failed {m : Act κ σ α} {k : α → Act κ σ β} {e : Error}
    {w w' : World κ σ} (h : m.run w = (.failure e, w')) :
    (m >>= k).run w = (.failure e, w') := by
  show (m.after (·.go k)).run w = _
  rw [run_after, h]
  rfl

theorem run_bind_aborted {m : Act κ σ α} {k : α → Act κ σ β} {f : Fault} {w w' : World κ σ}
    (h : m.run w = (.aborted f, w')) : (m >>= k).run w = (.aborted f, w') := by
  show (m.after (·.go k)).run w = _
  rw [run_after, h]
  rfl

/-- What is done at the end of an action leaves it at that end. -/
theorem run_ensuring {m : Act κ σ α} {cleanup : Act κ σ Unit} {o : Outcome α}
    {w w' w'' : World κ σ} (ho : o.ends = true) (h : m.run w = (o, w'))
    (hc : cleanup.run w' = (.value (), w'')) : (ensuring cleanup m).run w = (o, w'') := by
  rw [ensuring, run_after, h]
  show (if o.ends = true then cleanup.after (·.go fun _ => .done o) else .done o).run w' = _
  rw [if_pos ho]
  exact run_bind_value (k := fun _ => .done o) hc

theorem run_ensuring_value {m : Act κ σ α} {cleanup : Act κ σ Unit} {a : α} {w w' w'' : World κ σ}
    (h : m.run w = (.value a, w')) (hc : cleanup.run w' = (.value (), w'')) :
    (ensuring cleanup m).run w = (.value a, w'') := run_ensuring rfl h hc

theorem run_attempt_value {m : Act κ σ α} {a : α} {w w' : World κ σ}
    (h : m.run w = (.value a, w')) : (attempt m).run w = (.value (.ok a), w') := by
  rw [attempt, run_after, h]
  rfl

theorem run_attempt_failure {m : Act κ σ α} {e : Error} {w w' : World κ σ}
    (h : m.run w = (.failure e, w')) : (attempt m).run w = (.value (.error e), w') := by
  rw [attempt, run_after, h]
  rfl

theorem run_onUnwind_value {m : Act κ σ α} {cleanup : Act κ σ Unit} {a : α} {w w' : World κ σ}
    (h : m.run w = (.value a, w')) : (onUnwind cleanup m).run w = (.value a, w') := by
  rw [onUnwind, run_after, h]
  rfl

theorem run_onUnwind_failure {m : Act κ σ α} {cleanup : Act κ σ Unit} {e : Error}
    {w w' w'' : World κ σ} (h : m.run w = (.failure e, w'))
    (hc : cleanup.run w' = (.value (), w'')) : (onUnwind cleanup m).run w = (.failure e, w'') := by
  rw [onUnwind, run_after, h]
  exact run_bind_value (k := fun _ => .done (.failure e)) hc

end Act

/-! ## Ledgers that lend alike

Loans and requests under way are also written down in the state of the embedder. A step that leaves
this state alone must leave them alone in its ledger, too, which is all that has to be known of such
a step. -/

/-- Two ledgers have the same loans, and as many requests under way. -/
structure Ledger.Alike (L M : Ledger κ) : Prop where
  loans : ∀ i x, L.loans i x = M.loans i x
  makings : L.makings = M.makings

namespace Ledger.Alike

variable {L M N : Ledger κ}

theorem refl (L : Ledger κ) : L.Alike L := ⟨fun _ _ => rfl, rfl⟩

theorem symm (h : L.Alike M) : M.Alike L := ⟨fun i x => (h.loans i x).symm, h.makings.symm⟩

@[simp] theorem own_left {x : Share} : Alike (.own x ::ₘ L) M ↔ L.Alike M := by
  constructor <;> rintro ⟨hl, hm⟩ <;> exact ⟨by simpa [Token.isLoan] using hl,
    by simpa [Token.isMaking] using hm⟩

@[simp] theorem own_right {x : Share} : Alike L (.own x ::ₘ M) ↔ L.Alike M :=
  ⟨fun h => (own_left.mp h.symm).symm, fun h => (own_left.mpr h.symm).symm⟩

@[simp] theorem tenure_left {s : Nat} {known : List (Pin κ)} {p : Option Payload} :
    Alike (.tenure s known p ::ₘ L) M ↔ L.Alike M := by
  constructor <;> rintro ⟨hl, hm⟩ <;> exact ⟨by simpa [Token.isLoan] using hl,
    by simpa [Token.isMaking] using hm⟩

@[simp] theorem tenure_right {s : Nat} {known : List (Pin κ)} {p : Option Payload} :
    Alike L (.tenure s known p ::ₘ M) ↔ L.Alike M :=
  ⟨fun h => (tenure_left.mp h.symm).symm, fun h => (tenure_left.mpr h.symm).symm⟩

@[simp] theorem making_making {pins pins' : List (Pin κ)} :
    Alike (.making pins ::ₘ L) (.making pins' ::ₘ M) ↔ L.Alike M := by
  constructor <;> rintro ⟨hl, hm⟩ <;> exact ⟨by simpa [Token.isLoan] using hl,
    by simpa [Token.isMaking] using hm⟩

@[simp] theorem owns_left {xs : List Share} : Alike (owns xs + L) M ↔ L.Alike M := by
  constructor <;> rintro ⟨hl, hm⟩ <;> exact ⟨by simpa using hl, by simpa using hm⟩

@[simp] theorem owns_right {xs : List Share} : Alike L (owns xs + M) ↔ L.Alike M :=
  ⟨fun h => (owns_left.mp h.symm).symm, fun h => (owns_left.mpr h.symm).symm⟩

end Ledger.Alike

variable [Keeper κ σ]

namespace Invariant

variable {R L L' : Ledger κ} {w w' : World κ σ}

/-- The accounts, with one ledger apart from everything else. -/
theorem apart (h : Invariant (R + L) w) : Sound (L + (R + Keeper.kept w.user)) w := by
  have := h.sound
  rwa [add_comm R L, add_assoc] at this

/-- What is in a ledger is shared by it. -/
theorem pos (h : Invariant (R + L) w) {x : Share} (hx : L.Has x) : 0 < w.recorded x := by
  obtain ⟨t, ht, hx⟩ := hx
  have hmem : t ∈ R + L + Keeper.kept w.user :=
    Multiset.mem_add.mpr (.inl (Multiset.mem_add.mpr (.inr ht)))
  cases t with
  | own y =>
    obtain rfl : y = x := hx
    exact h.sound.balanced.pos (Ledger.mem_shares.mpr hmem)
  | loan i y =>
    obtain rfl : y = x := hx
    have hlent : 0 < Keeper.loans (κ := κ) w.user i y := by
      rw [← h.lent.loans]
      exact Multiset.countP_pos.mpr ⟨_, Multiset.mem_add.mpr (.inr ht), by simp [Token.isLoan]⟩
    exact h.sound.balanced.pos (Ledger.mem_shares.mpr
      (Multiset.mem_add.mpr (.inr (Keeper.own_of_loans hlent))))
  | tenure s known p => exact h.sound.pos_of_tenure hmem hx
  | making pins => exact hx.elim

/-- A step that leaves the embedder's state alone. -/
theorem of_sound (h : Invariant (R + L) w) (hu : w'.user = w.user)
    (hs : Sound (L' + (R + Keeper.kept w.user)) w') (hl : L'.Alike L) : Invariant (R + L') w' where
  sound := by
    rw [hu, add_comm R L', add_assoc]
    exact hs
  lent := by
    rw [hu]
    refine ⟨fun i x => ?_, ?_⟩
    · rw [← h.lent.loans]
      simp [hl.loans]
    · rw [← h.lent.making]
      simp [hl.makings]

end Invariant

/-! ## Safety

The invariant is asked for before each step and given after it, with a ledger that may depend on the
world the step was taken in. So a proof may look at this world, but not rely on the next one. -/

/-- Every step of an action keeps the invariant, for some ledger that it leaves, and the ledger that
is left in the end is as it should be. A ledger may also be exchanged for another one that agrees
with the same worlds: what a thread knows of its store, for instance, can be learned or forgotten
without any step. -/
def Act.Safe (Q : Outcome α → Ledger κ → Prop) : Act κ σ α → Ledger κ → Prop
  | .done r, L => r.ends = true → ∀ R (w : World κ σ), Invariant (R + L) w →
      ∃ L', Invariant (R + L') w ∧ Q r L'
  | .step f next, L => ∀ R w, Invariant (R + L) w →
      ∃ L', Invariant (R + L') (f w).2 ∧ (next (f w).1).Safe Q L'

namespace Act.Safe

variable {Q Q' : Outcome α → Ledger κ → Prop} {L : Ledger κ} {m : Act κ σ α}

theorem done {r : Outcome α} (h : r.ends = true → Q r L) : (Act.done r : Act κ σ α).Safe Q L :=
  fun hr _ _ hw => ⟨L, hw, h hr⟩

/-- A ledger is exchanged for another one. -/
theorem exchange (h : ∀ R (w : World κ σ), Invariant (R + L) w →
    ∃ L', Invariant (R + L') w ∧ m.Safe Q L') : m.Safe Q L := by
  cases m with
  | done r =>
    intro hr R w hw
    obtain ⟨L', hw', hdone⟩ := h R w hw
    exact hdone hr R w hw'
  | step f next =>
    intro R w hw
    obtain ⟨L', hw', hstep⟩ := h R w hw
    exact hstep R w hw'

/-- At the end of an action, its ledger is exchanged for another one. -/
theorem settle (h : m.Safe Q L) (hQ : ∀ r L, r.ends = true → Q r L → ∀ R (w : World κ σ),
    Invariant (R + L) w → ∃ L', Invariant (R + L') w ∧ Q' r L') : m.Safe Q' L := by
  induction m generalizing L with
  | done r =>
    intro hr R w hw
    obtain ⟨L', hw', hq⟩ := h hr R w hw
    exact hQ r L' hr hq R w hw'
  | step f next ih =>
    intro R w hw
    obtain ⟨L', hw', hnext⟩ := h R w hw
    exact ⟨L', hw', ih _ hnext⟩

theorem mono (h : m.Safe Q L) (hQ : ∀ r L, r.ends = true → Q r L → Q' r L) : m.Safe Q' L :=
  h.settle fun r L hr hq _ _ hw => ⟨L, hw, hQ r L hr hq⟩

/-- An action goes on safely after another one. Nothing is asked of it where that came to no end of
its own. -/
theorem after {k : Outcome α → Act κ σ β} {Q : Outcome β → Ledger κ → Prop}
    (h : m.Safe (fun r L => (k r).Safe Q L) L) (haborted : ∀ f L, (k (.aborted f)).Safe Q L)
    (hexhausted : ∀ L, (k .exhausted).Safe Q L) : (m.after k).Safe Q L := by
  induction m generalizing L with
  | done r =>
    cases r with
    | aborted f => exact haborted f L
    | exhausted => exact hexhausted L
    | _ => exact exchange fun R w hw => h rfl R w hw
  | step f next ih =>
    intro R w hw
    obtain ⟨L', hw', hnext⟩ := h R w hw
    exact ⟨L', hw', ih _ hnext⟩

theorem bind {k : α → Act κ σ β} {Q : Outcome β → Ledger κ → Prop}
    (h : m.Safe (fun r L => (r.go k).Safe Q L) L) : (m >>= k).Safe Q L :=
  after h (fun _ _ h => by cases h) fun _ h => by cases h

/-- A step that leaves the embedder's state alone. -/
theorem step {f : World κ σ → β × World κ σ} {next : β → Act κ σ α}
    (hu : ∀ w, (f w).2.user = w.user)
    (h : ∀ T w, Sound (L + T) w → (∀ x, L.Has x → 0 < w.recorded x) →
      ∃ L', L'.Alike L ∧ Sound (L' + T) (f w).2 ∧ (next (f w).1).Safe Q L') :
    (Act.step f next).Safe Q L := by
  intro R w hw
  obtain ⟨L', hl, hs, hnext⟩ := h _ w hw.apart fun _ => hw.pos
  exact ⟨L', hw.of_sound (hu w) hs hl, hnext⟩

/-- A step that leaves the embedder's state alone, and what comes after it. -/
theorem make {f : World κ σ → β × World κ σ} {k : β → Act κ σ α}
    (hu : ∀ w, (f w).2.user = w.user)
    (h : ∀ T w, Sound (L + T) w → (∀ x, L.Has x → 0 < w.recorded x) →
      ∃ L', L'.Alike L ∧ Sound (L' + T) (f w).2 ∧ (k (f w).1).Safe Q L') :
    (Act.make f >>= k).Safe Q L := step hu h

/-- Looking at the world. -/
theorem world {k : World κ σ → Act κ σ α}
    (h : ∀ T w, Sound (L + T) w → (∀ x, L.Has x → 0 < w.recorded x) → (k w).Safe Q L) :
    (Act.world >>= k).Safe Q L :=
  make (fun _ => rfl) fun T w hs hpos => ⟨L, .refl L, hs, h T w hs hpos⟩

/-- What a run comes to. -/
theorem run (h : m.Safe Q L) {R : Ledger κ} {w : World κ σ} (hw : Invariant (R + L) w) :
    ∃ L', Invariant (R + L') (m.run w).2 ∧ ((m.run w).1.ends = true → Q (m.run w).1 L') := by
  induction m generalizing L w with
  | done r =>
    cases hr : r.ends with
    | false => exact ⟨L, hw, fun h => by simp [Act.run, hr] at h⟩
    | true =>
      obtain ⟨L', hw', hq⟩ := h hr R w hw
      exact ⟨L', hw', fun _ => hq⟩
  | step f next ih =>
    obtain ⟨L', hw', hnext⟩ := h R w hw
    exact ih _ hnext hw'

end Act.Safe

/-! ## What actions leave

One rule for each way in which actions are put together. An operation is specified by applying them
from the outside in, and what is left of it are its single steps. -/

/-- The ledger there is at an end: with a value it is one that fits, and with an error or a panic it
is `rest`. -/
def Outcome.Meets (P : α → Ledger κ → Prop) (rest : Ledger κ) : Outcome α → Ledger κ → Prop
  | .value a, L => P a L
  | _, L => L = rest

/-- From a ledger, an action leaves one that fits its value, and `rest` with an error or a panic. -/
def Act.Meets (m : Act κ σ α) (L : Ledger κ) (P : α → Ledger κ → Prop) (rest : Ledger κ) : Prop :=
  m.Safe (Outcome.Meets P rest) L

/-- From a ledger, an action leaves a certain one with each value, and `rest` with an error or a
panic. -/
def Act.Leaves (m : Act κ σ α) (L : Ledger κ) (P : α → Ledger κ) (rest : Ledger κ) : Prop :=
  m.Meets L (fun a N => N = P a) rest

namespace Act.Meets

variable {L rest U : Ledger κ} {P : α → Ledger κ → Prop} {m : Act κ σ α}

theorem pure {a : α} (h : P a L) : (Pure.pure a : Act κ σ α).Meets L P rest := Safe.done fun _ => h

theorem fail {e : Error} (h : L = rest) : (Act.fail e : Act κ σ α).Meets L P rest :=
  Safe.done fun _ => h

theorem panic {p : Payload} (h : L = rest) : (Act.panic p : Act κ σ α).Meets L P rest :=
  Safe.done fun _ => h

theorem exhaust : (Act.exhaust : Act κ σ α).Meets L P rest := Safe.done fun h => by cases h

theorem stuck : (Act.abort .stuck : Act κ σ α).Meets L P rest :=
  Safe.step (fun _ => rfl) fun _ _ hs _ => ⟨L, .refl L, hs.stuck, fun h => by cases h⟩

theorem bind {f : β → Act κ σ α} {m : Act κ σ β} {M : β → Ledger κ → Prop} (hm : m.Meets L M rest)
    (hf : ∀ b N, M b N → (f b).Meets N P rest) : (m >>= f).Meets L P rest := by
  refine Safe.bind (Safe.mono hm fun r N hr hM => ?_)
  cases r with
  | value b => exact hf b N hM
  | failure e => exact Safe.done fun _ => hM
  | panic p => exact Safe.done fun _ => hM
  | _ => cases hr

/-- Something is done at the end however an action ends. -/
theorem ensuring {cleanup : Act κ σ Unit} {M : α → Ledger κ → Prop} (hm : m.Meets L M U)
    (hvalue : ∀ a N, M a N → cleanup.Meets N (fun _ => P a) rest)
    (hrest : cleanup.Meets U (fun _ N => N = rest) rest) :
    (Act.ensuring cleanup m).Meets L P rest := by
  refine Safe.after (Safe.mono hm fun r N hr hM => ?_) (fun _ _ h => by cases h)
    fun _ h => by cases h
  cases r with
  | value a =>
    exact (bind (hvalue a N hM) fun _ _ => pure : (cleanup >>= fun _ => Pure.pure a).Meets _ _ _)
  | failure e =>
    obtain rfl : N = U := hM
    exact (bind hrest fun _ _ => fail : (cleanup >>= fun _ => Act.fail e).Meets _ _ _)
  | panic p =>
    obtain rfl : N = U := hM
    exact (bind hrest fun _ _ => panic : (cleanup >>= fun _ => Act.panic p).Meets _ _ _)
  | _ => cases hr

/-- What must be there is there, or the action ends. -/
theorem expect {o : Option β} {k : β → Act κ σ α} (hk : ∀ b, o = some b → (k b).Meets L P rest) :
    (Act.orAbort .stuck o >>= k).Meets L P rest := by
  cases o with
  | none => exact Safe.step (fun _ => rfl) fun _ _ hs _ => ⟨L, .refl L, hs.stuck, fun h => by cases h⟩
  | some b => exact hk b rfl

/-- A single step that leaves the embedder's state alone. -/
theorem make {f : World κ σ → α × World κ σ} (hu : ∀ w, (f w).2.user = w.user)
    (h : ∀ T w, Sound (L + T) w → (∀ x, L.Has x → 0 < w.recorded x) →
      ∃ L', L'.Alike L ∧ Sound (L' + T) (f w).2 ∧ P (f w).1 L') : (Act.make f).Meets L P rest :=
  Safe.step hu fun T w hs hpos =>
    let ⟨L', hl, hs', hP⟩ := h T w hs hpos
    ⟨L', hl, hs', Safe.done fun _ => hP⟩

/-- What fits may be said in a weaker way. -/
theorem mono {P' : α → Ledger κ → Prop} (hm : m.Meets L P rest) (h : ∀ a N, P a N → P' a N) :
    m.Meets L P' rest := by
  refine Safe.mono hm fun r N hr hP => ?_
  cases r with
  | value a => exact h a N hP
  | _ => exact hP

end Act.Meets

namespace Act.Leaves

variable {L rest U : Ledger κ} {P : α → Ledger κ} {m : Act κ σ α}

theorem pure {a : α} (h : L = P a) : (Pure.pure a : Act κ σ α).Leaves L P rest := Meets.pure h

theorem fail {e : Error} (h : L = rest) : (Act.fail e : Act κ σ α).Leaves L P rest := Meets.fail h

theorem panic {p : Payload} (h : L = rest) : (Act.panic p : Act κ σ α).Leaves L P rest :=
  Meets.panic h

theorem exhaust : (Act.exhaust : Act κ σ α).Leaves L P rest := Meets.exhaust

theorem stuck : (Act.abort .stuck : Act κ σ α).Leaves L P rest := Meets.stuck

theorem bind {f : β → Act κ σ α} {m : Act κ σ β} {M : β → Ledger κ} (hm : m.Leaves L M rest)
    (hf : ∀ b, (f b).Leaves (M b) P rest) : (m >>= f).Leaves L P rest :=
  Meets.bind hm fun b _ hN => hN ▸ hf b

theorem map {f : β → α} {m : Act κ σ β} (hm : m.Leaves L (fun b => P (f b)) rest) :
    (f <$> m).Leaves L P rest := bind hm fun _ => pure rfl

theorem world {k : World κ σ → Act κ σ α}
    (h : ∀ T w, Sound (L + T) w → (∀ x, L.Has x → 0 < w.recorded x) → (k w).Leaves L P rest) :
    (Act.world >>= k).Leaves L P rest := Safe.world h

/-- A single step that leaves the embedder's state alone. -/
theorem make {f : World κ σ → α × World κ σ} (hu : ∀ w, (f w).2.user = w.user)
    (hl : ∀ a, (P a).Alike L)
    (h : ∀ T w, Sound (L + T) w → (∀ x, L.Has x → 0 < w.recorded x) →
      Sound (P (f w).1 + T) (f w).2) : (Act.make f).Leaves L P rest :=
  Meets.make hu fun T w hs hpos => ⟨_, hl _, h T w hs hpos, rfl⟩

theorem update {f : World κ σ → World κ σ} {P : Unit → Ledger κ}
    (hu : ∀ w, (f w).user = w.user) (hl : (P ()).Alike L)
    (h : ∀ T w, Sound (L + T) w → (∀ x, L.Has x → 0 < w.recorded x) →
      Sound (P () + T) (f w)) : (Act.update f).Leaves L P rest :=
  make hu (fun _ => hl) h

theorem orAbort {o : Option α} (h : ∀ a, o = some a → L = P a) :
    (Act.orAbort .stuck o : Act κ σ α).Leaves L P rest := by
  cases o with
  | none => exact stuck
  | some a => exact pure (h a rfl)

/-- What must be there is there, or the action ends. -/
theorem expect {o : Option β} {k : β → Act κ σ α}
    (hk : ∀ b, o = some b → (k b).Leaves L P rest) :
    (Act.orAbort .stuck o >>= k).Leaves L P rest := Meets.expect hk

theorem ofExcept {r : Except Error α} (hok : ∀ a, r = .ok a → L = P a)
    (herr : ∀ e, r = .error e → L = rest) :
    (Act.ofExcept r : Act κ σ α).Leaves L P rest := by
  cases r with
  | error e => exact fail (herr e rfl)
  | ok a => exact pure (hok a rfl)

/-- Something is done at the end however an action ends. -/
theorem ensuring {cleanup : Act κ σ Unit} {M : α → Ledger κ} (hm : m.Leaves L M U)
    (hvalue : ∀ a, cleanup.Leaves (M a) (fun _ => P a) rest)
    (hrest : cleanup.Leaves U (fun _ => rest) rest) :
    (Act.ensuring cleanup m).Leaves L P rest :=
  Meets.ensuring hm (fun a _ hN => hN ▸ hvalue a) hrest

/-- Something is done if an action ends with an error or a panic. -/
theorem onUnwind {cleanup : Act κ σ Unit} (hm : m.Leaves L P U)
    (hrest : cleanup.Leaves U (fun _ => rest) rest) :
    (Act.onUnwind cleanup m).Leaves L P rest := by
  refine Safe.after (Safe.mono hm fun r N hr hM => ?_) (fun _ _ h => by cases h)
    fun _ h => by cases h
  cases r with
  | value a => exact Safe.done fun _ => hM
  | failure e =>
    obtain rfl : N = U := hM
    exact (bind hrest fun _ => Safe.done fun _ => rfl : (cleanup >>= fun _ => Act.fail e).Leaves _ _ _)
  | panic p =>
    obtain rfl : N = U := hM
    exact (bind hrest fun _ => Safe.done fun _ => rfl : (cleanup >>= fun _ => Act.panic p).Leaves _ _ _)
  | _ => cases hr

theorem attempt {P : Except Error α → Ledger κ} (hm : m.Leaves L (fun a => P (.ok a)) rest)
    (herr : ∀ e, rest = P (.error e)) : (Act.attempt m).Leaves L P rest := by
  refine Safe.after (Safe.mono hm fun r N hr hM => ?_) (fun _ _ h => by cases h)
    fun _ h => by cases h
  cases r with
  | value a => exact Safe.done fun _ => hM
  | failure e => exact Safe.done fun _ => hM.trans (herr e)
  | panic p => exact Safe.done fun _ => hM
  | _ => cases hr

theorem catchPanic {P : Except Payload α → Ledger κ}
    (hm : m.Leaves L (fun a => P (.ok a)) rest) (herr : ∀ p, rest = P (.error p)) :
    (Act.catchPanic m).Leaves L P rest := by
  refine Safe.after (Safe.mono hm fun r N hr hM => ?_) (fun _ _ h => by cases h)
    fun _ h => by cases h
  cases r with
  | value a => exact Safe.done fun _ => hM
  | failure e => exact Safe.done fun _ => hM
  | panic p => exact Safe.done fun _ => hM.trans (herr p)
  | _ => cases hr

/-- Something is refused, or else the action goes on. -/
theorem guard {c : Prop} {_ : Decidable c} {e : Error} {k : Unit → Act κ σ α} (hL : L = rest)
    (hk : (k ()).Leaves L P rest) :
    (if c then (Act.fail e >>= k) else k ()).Leaves L P rest := by
  split
  · exact bind (M := fun _ => L) (fail hL) fun _ => hk
  · exact hk

/-- Shares are kept while an action runs, and released when it ends. -/
theorem holding {cleanup : Act κ σ Unit} {M : α → Ledger κ} {X : List Share}
    (hc : ∀ N, cleanup.Leaves (Ledger.owns X + N) (fun _ => N) rest)
    (hm : m.Leaves (Ledger.owns X + L) M (Ledger.owns X + rest))
    (hpost : ∀ a, M a = Ledger.owns X + P a) :
    (Act.ensuring cleanup m).Leaves (Ledger.owns X + L) P rest :=
  ensuring hm (fun a => hpost a ▸ hc (P a)) (hc rest)

/-- A ledger may be written in another way. -/
theorem cast {N : Ledger κ} (hm : m.Leaves N P rest) (h : L = N) : m.Leaves L P rest := h ▸ hm

end Act.Leaves

end WasmHost.Host
