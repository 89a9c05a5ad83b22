import WasmHost.Proofs.Senses
import WasmHost.Proofs.Programs

/-!
# What does not fail, and what only looks

An error is what an operation reports to whoever asked for it. The steps by which it marshals values
and runs guest code have none of their own: they give a value, or panic. Nor do the closures of an
embedder end with an error, for a program is told of errors as replies. The checks that come first in
an operation change nothing.

It has to be known of an error where it comes from. An operation that fails with an error is
specified by the checks that it makes first, and what comes after these checks must not be able to
add an error of its own; otherwise "it fails if and only if" could not be said of anything. So the
marshalling of values and the running of guest code are gone through once, and it is seen that no
step of them fails. They may panic, over an object of another store, and they may run out of steps.

"Only looking" is the counterpart, for the checks themselves: whatever they end with, the world is
the same.
-/

namespace WasmHost.Host

open Act

variable {κ σ α β : Type}

/-! ## Actions that do not fail -/

/-- An action never ends with an error. -/
def Act.Unfailing (m : Act κ σ α) : Prop := ∀ w e, (m.run w).1 ≠ .failure e

namespace Act

/-- An action that comes after another fails if one of the two does. -/
theorem run_bind_failure {m : Act κ σ β} {k : β → Act κ σ α} {w w' : World κ σ} {e : Error}
    (h : (m >>= k).run w = (.failure e, w')) (hm : m.Unfailing) :
    ∃ b w₁, m.run w = (.value b, w₁) ∧ (k b).run w₁ = (.failure e, w') := by
  have h : (m.after (·.go k)).run w = (.failure e, w') := h
  rw [run_after] at h
  cases hr : (m.run w).1 with
  | value b =>
    rw [hr] at h
    exact ⟨b, (m.run w).2, Prod.ext hr rfl, h⟩
  | failure e' => exact absurd hr (hm w e')
  | _ =>
    rw [hr] at h
    cases congrArg Prod.fst h

/-- An action at whose end something is done fails only by itself. -/
theorem run_ensuring_fails {m : Act κ σ α} {cleanup : Act κ σ Unit} {w w' : World κ σ} {e : Error}
    (h : (ensuring cleanup m).run w = (.failure e, w')) (hc : cleanup.Unfailing) :
    ∃ w₁, m.run w = (.failure e, w₁) := by
  rw [ensuring, run_after] at h
  -- Whatever else the action ends with, the cleanup does not turn it into an error.
  have hdone : ∀ r, (∀ e', r ≠ .failure e') →
      ((if r.ends then cleanup.after (·.go fun _ => .done r) else .done r : Act κ σ α).run
        (m.run w).2).1 ≠ .failure e := by
    intro r hr hrun
    split at hrun
    · obtain ⟨b, w₁, -, h₂⟩ := run_bind_failure (k := fun _ => .done r) (Prod.ext hrun rfl) hc
      exact hr e (congrArg Prod.fst h₂)
    · exact hr e hrun
  cases hr : (m.run w).1 with
  | failure e' =>
    rw [hr] at h
    obtain ⟨b, w₁, -, h₂⟩ := run_bind_failure (k := fun _ => .done (.failure e')) h hc
    cases h₂
    exact ⟨(m.run w).2, Prod.ext hr rfl⟩
  | _ =>
    rw [hr] at h
    exact absurd (congrArg Prod.fst h) (hdone _ fun _ h => by cases h)

namespace Unfailing

variable {m : Act κ σ α}

theorem pure {a : α} : Unfailing (Pure.pure a : Act κ σ α) := fun _ _ h => by cases h

theorem panic {p : Payload} : Unfailing (Act.panic p : Act κ σ α) := fun _ _ h => by cases h

theorem exhaust : Unfailing (Act.exhaust : Act κ σ α) := fun _ _ h => by cases h

theorem abort {f : Fault} : Unfailing (Act.abort f : Act κ σ α) := fun _ _ h => by cases h

theorem make {f : World κ σ → α × World κ σ} : Unfailing (Act.make f) := fun _ _ h => by cases h

theorem update {f : World κ σ → World κ σ} : Unfailing (Act.update f) := make

theorem orAbort {f : Fault} {o : Option α} : Unfailing (Act.orAbort f o : Act κ σ α) := by
  cases o with
  | none => exact abort
  | some a => exact pure

theorem after {k : Outcome α → Act κ σ β} (hm : m.Unfailing)
    (hk : ∀ r, (∀ e, r ≠ .failure e) → (k r).Unfailing) : Unfailing (m.after k) := by
  intro w e
  rw [run_after]
  exact hk _ (hm w) _ e

theorem bind {k : α → Act κ σ β} (hm : m.Unfailing) (hk : ∀ a, (k a).Unfailing) :
    Unfailing (m >>= k) := by
  refine hm.after fun r hr => ?_
  cases r with
  | value a => exact hk a
  | failure e => exact absurd rfl (hr e)
  | _ => exact fun _ _ h => by cases h

/-- What always gives a value does not fail. -/
theorem of_settling (hm : Settling m) : m.Unfailing := by
  intro w e h
  obtain ⟨a, w', hrun, -⟩ := hm w
  rw [hrun] at h
  cases h

theorem ensuring {cleanup : Act κ σ Unit} (hm : m.Unfailing) (hc : cleanup.Unfailing) :
    Unfailing (Act.ensuring cleanup m) := by
  refine hm.after fun r hr => ?_
  split
  · refine hc.bind fun _ w e h => hr e h
  · exact fun w e h => hr e h

theorem onUnwind {cleanup : Act κ σ Unit} (hm : m.Unfailing) (hc : cleanup.Unfailing) :
    Unfailing (Act.onUnwind cleanup m) := by
  refine hm.after fun r hr => ?_
  cases r with
  | failure e => exact absurd rfl (hr e)
  | panic p => exact hc.bind fun _ => panic
  | _ => exact fun _ _ h => by cases h

theorem catchPanic (hm : m.Unfailing) : Unfailing (Act.catchPanic m) := by
  refine hm.after fun r hr => ?_
  cases r with
  | failure e => exact absurd rfl (hr e)
  | panic p => exact pure
  | value a => exact pure
  | _ => exact fun _ _ h => by cases h

/-- Errors are turned into values. -/
theorem attempt : Unfailing (Act.attempt m) := by
  intro w e
  unfold Act.attempt
  rw [run_after]
  cases (m.run w).1 <;> exact fun h => by cases h

end Unfailing

end Act

/-! ## Steps of a call -/

theorem context_unfailing (s : Nat) : (context s : Act κ σ Unit).Unfailing := by
  intro w e h
  rw [run_context] at h
  cases h

theorem guest_unfailing (s : Nat) : (guest s : Act κ σ Guest.Store).Unfailing :=
  .bind .make fun _ => .orAbort

theorem onGuest_unfailing (s : Nat) (f : Guest.Store → α × Guest.Store) :
    (onGuest s f : Act κ σ α).Unfailing :=
  .bind .make fun _ => .orAbort

theorem check_unfailing (s : Nat) (h : Handle) : (check s h : Act κ σ HandleCell).Unfailing := by
  refine .bind (.bind .make fun w => ?_) fun c => ?_
  · split
    · split
      · exact .abort
      · exact .pure
    · exact .abort
  · split
    · exact .pure
    · exact .panic

theorem hand_unfailing (s t : Nat) : (hand s t : Act κ σ Unit).Unfailing := by
  unfold hand
  split
  · exact .pure
  · exact .abort

theorem place_unfailing (s : Nat) (h : Handle) : (place s h : Act κ σ Guest.Place).Unfailing := by
  refine .bind (check_unfailing s h) fun c => ?_
  split
  · exact .bind (hand_unfailing s _) fun _ => .pure
  · exact .abort

theorem funcPlace_unfailing (s : Nat) (h : Handle) : (funcPlace s h : Act κ σ Nat).Unfailing := by
  refine .bind (place_unfailing s h) fun p => ?_
  split
  · exact .pure
  · exact .abort

theorem Func.typeAt_unfailing (s place : Nat) :
    (Func.typeAt s place : Act κ σ Signature).Unfailing :=
  .bind (guest_unfailing s) fun _ => .pure

theorem Instance.checkAll_unfailing (s : Nat) (items : List Item) :
    (Instance.checkAll s items : Act κ σ Unit).Unfailing := by
  induction items with
  | nil => exact .pure
  | cons item items ih => exact .bind (check_unfailing s _) fun _ => ih

theorem Instance.places_unfailing (s : Nat) (items : List Item) :
    (Instance.places s items : Act κ σ (List Guest.Place)).Unfailing := by
  induction items with
  | nil => exact .pure
  | cons item items ih => exact .bind (place_unfailing s _) fun _ => .bind ih fun _ => .pure

theorem pack_unfailing (s : Nat) (v : Val) : (pack s v : Act κ σ (Packed s)).Unfailing := by
  unfold pack
  split
  case h_6 h => exact .bind (funcPlace_unfailing s h) fun _ => .pure
  case h_8 => exact .bind .make fun _ => .pure
  all_goals exact .pure

theorem packAll_unfailing (s : Nat) (vs : List Val) :
    (packAll s vs : Act κ σ (List (Packed s))).Unfailing := by
  induction vs with
  | nil => exact .pure
  | cons v vs ih =>
    refine .bind (pack_unfailing s v) fun p => .bind ?_ fun _ => .pure
    exact ih.onUnwind (.of_settling (releasePacked_settling p))

theorem unpack_unfailing (s : Nat) {t : Nat} (p : Packed t) :
    (unpack s p : Act κ σ Val).Unfailing := by
  unfold unpack
  split
  case h_6 => exact .bind .make fun _ => .pure
  case h_8 => exact .bind .make fun _ => .pure
  all_goals exact .pure

theorem unpackAll_unfailing (s : Nat) {t : Nat} (ps : List (Packed t)) :
    (unpackAll s ps : Act κ σ (List Val)).Unfailing := by
  induction ps with
  | nil => exact .pure
  | cons p ps ih => exact .bind (unpack_unfailing s p) fun _ => .bind ih fun _ => .pure

theorem adopt_unfailing (s : Nat) {t : Nat} (p : Packed t) :
    (adopt s p : Act κ σ Guest.Value).Unfailing := by
  unfold adopt
  split
  case h_6 => exact .bind (hand_unfailing s t) fun _ => .pure
  case h_8 => exact .bind .update fun _ => .pure
  all_goals exact .pure

theorem adoptAll_unfailing (s : Nat) {t : Nat} (ps : List (Packed t)) :
    (adoptAll s ps : Act κ σ (List Guest.Value)).Unfailing := by
  induction ps with
  | nil => exact .pure
  | cons p ps ih => exact .bind (adopt_unfailing s p) fun _ => .bind ih fun _ => .pure

theorem expose_unfailing (s : Nat) (v : Guest.Value) :
    (expose s v : Act κ σ (Except EngineFault (Packed s))).Unfailing := by
  unfold expose
  split
  case h_8 =>
    refine .bind .make fun b => ?_
    split
    · exact .pure
    · exact .abort
  all_goals exact .pure

theorem exposeAll_unfailing (s : Nat) (vs : List Guest.Value) :
    (exposeAll s vs : Act κ σ (Except EngineFault (List (Packed s)))).Unfailing := by
  induction vs with
  | nil => exact .pure
  | cons v vs ih =>
    refine .bind (expose_unfailing s v) fun r => ?_
    cases r with
    | error e => exact .pure
    | ok p =>
      refine .bind ih fun r => ?_
      cases r with
      | error e => exact .bind (.of_settling (releasePacked_settling p)) fun _ => .pure
      | ok ps => exact .pure

/-! ## Actions that only look

An exception is made for aborting, which leaves a note in the world about the rule that was
broken. -/

/-- An action leaves the world as it is, unless it breaks a rule. -/
def Act.Looking (m : Act κ σ α) : Prop := ∀ w, (∃ f, (m.run w).1 = .aborted f) ∨ (m.run w).2 = w

namespace Act.Looking

variable {m : Act κ σ α}

theorem pure {a : α} : Looking (Pure.pure a : Act κ σ α) := fun _ => .inr rfl

theorem panic {p : Payload} : Looking (Act.panic p : Act κ σ α) := fun _ => .inr rfl

theorem abort {f : Fault} : Looking (Act.abort f : Act κ σ α) := fun _ => .inl ⟨f, rfl⟩

theorem world : Looking (Act.world : Act κ σ (World κ σ)) := fun _ => .inr rfl

theorem orAbort {f : Fault} {o : Option α} : Looking (Act.orAbort f o : Act κ σ α) := by
  cases o with
  | none => exact abort
  | some a => exact pure

theorem ofExcept {r : Except Error α} : Looking (Act.ofExcept r : Act κ σ α) := by
  cases r with
  | error e => exact fun _ => .inr rfl
  | ok a => exact pure

theorem bind {k : α → Act κ σ β} (hm : m.Looking) (hk : ∀ a, (k a).Looking) :
    Looking (m >>= k) := by
  intro w
  show (∃ f, ((m.after (·.go k)).run w).1 = _) ∨ ((m.after (·.go k)).run w).2 = w
  rw [run_after]
  rcases hm w with ⟨f, hf⟩ | hw
  · rw [hf]
    exact .inl ⟨f, rfl⟩
  · cases hr : (m.run w).1 with
    | value a =>
      rw [hw]
      exact hk a w
    | _ => exact .inr hw

/-- The value of a run that only looks. -/
theorem run_value (hm : m.Looking) {w w' : World κ σ} {a : α} (h : m.run w = (.value a, w')) :
    w' = w := by
  rcases hm w with ⟨f, hf⟩ | hw
  · rw [h] at hf
    cases hf
  · rw [h] at hw
    exact hw

end Act.Looking

theorem guest_looking (s : Nat) : (guest s : Act κ σ Guest.Store).Looking :=
  .bind .world fun _ => .orAbort

theorem check_looking (s : Nat) (h : Handle) : (check s h : Act κ σ HandleCell).Looking := by
  refine .bind (.bind .world fun w => ?_) fun c => ?_
  · split
    · split
      · exact .abort
      · exact .pure
    · exact .abort
  · split
    · exact .pure
    · exact .panic

theorem place_looking (s : Nat) (h : Handle) : (place s h : Act κ σ Guest.Place).Looking := by
  refine .bind (check_looking s h) fun c => ?_
  split
  · refine .bind ?_ fun _ => .pure
    unfold hand
    split
    · exact .pure
    · exact .abort
  · exact .abort

theorem funcPlace_looking (s : Nat) (h : Handle) : (funcPlace s h : Act κ σ Nat).Looking := by
  refine .bind (place_looking s h) fun p => ?_
  split
  · exact .pure
  · exact .abort

theorem Func.typeAt_looking (s place : Nat) : (Func.typeAt s place : Act κ σ Signature).Looking :=
  .bind (guest_looking s) fun _ => .pure

theorem Instance.checkAll_looking (s : Nat) (items : List Item) :
    (Instance.checkAll s items : Act κ σ Unit).Looking := by
  induction items with
  | nil => exact .pure
  | cons item items ih => exact .bind (check_looking s _) fun _ => ih

theorem Instance.places_looking (s : Nat) (items : List Item) :
    (Instance.places s items : Act κ σ (List Guest.Place)).Looking := by
  induction items with
  | nil => exact .pure
  | cons item items ih => exact .bind (place_looking s _) fun _ => .bind ih fun _ => .pure

/-! ## Running guest code

A trap is a value here, `Except.error`, and not yet an error. It is turned into one by whoever
called the guest. -/

/-- The closures of a host never end with an error, but with a trap if they fail. -/
def Unfailing (host : Runner κ σ) : Prop :=
  ∀ code captures caller args, (host code captures caller args).Unfailing

section Running

variable {host : Runner κ σ} (hhost : Unfailing host)

include hhost

theorem runClosure_unfailing (r : Registration κ) (instance_ : Option Nat) {t : Nat}
    (args : List (Packed t)) : (runClosure host r instance_ args).Unfailing := by
  refine .bind (unpackAll_unfailing _ _) fun params => ?_
  refine .ensuring (.bind (hhost _ _ _ _) fun res => ?_) (.of_settling (releaseVals_settling params))
  cases res with
  | error trap => exact .pure
  | ok values =>
    refine .ensuring ?_ (.of_settling (releaseVals_settling values))
    split
    · exact .pure
    · exact .bind (packAll_unfailing _ _) fun _ => .pure

theorem callHost_unfailing (s key : Nat) (instance_ : Option Nat) (args : List Guest.Value) :
    (callHost host s key instance_ args).Unfailing := by
  refine .bind (exposeAll_unfailing s args) fun res => ?_
  cases res with
  | error fault => exact .pure
  | ok packed =>
    refine .ensuring (.bind .make fun o => ?_) (.of_settling (releasePackedAll_settling packed))
    cases o with
    | none => exact .abort
    | some r =>
      refine .bind (runClosure_unfailing hhost r instance_ packed).catchPanic fun res => ?_
      obtain payload | message | results := res
      · exact .bind .update fun _ => .pure
      · exact .pure
      · refine .ensuring ?_ (.of_settling (releasePackedAll_settling results))
        exact .bind (adoptAll_unfailing s results) fun _ => .pure

theorem runThread_unfailing (s : Nat) (default : Option Nat) (fuel : Nat)
    (start : Guest.Store → Guest.Progress) : (runThread host s default fuel start).Unfailing := by
  induction fuel generalizing start with
  | zero => exact .exhaust
  | succ fuel ih =>
    refine .bind (.bind .make fun _ => .pure) fun now => ?_
    refine .bind (onGuest_unfailing s _) fun event => ?_
    cases event with
    | finished results => exact .pure
    | trapped cause frames => exact .pure
    | stuck => exact .abort
    | timeout => exact .exhaust
    | called key type args thread =>
      refine .bind (onGuest_unfailing s _) fun active => ?_
      refine .bind (callHost_unfailing hhost s key _ args) fun res => ?_
      cases res with
      | error reason => exact .bind (guest_unfailing s) fun _ => .pure
      | ok results => exact ih _

theorem callPlace_unfailing (s place : Nat) (default : Option Nat) (args : List Guest.Value) :
    (callPlace host s place default args).Unfailing := by
  refine .bind (.bind .make fun _ => .pure) fun now => .bind (onGuest_unfailing s _) fun g => ?_
  exact .ensuring (runThread_unfailing hhost s default workBound _) .update

theorem callStart_unfailing (s : Nat) (started : Guest.Started) :
    (callStart host s started).Unfailing := by
  unfold callStart
  split
  · exact .pure
  · exact .bind (callPlace_unfailing hhost s _ _ _) fun _ => .pure

end Running

/-! ## Closures of an embedder -/

theorem handOut_unfailing (s : Nat) (place : Guest.Place) :
    (handOut s place : Act κ σ (Option Item)).Unfailing := by
  refine .bind .make fun o => .bind .orAbort fun p => ?_
  obtain ⟨h, target⟩ := p
  dsimp only
  split
  · exact .pure
  · exact .bind (.of_settling (releaseHandle_settling h)) fun _ => .pure

theorem Caller.getExport_unfailing (c : Caller) (name : String) :
    (c.getExport name : Act κ σ (Option Item)).Unfailing := by
  refine .bind (context_unfailing c.store) fun _ => .bind (guest_unfailing c.store) fun g => ?_
  split
  · exact .pure
  · split
    · exact .pure
    · exact handOut_unfailing _ _

theorem Memory.at_unfailing (s : Nat) (m : Handle) :
    (Memory.at_ s m : Act κ σ (Nat × Guest.Memory)).Unfailing := by
  refine .bind (place_unfailing s m) fun p => ?_
  split
  · exact .bind (guest_unfailing s) fun g => .bind .orAbort fun _ => .pure
  · exact .abort

theorem Memory.withData_unfailing (s : Nat) (m : Handle) (f : Guest.Memory → α × Guest.Memory) :
    (Memory.withData s m f : Act κ σ α).Unfailing :=
  .bind (context_unfailing s) fun _ => .bind (Memory.at_unfailing s m) fun _ =>
    onGuest_unfailing s _

theorem logLine_unfailing (sink : Nat) (c : Caller) (level ptr len : BitVec 32) :
    (logLine sink c level ptr len : Act κ σ Unit).Unfailing := by
  unfold logLine
  split
  · exact .pure
  · refine .bind (Caller.getExport_unfailing c _) fun item => ?_
    cases item with
    | none => exact .pure
    | some item =>
      refine .ensuring ?_ (.of_settling (releaseHandle_settling item.handle))
      split
      · exact .pure
      · refine .bind (Memory.withData_unfailing _ _ _) fun line => ?_
        cases line with
        | none => exact .pure
        | some line => exact .update

/-- The closures of the library do not fail if those beside them do not. -/
theorem Code.unfailing_host
    {custom : κ → List Capture → Caller → List Val → Act (Code κ) σ (Except Trap (List Val))}
    (hcustom : ∀ code captures caller args, (custom code captures caller args).Unfailing) :
    Unfailing (Code.host custom) := by
  intro code captures caller args
  cases code with
  | idle => exact .pure
  | log sink =>
    show ((logClosure sink).invoke caller args).Unfailing
    unfold TypedClosure.invoke
    split
    · exact .pure
    · refine .bind (.bind (logLine_unfailing _ _ _ _ _) fun _ => .pure) fun res => ?_
      cases res <;> exact .pure
  | custom code => exact hcustom code captures caller args

namespace Embedder

variable (embedder : Embedder κ)

/-- The closures of an embedder can end in traps and panics only, and give values otherwise. -/
theorem unfailing_host (calls : Calls κ) : Unfailing (embedder.host calls) := by
  refine Code.unfailing_host fun code captures caller args => ?_
  -- A program is told of errors and panics as replies, and goes on; so there is nothing that it
  -- could fail with.
  have hprogram : ∀ {α : Type} (p : Program κ α) (at_ : Setting κ), (p.run at_).Unfailing := by
    intro α p at_
    induction p with
    | finish a => exact .pure
    | ask r next ih =>
      refine .bind (.bind Unfailing.attempt.catchPanic fun res => ?_) fun reply => ih reply
      obtain p | e | reply := res <;> exact .pure
  -- What is not in the pool any more is given as null.
  have hgive : ∀ as : List Arg, (Job.give as : Job κ (List Val)).Unfailing := by
    intro as
    induction as with
    | nil => exact .pure
    | cons a as ih =>
      cases a with
      | plain v => exact .bind ih fun _ => .pure
      | thing i => exact .bind .make fun _ => .bind ih fun _ => .pure
  refine .bind (hprogram _ _) fun ending => ?_
  cases ending with
  | values vs => exact .bind (hgive vs) fun _ => .pure
  | trap t => exact .pure
  | panic p => exact .panic

theorem unfailing_hostTo (depth : Nat) : Unfailing (embedder.hostTo depth) := by
  cases depth with
  | zero => exact fun _ _ _ _ => .exhaust
  | succ depth => exact embedder.unfailing_host _

end Embedder

end WasmHost.Host
