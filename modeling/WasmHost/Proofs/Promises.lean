import WasmHost.Proofs.WorldTyping
import WasmHost.Proofs.Unfailing

/-!
# What actions promise in orderly worlds

An action promises something of its value if every step of it leads from an orderly world to an orderly
world, whatever other threads do in between, and if the promise is true whenever the value is there.
Since others may go on, a promise must stay true in all worlds that a world leads to.

Steps are looked at in worlds that agree with some ledger, before and after: that this is so is
proved of actions elsewhere (`Act.Safe`), and used here for what is known of closures.

The logic of ledgers (`Logic`) says what an action holds, and nothing about values. This is a second
logic on the same actions, about values and worlds. It is a separate one because the two follow
different ideas. There, what a thread knows is a part of the state that nobody else can touch, so it
may be *lost* when given away. Here it is what is true of the world and stays true, whoever has it,
and so it may be used any number of times. For this a promise must be monotone, and `World.Leads` is
the order.

Every step is looked at in an arbitrary world that the previous one leads to. That is where the
steps of others are. In return the step has to lead on itself, from an orderly world to an orderly
one: each thread sees to it for all the others.

That both worlds agree with some ledger (`Regular`) is given with each step. It is true of every
step that is ever taken, by the other logic; to take it as a premise here spares every lemma the
ledger.
-/

namespace WasmHost.Host

open Act

variable {κ σ α β : Type} [Keeper κ σ]

/-- The accounts of a world agree with some ledger. -/
def World.Regular (w : World κ σ) : Prop := ∃ L : Ledger κ, Invariant L w

/-- Every step of an action leads from an orderly world to an orderly world, and `Q` is true of its
value, in all worlds that the world leads to. Nothing is said of errors, panics and runs that do not
end: what is promised is promised of values. -/
def Act.Promises (Q : α → World κ σ → Prop) : Act κ σ α → World κ σ → Prop
  | .done r, w => ∀ a, r = .value a → ∀ w', w.Leads w' → Q a w'
  | .step f next, w => ∀ w' : World κ σ, w.Leads w' → w'.Regular → (f w').2.Regular →
      w'.Leads (f w').2 ∧ (next (f w').1).Promises Q (f w').2

namespace Act.Promises

variable {Q : α → World κ σ → Prop} {m : Act κ σ α} {w w' : World κ σ}

/-- A promise is kept in later worlds. -/
theorem later (h : m.Promises Q w) (hw : w.Leads w') : m.Promises Q w' := by
  cases m with
  | done r => exact fun a ha w'' hw'' => h a ha w'' (hw.trans hw'')
  | step f next => exact fun w'' hw'' => h w'' (hw.trans hw'')

/-- A promise may be made when the time comes. -/
theorem of_later (h : ∀ w', w.Leads w' → m.Promises Q w') : m.Promises Q w := by
  cases m with
  | done r => exact fun a ha w' hw' => h w' hw' a ha w' (.refl hw'.orderly)
  | step f next => exact fun w' hw' => h w' hw' w' (.refl hw'.orderly)

theorem pure {a : α} (h : ∀ w', w.Leads w' → Q a w') : (Pure.pure a : Act κ σ α).Promises Q w := by
  rintro _ ⟨⟩ w' hw'
  exact h w' hw'

theorem fail {e : Error} : (Act.fail e : Act κ σ α).Promises Q w := fun _ h => by cases h

/-- Nothing comes after an error. -/
theorem failFirst {e : Error} {k : β → Act κ σ α} : (Act.fail e >>= k).Promises Q w :=
  fun _ h => by cases h

/-- Something is refused, or else the action goes on. -/
theorem guard {c : Prop} {_ : Decidable c} {e : Error} {k : Unit → Act κ σ α}
    (hk : ¬c → (k ()).Promises Q w) :
    (if c then (Act.fail e >>= k) else k ()).Promises Q w := by
  split
  · exact failFirst
  · rename_i hc
    exact hk hc

theorem panic {p : Payload} : (Act.panic p : Act κ σ α).Promises Q w := fun _ h => by cases h

theorem exhaust : (Act.exhaust : Act κ σ α).Promises Q w := fun _ h => by cases h

theorem abort {f : Fault} : (Act.abort f : Act κ σ α).Promises Q w :=
  fun w' hw' _ _ => ⟨(w'.fault_aside f).leads hw'.orderly, fun _ h => by cases h⟩

theorem orAbort {f : Fault} {o : Option α} (h : ∀ a, o = some a → ∀ w', w.Leads w' → Q a w') :
    (Act.orAbort f o : Act κ σ α).Promises Q w := by
  cases o with
  | none => exact abort
  | some a => exact pure (h a rfl)

/-- A single step. -/
theorem make {f : World κ σ → α × World κ σ}
    (h : ∀ w', w.Leads w' → w'.Regular → (f w').2.Regular →
      w'.Leads (f w').2 ∧ ∀ w'', (f w').2.Leads w'' → Q (f w').1 w'') :
    (Act.make f).Promises Q w := by
  intro w' hw' hr hr'
  obtain ⟨hlead, hQ⟩ := h w' hw' hr hr'
  exact ⟨hlead, pure hQ⟩

/-- A single step aside. -/
theorem makeAside {f : World κ σ → α × World κ σ} (hf : ∀ w : World κ σ, w.Aside (f w).2)
    (h : ∀ w', w.Leads w' → ∀ w'', (f w').2.Leads w'' → Q (f w').1 w'') :
    (Act.make f).Promises Q w := make fun w' hw' _ _ => ⟨(hf w').leads hw'.orderly, h w' hw'⟩

/-- Looking at the world. -/
theorem world {Q : World κ σ → World κ σ → Prop}
    (h : ∀ w', w.Leads w' → ∀ w'', w'.Leads w'' → Q w' w'') :
    (Act.world : Act κ σ (World κ σ)).Promises Q w := makeAside (fun w => .refl w) h

/-- What comes after an action may rely on what it promises. -/
theorem after {k : Outcome α → Act κ σ β} {Q' : β → World κ σ → Prop} (hm : m.Promises Q w)
    (hvalue : ∀ a w', w.Leads w' → (∀ w'', w'.Leads w'' → Q a w'') →
      (k (.value a)).Promises Q' w')
    (hend : ∀ r w', w.Leads w' → (∀ a, r ≠ .value a) → (k r).Promises Q' w') :
    (m.after k).Promises Q' w := by
  induction m generalizing w with
  | done r =>
    refine of_later fun w' hw' => ?_
    cases r with
    | value a => exact hvalue a w' hw' fun w'' hw'' => hm a rfl w'' (hw'.trans hw'')
    | _ => exact hend _ w' hw' fun _ h => by cases h
  | step f next ih =>
    intro w' hw' hr hr'
    obtain ⟨hlead, hnext⟩ := hm w' hw' hr hr'
    have hto : ∀ {w''}, (f w').2.Leads w'' → w.Leads w'' := (hw'.trans hlead).trans
    exact ⟨hlead, ih _ hnext (fun a w'' h => hvalue a w'' (hto h)) fun r w'' h => hend r w'' (hto h)⟩

theorem bind {k : α → Act κ σ β} {Q' : β → World κ σ → Prop} (hm : m.Promises Q w)
    (hk : ∀ a w', w.Leads w' → (∀ w'', w'.Leads w'' → Q a w'') → (k a).Promises Q' w') :
    (m >>= k).Promises Q' w := by
  refine hm.after hk fun r w' _ hr => ?_
  cases r with
  | value a => exact absurd rfl (hr a)
  | _ => exact fun _ h => by cases h

theorem attempt (hm : m.Promises Q w) : (Act.attempt m).Promises (fun _ _ => True) w := by
  refine hm.after (fun a w' _ _ => .pure fun _ _ => trivial) fun r w' _ hr => ?_
  cases r with
  | value a => exact absurd rfl (hr a)
  | failure e => exact .pure fun _ _ => trivial
  | _ => exact fun _ h => by cases h

theorem catchPanic (hm : m.Promises Q w) : (Act.catchPanic m).Promises (fun _ _ => True) w := by
  refine hm.after (fun a w' _ _ => .pure fun _ _ => trivial) fun r w' _ hr => ?_
  cases r with
  | value a => exact absurd rfl (hr a)
  | panic p => exact .pure fun _ _ => trivial
  | _ => exact fun _ h => by cases h

/-- A weaker promise. -/
theorem mono {Q' : α → World κ σ → Prop} (hm : m.Promises Q w)
    (h : ∀ a w', w.Leads w' → Q a w' → Q' a w') : m.Promises Q' w := by
  induction m generalizing w with
  | done r => exact fun a ha w' hw' => h a w' hw' (hm a ha w' hw')
  | step f next ih =>
    intro w' hw' hr hr'
    obtain ⟨hlead, hnext⟩ := hm w' hw' hr hr'
    exact ⟨hlead, ih _ hnext fun a w'' hw'' => h a w'' (hw'.trans (hlead.trans hw''))⟩

/-- What a run comes to, if the action keeps to its ledger. -/
theorem run (h : m.Promises Q w) {S : Outcome α → Ledger κ → Prop} {R L : Ledger κ}
    (hm : m.Safe S L) (hw : Invariant (R + L) w) (ht : w.Orderly) :
    w.Leads (m.run w).2 ∧ ∀ a, (m.run w).1 = .value a → Q a (m.run w).2 := by
  induction m generalizing w L with
  | done r => exact ⟨.refl ht, fun a ha => h a ha w (.refl ht)⟩
  | step f next ih =>
    obtain ⟨L', hw', hnext⟩ := hm R w hw
    obtain ⟨hlead, hpromise⟩ := h w (.refl ht) ⟨_, hw⟩ ⟨_, hw'⟩
    obtain ⟨hleads, hQ⟩ := ih _ hpromise hnext hw' hlead.orderly
    exact ⟨hlead.trans hleads, hQ⟩

end Act.Promises

/-! ## Steady actions

An action is steady if it promises nothing, but keeps worlds orderly from wherever it starts. Most
are, and an action that promises something is often put together of steady ones and one that
does. -/

/-- Every step of an action leads from an orderly world to an orderly world. -/
def Act.Steady (m : Act κ σ α) : Prop := ∀ w, m.Promises (fun _ _ => True) w

namespace Act.Steady

variable {m : Act κ σ α}

theorem pure {a : α} : (Pure.pure a : Act κ σ α).Steady := fun _ => .pure fun _ _ => trivial

theorem fail {e : Error} : (Act.fail e : Act κ σ α).Steady := fun _ => .fail

theorem panic {p : Payload} : (Act.panic p : Act κ σ α).Steady := fun _ => .panic

theorem exhaust : (Act.exhaust : Act κ σ α).Steady := fun _ => .exhaust

theorem abort {f : Fault} : (Act.abort f : Act κ σ α).Steady := fun _ => .abort

theorem orAbort {f : Fault} {o : Option α} : (Act.orAbort f o : Act κ σ α).Steady :=
  fun _ => .orAbort fun _ _ _ _ => trivial

theorem ofExcept {r : Except Error α} : (Act.ofExcept r : Act κ σ α).Steady := by
  cases r with
  | error e => exact fail
  | ok a => exact pure

theorem make {f : World κ σ → α × World κ σ} (hf : ∀ w : World κ σ, w.Orderly → w.Leads (f w).2) :
    (Act.make f).Steady := fun _ => .make fun w' hw' _ _ => ⟨hf w' hw'.orderly, fun _ _ => trivial⟩

theorem makeAside {f : World κ σ → α × World κ σ} (hf : ∀ w : World κ σ, w.Aside (f w).2) :
    (Act.make f).Steady := make fun w hw => (hf w).leads hw

theorem updateAside {f : World κ σ → World κ σ} (hf : ∀ w : World κ σ, w.Aside (f w)) :
    (Act.update f : Act κ σ Unit).Steady := makeAside hf

theorem world : (Act.world : Act κ σ (World κ σ)).Steady := makeAside fun w => .refl w

theorem after {k : Outcome α → Act κ σ β} (hm : m.Steady) (hk : ∀ r, (k r).Steady) :
    (m.after k).Steady :=
  fun w => (hm w).after (fun _ w' _ _ => hk _ w') fun r w' _ _ => hk r w'

/-- A steady action may come before one that promises something. -/
theorem first {k : α → Act κ σ β} {Q : β → World κ σ → Prop} {w : World κ σ} (hm : m.Steady)
    (hk : ∀ a w', w.Leads w' → (k a).Promises Q w') : (m >>= k).Promises Q w :=
  (hm w).bind fun a w' hw' _ => hk a w' hw'

theorem bind {k : α → Act κ σ β} (hm : m.Steady) (hk : ∀ a, (k a).Steady) : (m >>= k).Steady :=
  fun _ => hm.first fun a w' _ => hk a w'

theorem attempt (hm : m.Steady) : (Act.attempt m).Steady := fun w => (hm w).attempt

theorem catchPanic (hm : m.Steady) : (Act.catchPanic m).Steady := fun w => (hm w).catchPanic

theorem guard {c : Prop} {_ : Decidable c} {e : Error} {k : Unit → Act κ σ α}
    (hk : (k ()).Steady) : (if c then (Act.fail e >>= k) else k ()).Steady :=
  fun w => .guard fun _ => hk w

/-- What an action promises is kept though something is done at its end. -/
theorem promisesEnsuring {cleanup : Act κ σ Unit} {Q : α → World κ σ → Prop} {w : World κ σ}
    (hc : cleanup.Steady) (hm : m.Promises Q w) : (Act.ensuring cleanup m).Promises Q w := by
  refine hm.after (fun a w' _ hQ => ?_) fun r w' _ hr => ?_
  · exact hc.first (k := fun _ => .done (.value a)) fun _ w'' hw'' => .pure fun w₁ hw₁ =>
      hQ w₁ (hw''.trans hw₁)
  · have hdone : ∀ w, (Act.done r : Act κ σ α).Promises Q w := fun _ a h => absurd h (hr a)
    split
    · exact hc.first (k := fun _ => .done r) fun _ w'' _ => hdone w''
    · exact hdone w'

theorem ensuring {cleanup : Act κ σ Unit} (hc : cleanup.Steady) (hm : m.Steady) :
    (Act.ensuring cleanup m).Steady := fun w => hc.promisesEnsuring (hm w)

/-- The same for what is done only if the action does not give its value. -/
theorem promisesUnwind {cleanup : Act κ σ Unit} {Q : α → World κ σ → Prop} {w : World κ σ}
    (hc : cleanup.Steady) (hm : m.Promises Q w) : (Act.onUnwind cleanup m).Promises Q w := by
  refine hm.after (fun a w' _ hQ => .pure hQ) fun r w' _ hr => ?_
  cases r with
  | value a => exact absurd rfl (hr a)
  | failure e => exact hc.first (k := fun _ => .done (.failure e)) fun _ _ _ => .fail
  | panic p => exact hc.first (k := fun _ => .done (.panic p)) fun _ _ _ => .panic
  | _ => exact fun _ h => by cases h

theorem onUnwind {cleanup : Act κ σ Unit} (hc : cleanup.Steady) (hm : m.Steady) :
    (Act.onUnwind cleanup m).Steady := fun w => hc.promisesUnwind (hm w)

end Act.Steady

/-! ## Releasing -/

theorem releaseEngine_steady (e : Nat) : (releaseEngine e : Act κ σ Unit).Steady :=
  .updateAside fun w => w.releaseEngine_aside e

theorem releaseEngine?_steady (o : Option Nat) : (releaseEngine? o : Act κ σ Unit).Steady := by
  cases o with
  | none => exact .pure
  | some e => exact releaseEngine_steady e

theorem releaseStore_steady (s : Nat) : (releaseStore s : Act κ σ Unit).Steady :=
  .bind (.makeAside fun w => w.dismissStore_aside s) releaseEngine?_steady

theorem releaseModule_steady (m : Nat) : (releaseModule m : Act κ σ Unit).Steady :=
  .bind (.makeAside fun w => w.dismissModule_aside m) releaseEngine?_steady

theorem releaseHandle_steady (h : Handle) : (releaseHandle h : Act κ σ Unit).Steady := by
  refine .bind (.makeAside fun w => w.retire_aside h) fun o => ?_
  cases o with
  | none => exact .pure
  | some s => exact releaseStore_steady s

theorem releaseWrappers_steady (xs : List Wrapper) :
    (releaseWrappers xs : Act κ σ Unit).Steady := by
  induction xs with
  | nil => exact .pure
  | cons x xs ih => exact .bind (releaseHandle_steady x.handle) fun _ => ih

theorem releaseItems_steady (items : List Item) : (releaseItems items : Act κ σ Unit).Steady :=
  releaseWrappers_steady _

theorem releaseLinker_steady (l : Nat) : (releaseLinker l : Act κ σ Unit).Steady := by
  refine .bind (.makeAside fun w => w.dismissLinker_aside l) fun o => ?_
  cases o with
  | none => exact .pure
  | some p => exact .bind (releaseEngine_steady p.1) fun _ => releaseWrappers_steady p.2

theorem releaseObject_steady (o : ObjectId) : (releaseObject o : Act κ σ Unit).Steady :=
  .bind (.makeAside fun w => w.reduceObject_aside o _) releaseWrappers_steady

theorem releaseOrigin_steady (g : Nat) : (releaseOrigin g : Act κ σ Unit).Steady :=
  .bind (.makeAside fun w => w.dismissOrigin_aside g) releaseWrappers_steady

theorem releaseOrigins_steady (gs : List Nat) : (releaseOrigins gs : Act κ σ Unit).Steady := by
  induction gs with
  | nil => exact .pure
  | cons g gs ih => exact .bind (releaseOrigin_steady g) fun _ => ih

theorem releaseVals_steady (vs : List Val) : (releaseVals vs : Act κ σ Unit).Steady := by
  induction vs with
  | nil => exact .pure
  | cons v vs ih =>
    refine .bind ?_ fun _ => ih
    unfold releaseVal
    split
    · exact releaseHandle_steady _
    · exact releaseObject_steady _
    · exact .pure

theorem releasePacked_steady {t : Nat} (p : Packed t) : (releasePacked p : Act κ σ Unit).Steady := by
  unfold releasePacked
  split
  · exact releaseOrigin_steady _
  · exact .pure

theorem releasePackedAll_steady {t : Nat} (ps : List (Packed t)) :
    (releasePackedAll ps : Act κ σ Unit).Steady := by
  induction ps with
  | nil => exact .pure
  | cons p ps ih => exact .bind (releasePacked_steady p) fun _ => ih

theorem releaseCapture_steady (c : Capture) : (releaseCapture c : Act κ σ Unit).Steady := by
  cases c with
  | engine e => exact releaseEngine_steady e
  | module m => exact releaseModule_steady m
  | linker l => exact releaseLinker_steady l
  | wrapper x => exact releaseHandle_steady x.handle
  | object o => exact releaseObject_steady o

theorem releaseCaptures_steady (cs : List Capture) : (releaseCaptures cs : Act κ σ Unit).Steady := by
  induction cs with
  | nil => exact .pure
  | cons c cs ih => exact .bind (releaseCapture_steady c) fun _ => ih

theorem finalize_steady (key : Nat) : (finalize key : Act κ σ Unit).Steady := by
  refine .bind (.makeAside fun w => w.unregister_aside key) fun o => ?_
  cases o with
  | none => exact .abort
  | some r => exact .bind (releaseStore_steady r.store) fun _ => releaseCaptures_steady r.captures

theorem finalizeAll_steady (keys : List Nat) : (finalizeAll keys : Act κ σ Unit).Steady := by
  induction keys with
  | nil => exact .pure
  | cons key keys ih => exact .bind (finalize_steady key) fun _ => ih

theorem context_steady (s : Nat) : (context s : Act κ σ Unit).Steady := by
  refine .bind (.makeAside fun w => w.beginDrain_aside s) fun count => ?_
  induction count with
  | zero => exact .pure
  | succ n ih => exact .bind (.updateAside fun w => w.reclaimNext_aside s) fun _ => ih

theorem deleteStore_steady (s : Nat) : (deleteStore s : Act κ σ Unit).Steady := by
  refine .bind (context_steady s) fun _ => .bind (.makeAside fun w => w.vacate_aside s) fun o => ?_
  cases o with
  | none => exact .pure
  | some p =>
    refine .bind (finalizeAll_steady p.1) fun _ => .bind (releaseOrigins_steady p.2) fun _ => ?_
    exact releaseStore_steady s

end WasmHost.Host
