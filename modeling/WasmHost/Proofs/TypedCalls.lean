import WasmHost.Proofs.ThreadTyping
import WasmHost.Proofs.TypedClosures

/-!
# Calls in orderly worlds

Guest code is entered with arguments of the kinds that its function declares. It calls host functions
with arguments of the kinds that these declare, goes on with results of the kinds that it awaits, and
finishes with results of the function's kinds. The promise is carried from one round of a thread to
the next, through whatever closures and other threads do in between.

A call enters guest code, comes out of it for each host function that is called, and goes back in.
Between coming out and going in, a closure runs, and with it anything at all: other calls into the
same store, new instances, growing tables. So it is not the thread alone that has to be typed when
it goes back in, but the thread *in the store as it is then*. That is what `World.Starts` is for. It
says of the way a thread is started that it will be typed and rooted in whatever has become of its
store by the time it starts, and this is a promise in the sense of `Promises`, so it survives the
closure.

The rest is an induction on the number of calls out, one round after another.
-/

namespace WasmHost.Host

open Act

variable {κ σ α : Type} {w w' : World κ σ} {s : Nat}

/-- There is a function of a type at a place of a store. -/
def World.HasFuncOf (w : World κ σ) (s place : Nat) (type : Signature) : Prop :=
  w.In s fun g => ∃ f, g.funcs[place]? = some f ∧ f.type = type

theorem World.HasFuncOf.lead {place : Nat} {type : Signature} (h : w.HasFuncOf s place type)
    (hw : w.Leads w') : w'.HasFuncOf s place type :=
  World.In.lead h hw fun _ _ he ⟨f, hf, ht⟩ => ⟨f, he.evolves.funcs place f hf, ht⟩

theorem World.HasFuncOf.of_guest? {place : Nat} {g : Guest.Store} {f : Guest.Func}
    (hg : w.guest? s = some g) (hf : g.funcs[place]? = some f) : w.HasFuncOf s place f.type :=
  World.In.of_guest? hg ⟨f, hf, rfl⟩

/-! ## Threads -/

/-- What a stopped thread says about the values that go out of it, as long as its store is there. -/
def World.Admits (w : World κ σ) (s : Nat) (final : List Kind) : Guest.Event → Prop
  | .finished results => List.Forall₂ (w.Fits s) results final
  | .called key type args _ thread => w.Registered s key type ∧
      List.Forall₂ (w.Fits s) args type.params ∧
      (w.In s fun g => Guest.ThreadTyped g thread type.results final) ∧
      Guest.ThreadRooted (w.Keeps s) thread
  | .trapped .. | .stuck | .timeout => True

theorem World.Admits.lead {final : List Kind} {event : Guest.Event} (h : w.Admits s final event)
    (hw : w.Leads w') : w'.Admits s final event := by
  cases event with
  | finished results => exact h.imp fun _ _ hv => hv.lead hw
  | called key type args caller thread =>
    obtain ⟨hkey, hargs, hthread, hrooted⟩ := h
    exact ⟨hkey.lead hw, hargs.imp fun _ _ hv => hv.lead hw,
      hthread.lead hw fun _ _ hg ht => ht.evolve hg,
      fun a ha => (hrooted a ha).mono (hw.evolves.kept s)⟩
  | _ => trivial

/-- Values that are of kinds in the guest part of a store fit the store. -/
theorem World.Fits.of_values {g : Guest.Store} (hg : w.guest? s = some g) {vs : List Guest.Value}
    {ks : List Kind} (h : Guest.Value.FitAll g.funcs.size vs ks)
    (hr : Guest.Value.AllRooted (w.Keeps s) vs) : List.Forall₂ (w.Fits s) vs ks := by
  induction h with
  | nil => exact .nil
  | cons hv _ ih => exact .cons (.of_guest? hg hv hr.head) (ih hr.tail)

theorem World.Admits.of_guest? [Keeper κ σ] {g : Guest.Store} {final : List Kind} {event : Guest.Event}
    (ht : w.Typed) (hw : w.Regular) (hg : w.guest? s = some g) (h : event.Typed g final)
    (hr : event.Rooted (w.Keeps s)) : w.Admits s final event := by
  cases event with
  | finished results => exact World.Fits.of_values hg h hr
  | called key type args caller thread =>
    obtain ⟨⟨place, hplace⟩, hargs, hthread⟩ := h
    exact ⟨World.registered_of_guest? ht hw hg hplace, World.Fits.of_values hg hargs hr.1,
      .of_guest? hg hthread, hr.2⟩
  | _ => trivial

/-- Values that fit are of kinds in the guest part of their store. -/
theorem World.Fits.values {g : Guest.Store} (hg : w.guest? s = some g) {vs : List Guest.Value}
    {ks : List Kind} (h : List.Forall₂ (w.Fits s) vs ks) : Guest.Value.FitAll g.funcs.size vs ks :=
  h.imp fun _ _ hv => hv.value hg

/-- Values that fit a store are rooted there. -/
theorem World.Fits.allRooted {vs : List Guest.Value} {ks : List Kind}
    (h : List.Forall₂ (w.Fits s) vs ks) : Guest.Value.AllRooted (w.Keeps s) vs := by
  induction h with
  | nil => exact .nil
  | cons hv _ ih => exact .cons hv.rooted ih

/-- A thread starts typed and rooted in whatever becomes of its store. -/
def World.Starts (w : World κ σ) (s : Nat) (start : Guest.Store → Guest.Progress)
    (final : List Kind) : Prop :=
  ∀ w' g, w.Leads w' → w'.guest? s = some g →
    (start g).Typed g final ∧ (start g).Rooted (w'.Keeps s)

theorem World.Starts.lead {start : Guest.Store → Guest.Progress} {final : List Kind}
    (h : w.Starts s start final) (hw : w.Leads w') : w'.Starts s start final :=
  fun w'' g hw'' hg => h w'' g (hw.trans hw'') hg

/-- A thread goes on with the results that it awaits. -/
theorem World.Starts.resume {thread : List Guest.Activation} {results final : List Kind}
    {vs : List Guest.Value} (hthread : w.In s fun g => Guest.ThreadTyped g thread results final)
    (hrooted : Guest.ThreadRooted (w.Keeps s) thread)
    (hvs : List.Forall₂ (w.Fits s) vs results) (stack : Guest.Store → Nat) :
    w.Starts s (fun g => Guest.resume { g with stackUsed := stack g } thread vs) final := by
  intro w' g hw hg
  have hvs := hvs.imp fun _ _ h => h.lead hw
  have hlead := (Guest.Store.Leads.refl (hw.typed.guests s g hg)).stackUsed (stack g)
  have hthread' := (hthread.lead hw fun _ _ he ht => ht.evolve he).2 g hg
  refine ⟨(Guest.resume_typed hlead.typed (World.Fits.values hg hvs) (hthread'.evolve hlead)).after
    hlead, Guest.resume_rooted ?_ (fun a ha => (hrooted a ha).mono (hw.evolves.kept s))
    (World.Fits.allRooted hvs)⟩
  exact (hw.orderly.rooted s g hg).of_items rfl rfl

/-- A function is entered with arguments of its parameters' kinds. -/
theorem World.Starts.enter {place : Nat} {type : Signature} {args : List Guest.Value}
    (hplace : w.HasFuncOf s place type)
    (hargs : List.Forall₂ (w.Fits s) args type.params) (now : Nat) :
    w.Starts s (fun g => Guest.enter now none g [] place args) type.results := by
  intro w' g hw hg
  obtain ⟨f, hf, rfl⟩ := (hplace.lead hw).2 g hg
  have hargs := hargs.imp fun _ _ h => h.lead hw
  exact ⟨Guest.enter_typed (hw.typed.guests s g hg) hf (World.Fits.values hg hargs) .nil,
    Guest.enter_rooted (hw.orderly.rooted s g hg) (fun _ h => by cases h) place
      (World.Fits.allRooted hargs)⟩

variable [Keeper κ σ]

/-- A thread stops with an event that is typed. -/
theorem advance_promises {start : Guest.Store → Guest.Progress} {final : List Kind}
    (hstart : w.Starts s start final) (now bound : Nat) :
    (onGuest s fun g =>
      let (g, event) := Guest.advance now bound (start g)
      (event, g) : Act κ σ Guest.Event).Promises (fun event w' => w'.Admits s final event) w := by
  refine onGuest_promises fun w' g hw' hg => ?_
  obtain ⟨htyped, hrooted⟩ := hstart w' g hw' hg
  obtain ⟨hlead, hevent⟩ : g.Leads (Guest.advance now bound (start g)).1 ∧ _ :=
    Guest.advance_typed htyped bound
  obtain ⟨hstore, hgiven⟩ := Guest.advance_rooted hrooted now bound
  have hset := World.setGuest_leads hw'.orderly hg hlead hstore
  exact ⟨⟨hlead, hstore⟩, fun hregular w'' hw'' => (World.Admits.of_guest? hset.typed hregular
    (World.guestAt_setGuest hg _) hevent (hgiven.mono (hset.evolves.kept s))).lead hw''⟩

/-- The frames of a thread that calls out are set aside. -/
theorem setAside_steady (s : Nat) (thread : List Guest.Activation) :
    (onGuest s fun g =>
      let active := activeFrames g thread
      (active, { g with exited := active, stackUsed := g.stackUsed + hostStackCost }) :
      Act κ σ (List Frame)).Steady :=
  onGuest_steady (fun _ hg => .of_items hg rfl rfl rfl rfl rfl) fun _ _ hr => hr.of_items rfl rfl

section Running

variable {host : Runner κ σ} (hhost : Steady host)

include hhost

/-- One round after the other, a thread finishes with values of its function's kinds. -/
theorem runThread_promises (default : Option Nat) (fuel : Nat) {start : Guest.Store → Guest.Progress}
    {final : List Kind} (hstart : w.Starts s start final) :
    (runThread host s default fuel start).Promises
      (fun res w' => ∀ vs, res = .ok vs → List.Forall₂ (w'.Fits s) vs final) w := by
  induction fuel generalizing w start with
  | zero => exact .exhaust
  | succ fuel ih =>
    refine (epoch_steady s).first fun now w₁ hw₁ => ?_
    refine .bind (advance_promises (hstart.lead hw₁) now workBound) fun event w₂ hw₂ hevent => ?_
    cases event with
    | finished results =>
      refine .pure fun w₃ hw₃ vs hvs => ?_
      cases hvs
      exact hevent w₃ hw₃
    | trapped cause frames => exact .pure fun _ _ _ h => by cases h
    | stuck => exact .abort
    | timeout => exact .exhaust
    | called key type args caller thread =>
      refine (setAside_steady s thread).first fun active w₃ hw₃ => ?_
      obtain ⟨hkey, hargs, -⟩ := hevent w₃ hw₃
      refine .bind (callHost_promises hhost hkey hargs _) fun res w₄ hw₄ hres => ?_
      cases res with
      | error reason => exact (guest_steady s).first fun _ _ _ => .pure fun _ _ _ h => by cases h
      | ok results =>
        obtain ⟨-, -, hthread, hrooted⟩ := hevent w₄ (hw₃.trans hw₄)
        exact ih (.resume hthread hrooted (hres w₄ (.refl hw₄.orderly) results rfl) _)

omit hhost in
theorem entering_promises {m : Act κ σ α} {Q : α → World κ σ → Prop}
    (hm : ∀ w', w.Leads w' → m.Promises Q w') : (entering s m).Promises Q w := by
  have hbefore : (onGuest s fun g => (g, { g with suspended := g.exited :: g.suspended }) :
      Act κ σ Guest.Store).Steady :=
    onGuest_steady (fun g hg => .of_items hg rfl rfl rfl rfl rfl) fun _ _ hr => hr.of_items rfl rfl
  refine hbefore.first fun before w' hw' => Steady.promisesEnsuring ?_ (hm w' hw')
  exact .make fun w hw => World.mapGuest_leads hw s (fun g hg => .of_items hg rfl rfl rfl rfl rfl)
    fun _ _ hr => hr.of_items rfl rfl

/-- A function gives values of its results' kinds. -/
theorem callPlace_promises {place : Nat} {type : Signature} {args : List Guest.Value}
    (hplace : w.HasFuncOf s place type)
    (hargs : List.Forall₂ (w.Fits s) args type.params) (default : Option Nat) :
    (callPlace host s place default args).Promises
      (fun res w' => ∀ vs, res = .ok vs → List.Forall₂ (w'.Fits s) vs type.results) w := by
  refine (epoch_steady s).first fun now w₁ hw₁ => entering_promises fun w₂ hw₂ => ?_
  have hw := hw₁.trans hw₂
  exact runThread_promises hhost default workBound
    (.enter (hplace.lead hw) (hargs.imp fun _ _ h => h.lead hw) now)

end Running

/-! ## Functions -/

/-- Nothing comes of a failure that is raised. -/
theorem raise_promises (s : Nat) (f : Guest.Failure) {Q : α → World κ σ → Prop} :
    (raise s f : Act κ σ α).Promises Q w := by
  have hresume : (resumePanic s : Act κ σ Unit).Steady := by
    refine .bind (.makeAside fun w => w.takePanic_aside s) fun o => ?_
    cases o with
    | none => exact .pure
    | some p => exact .panic
  unfold raise
  split
  · exact .fail
  · exact hresume.first fun _ _ _ => .fail

namespace Func

theorem typeAt_promises {place : Nat} (h : w.HasFunc s place) :
    (typeAt s place : Act κ σ Signature).Promises (fun type w' => w'.HasFuncOf s place type) w := by
  refine .bind (guest_promises (Q := fun g w' => ∃ f, g.funcs[place]? = some f ∧
    w'.HasFuncOf s place f.type) fun w' g hw' hg w'' hw'' => ?_) fun g w' _ hQ => ?_
  · have hf := Array.getElem?_eq_getElem ((h.lead hw').2 g hg)
    exact ⟨_, hf, (World.HasFuncOf.of_guest? hg hf).lead hw''⟩
  · refine .pure fun w'' hw'' => ?_
    obtain ⟨f, hf, hplace⟩ := hQ w'' hw''
    simpa [hf] using hplace

section Calling

variable {host : Runner κ σ} (hhost : Steady host)

include hhost

/-- What a call does once its arguments have been checked, up to its results. -/
theorem answer_promises {place : Nat} {type : Signature} {args : List Val}
    (hplace : w.HasFuncOf s place type)
    (hargs : args.map Val.kind = type.params) :
    (do
      let packed ← packAll s args
      ensuring (releasePackedAll packed) do
        match ← callPlace host s place none (← adoptAll s packed) with
        | .error failure => raise s failure
        | .ok results =>
          match ← exposeAll s results with
          | .error fault => fail (.engine fault)
          | .ok packed => ensuring (releasePackedAll packed) (unpackAll s packed) :
      Act κ σ (List Val)).Promises (fun vs _ => vs.map Val.kind = type.results) w := by
  refine .bind (packAll_promises s args) fun packed w₁ hw₁ hpacked => ?_
  refine (releasePackedAll_steady packed).promisesEnsuring ?_
  have hs := Nat.lt_of_lt_of_le hplace.1 hw₁.evolves.size
  refine .bind (adoptAll_promises hs (hpacked w₁ (.refl hw₁.orderly))) fun given w₂ hw₂ hgiven => ?_
  have hplace₂ := hplace.lead (hw₁.trans hw₂)
  have hgiven₂ := hgiven w₂ (.refl hw₂.orderly)
  rw [hargs] at hgiven₂
  refine .bind (callPlace_promises hhost hplace₂ hgiven₂ none) fun res w₃ hw₃ hres => ?_
  cases res with
  | error failure => exact raise_promises s failure
  | ok results =>
    refine .bind (exposeAll_promises (hres w₃ (.refl hw₃.orderly) results rfl)) fun res w₄ hw₄ hres => ?_
    cases res with
    | error fault => exact .fail
    | ok packed =>
      refine (releasePackedAll_steady packed).promisesEnsuring ?_
      exact unpackAll_promises (hres w₄ (.refl hw₄.orderly) packed rfl)

end Calling

end Func

end WasmHost.Host
