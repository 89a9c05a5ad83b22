import WasmHost.Proofs.TypedRuns

/-!
# The boundary between host and guest

Values cross the boundary between host and guest in both directions, and in both they are of the kinds
that function types declare. Arguments of a call are checked before anything else is done, and so are
the values that a closure gives before guest code goes on; what guest code hands over needs no check,
since worlds are typed.

That values fit is checked by the host where they come from the host, and not checked where they
come from the guest. So the two directions need different arguments. For the first it is enough to
read the checks (`checkParams`, `checkResults`) and to see that nothing happens before them. The
other direction needs a type system: guest code has been validated, it is only ever run in stores
that are typed, and so whatever it has on its stack at a call is of the kinds that the called
function has declared. This is what the modules on typing are for, and what is taken from them here
are two facts, that reached worlds are orderly and that calls keep them so.

Between the check of the results and the guest that goes on with them lies the marshalling, which
may still fail, if one of the values is a function of another store. The three ways of a closure's
values (of its type and own, of its type and foreign, not of its type) are therefore three
statements.

It matters who is told. The guest that called the closure is one, and it sees a trap; whoever asked
for the guest to be run is another, and gets a message or a panic. There may be any number of frames
and of other closures in between. The relation `CallsClosure` leaves open how many, and what is said
of it holds for all.
-/

namespace WasmHost.Host

open Act

/-! ## What does not fit

An error says where the first difference is, so it has to be known that there is none before. -/

/-- The least index at which two lists of kinds differ, with the kinds that they have there. -/
structure DiffersFirst (ks ks' : List Kind) (index : Nat) (expected actual : Kind) : Prop where
  awaited : ks[index]? = some expected
  found : ks'[index]? = some actual
  differs : expected ≠ actual
  before : ∀ j < index, ks[j]? = ks'[j]?

theorem DiffersFirst.cons {ks ks' : List Kind} {index : Nat} {expected actual : Kind}
    (h : DiffersFirst ks ks' index expected actual) (k : Kind) :
    DiffersFirst (k :: ks) (k :: ks') (index + 1) expected actual where
  awaited := h.awaited
  found := h.found
  differs := h.differs
  before j hj := by
    cases j with
    | zero => rfl
    | succ j => exact h.before j (Nat.lt_of_succ_lt_succ hj)

variable {κ σ α β : Type}

/-! ## What is done at last

`Reaches` says of an action what it comes to and in which world, and leaves open what will be made
of its outcome. -/

namespace Act.Reaches

variable {m : Act κ σ α} {c : Act κ σ β} {w w' w₁ : World κ σ}

theorem of_run {m' : Act κ σ α} (hm : m.run w = m'.run w') (h : m'.Reaches w' c w₁) :
    m.Reaches w c w₁ := by
  obtain ⟨finish, hfinish⟩ := h
  exact ⟨finish, hm.trans hfinish⟩

theorem refl (m : Act κ σ α) (w : World κ σ) : m.Reaches w m w := by
  refine ⟨.done, ?_⟩
  rw [run_after]
  rfl

theorem after {γ : Type} {k : Outcome α → Act κ σ γ} (h : m.Reaches w c w₁) :
    (m.after k).Reaches w c w₁ := by
  obtain ⟨finish, hfinish⟩ := h
  refine ⟨fun o => (finish o).after k, ?_⟩
  rw [run_after, hfinish]
  simp only [run_after]

theorem first {γ : Type} {m : Act κ σ γ} {k : γ → Act κ σ α} {b : γ} (hm : m.run w = (.value b, w'))
    (h : (k b).Reaches w' c w₁) : (m >>= k).Reaches w c w₁ := .of_run (run_bind_value hm) h

end Act.Reaches

/-! ## Going on after a host function

A thread that calls out is given to the host together with the stack that it has. `GoesOn` says that
the very same thread, with the results on its stack, is what is executed next. -/

/-- In running an action, the thread that called a host function goes on with its results: it called
out in `w₁`, and goes on in `w₂`. -/
def GoesOn (host : Runner κ σ) (s key : Nat) (caller : Option Nat) (args results : List Guest.Value)
    (m : Act κ σ α) (w w₁ w₂ : World κ σ) : Prop :=
  ∃ default fuel start w₀ thread, CallsNext s default start w₀ key caller args thread w₁ ∧
    m.Reaches w (runThread host s default fuel (resuming thread results)) w₂

section GoesOn

variable {host : Runner κ σ} {s key place : Nat} {default caller : Option Nat}
  {given args results : List Guest.Value} {w w' w₁ w₂ : World κ σ}

theorem CallsOut.goesOn {fuel : Nat} {start : Guest.Store → Guest.Progress}
    (h : CallsOut host s default key caller args w₁ fuel start w)
    (hcall : (callHost host s key caller args).run w₁ = (.value (.ok results), w₂)) :
    GoesOn host s key caller args results (runThread host s default fuel start) w w₁ w₂ := by
  induction h with
  | next h =>
    obtain ⟨_, -, hrun⟩ := h.run hcall _
    exact ⟨_, _, _, _, _, h, .of_run hrun (.refl _ _)⟩
  -- A host function was called before, and gave its results; the guest code then went on to this
  -- call.
  | later h hcall₁ _ ih =>
    obtain ⟨_, _, _, _, _, hnext, hreach⟩ := ih
    obtain ⟨_, -, hrun⟩ := h.run hcall₁ _
    exact ⟨_, _, _, _, _, hnext, .of_run hrun hreach⟩

theorem PlaceCallsOut.goesOn (h : PlaceCallsOut host s place default given key caller args w w₁)
    (hcall : (callHost host s key caller args).run w₁ = (.value (.ok results), w₂)) :
    GoesOn host s key caller args results (callPlace host s place default given) w w₁ w₂ := by
  obtain ⟨now, g, hg, hnow, hout⟩ := h
  obtain ⟨default, fuel, start, w₀, thread, hnext, hreach⟩ := hout.goesOn hcall
  have hbefore : (onGuest s fun g => (g, { g with suspended := g.exited :: g.suspended }) :
      Act κ σ Guest.Store).run w =
      (.value g, w.setGuest s { g with suspended := g.exited :: g.suspended }) := run_onGuest hg _
  exact ⟨default, fuel, start, w₀, thread, hnext, .first hnow (.first hbefore hreach.after)⟩

end GoesOn

variable {host : Runner (Code κ) Pool} {L : Ledger (Code κ)} {w w' w₁ w₂ : World (Code κ) Pool}
  {s place : Nat} {given : List Guest.Value} {m : Job κ α} {default : Option Nat}

/-- Whoever asks for guest code to be run comes to what is done there. -/
theorem Asks.reaches {c : Job κ β} (h : Asks host s place given m w default w')
    (hreach : (callPlace host s place default given).Reaches w' c w₁) : m.Reaches w c w₁ := by
  cases h with
  | call huse hvs henters =>
    obtain ⟨type, packed, w₁, hplace, htype, hfit, hpack, hadopt⟩ := henters
    refine .first (run_context s w) (.first hplace (.first htype ?_))
    rw [hfit]
    exact .first rfl (.first hpack (.after (.first hadopt hreach.after)))
  | start huse henters hstart hgiven =>
    subst hgiven
    refine .of_run (henters.run host) (.after ?_)
    unfold callStart
    rw [hstart]
    exact hreach.after

/-- If there is a panic behind the trap that the engine answers with, it goes on in whoever asked. -/
theorem Asks.refused (h : Asks host s place given m w default w') {message : String}
    {frames : List Frame} (hcall : (callPlace host s place default given).run w' =
      (.value (.error ⟨.hostTrap message, frames⟩), w₁))
    (hkept : w₁.kept? s = some (.text foreignMessage)) : m.Refused (fun _ => False) w := by
  have hraise : ∀ {α : Type},
      (raise s ⟨.hostTrap message, frames⟩ : Job κ α).Refused (fun _ => False) w₁ := by
    intro α
    obtain ⟨w₂, hraise⟩ := run_raise_of_kept (α := α) hkept message frames
    unfold Act.Refused
    rw [hraise]
    rfl
  cases h with
  | call huse hvs henters =>
    obtain ⟨type, packed, w₁, hplace, htype, hfit, hpack, hadopt⟩ := henters
    refine .first (run_context s w) (.first hplace (.first htype ?_))
    rw [hfit]
    exact .first rfl (.first hpack (.ensuring (releasePackedAll_settling packed)
      (.first hadopt (.first hcall hraise))))
  | @start _ _ _ started _ _ huse henters hstart hgiven =>
    subst hgiven
    have hrun : (callStart host s started).run w' =
        (.value (.error ⟨.hostTrap message, frames⟩), w₁) := by
      unfold callStart
      rw [hstart]
      exact run_bind_value hcall
    unfold Act.Refused
    rw [henters.run host]
    exact Act.Refused.first hrun hraise

/-- What is known of the place that is called, and of the arguments for it. -/
theorem Asks.typed (h : Asks host s place given m w default w') (hw : Invariant L w)
    (ht : w.Orderly) : w'.Orderly ∧ ∃ type, w'.HasFuncOf s place type ∧
      List.Forall₂ (w'.Fits s) given type.params := by
  have hw₀ : Invariant (0 + L) w := by rwa [zero_add]
  cases h with
  | call huse hvs henters =>
    obtain ⟨known, hs⟩ := hw.tenure_of_inUse huse
    obtain ⟨hlead, type, -, hplace, hgiven⟩ :=
      henters.typed hw₀ hs (fun v hv => hw.has_of_lendsVal (hvs v hv)) ht
    exact ⟨hlead.orderly, type, hplace, hgiven⟩
  -- A start function has no parameters, which is a condition of validity.
  | start huse henters hstart hgiven =>
    obtain ⟨hlead, hstartable, -⟩ := henters.typed hw₀ ht
    obtain ⟨type, hparams, hplace⟩ := hstartable place hstart
    exact ⟨hlead.orderly, type, hplace, by rw [hgiven, hparams]; exact .nil⟩

/-! ## Calling closures

What was known in the world in which host code asked has to be known in the world in which the
closure is called, with all that guest code and other closures have done in between. That is the
first of these lemmas, and the others begin with it. -/

/-- Host code asks in one world for guest code to be run, and in another the guest code calls a host
function, whose closure is registered under its key. -/
inductive CallsClosure (host : Runner (Code κ) Pool) (r : Registration (Code κ)) (key : Nat)
    (caller : Option Nat) (args : List Guest.Value) :
    {α : Type} → Job κ α → World (Code κ) Pool → World (Code κ) Pool → Prop
  | intro {s place : Nat} {given : List Guest.Value} {default : Option Nat} {α : Type} {m : Job κ α}
      {w w₁ w₂ : World (Code κ) Pool} (hasks : Asks host s place given m w default w₁)
      (hout : PlaceCallsOut host s place default given key caller args w₁ w₂)
      (hr : w₂.registry.get? key = some r) : CallsClosure host r key caller args m w w₂

section Closures

variable {r : Registration (Code κ)} {key : Nat} {caller : Option Nat} {args : List Guest.Value}
  {params values : List Val}

namespace CallsClosure

variable (h : CallsClosure host r key caller args m w w') (hw : Invariant L w)

include h hw

theorem invariant (hhost : Fair host) :
    ∃ R known N, Invariant (R + .tenure r.store ((key, r) :: known) none ::ₘ N) w' := by
  obtain ⟨hasks, hout, hr⟩ := h
  obtain ⟨R, known, N, hw₁⟩ := hasks.invariant hw
  obtain ⟨r', rfl, hr', hw'⟩ := hout.invariant hhost hw₁
  obtain rfl : r = r' := Option.some.inj (hr.symm.trans hr')
  exact ⟨R, known, N, hw'⟩

/-- The closure is given values of the kinds that its type declares. -/
theorem kinds (hhost : Fair host) (hsteady : Steady host) (ht : w.Orderly)
    (hdelivers : Delivers r key args w' params w₁) : params.map Val.kind = r.type.params := by
  obtain ⟨R', known', N', hw'⟩ := h.invariant hw hhost
  obtain ⟨hasks, hout, hr⟩ := h
  obtain ⟨R, known, N, hw₁⟩ := hasks.invariant hw
  obtain ⟨ht₁, type, hplace, hgiven⟩ := hasks.typed hw ht
  obtain ⟨r', rfl, hr', -⟩ := hout.invariant hhost hw₁
  obtain rfl : r = r' := Option.some.inj (hr.symm.trans hr')
  -- The call out is one of typed code, so its arguments are of the declared kinds. Copying keeps
  -- them so.
  obtain ⟨ht', type', hkey, hargs⟩ := hout.typed hhost hsteady hw₁ ht₁ hplace hgiven
  exact hdelivers.kinds (Multiset.mem_cons_self _ _) hw' ht' hkey hargs

/-- If the host function gives results, guest code goes on with them. -/
theorem goesOn (hhost : Fair host) {results : List Guest.Value}
    (hcall : (callHost host r.store key caller args).run w' = (.value (.ok results), w₁)) :
    GoesOn host r.store key caller args results m w w' w₁ := by
  obtain ⟨hasks, hout, hr⟩ := h
  obtain ⟨R, known, N, hw₁⟩ := hasks.invariant hw
  obtain ⟨r', rfl, hr', -⟩ := hout.invariant hhost hw₁
  obtain rfl : r = r' := Option.some.inj (hr.symm.trans hr')
  obtain ⟨default, fuel, start, w₀, thread, hnext, hreach⟩ := hout.goesOn hcall
  exact ⟨default, fuel, start, w₀, thread, hnext, hasks.reaches hreach⟩

end CallsClosure

end Closures

section Delivers

variable {κ σ : Type} [Keeper κ σ] {host : Runner κ σ} (hhost : Fair host) {R L : Ledger κ}
  {known : List (Pin κ)} {w w₁ w₂ : World κ σ} {r : Registration κ} {key : Nat}
  {args : List Guest.Value} {params values : List Val}

include hhost

/-- What the closure gives is its caller's. The contract of closures is used here as it stands, for
a closure of which nothing else is known. -/
theorem Delivers.invariant (h : Delivers r key args w params w₁)
    (hs : .tenure r.store ((key, r) :: known) none ∈ L) (hw : Invariant (R + L) w)
    {instance_ : Option Nat}
    (hrun : (host r.code r.captures ⟨r.store, instance_⟩ params).run w₁ =
      (.value (.ok values), w₂)) :
    ∃ N, .tenure r.store ((key, r) :: known) none ∈ N ∧
      Invariant (R + (Ledger.owns (Val.sharesAll values) + N)) w₂ := by
  obtain ⟨packed, w₀, hexpose, hunpack⟩ := h
  obtain ⟨-, hw₀⟩ := lookup_known hs hw hexpose
  have hs₀ : .tenure r.store ((key, r) :: known) none ∈
      Ledger.owns (Packed.sharesAll packed) + L := Multiset.mem_add.mpr (.inr hs)
  have hw₁ := (unpackAll_leaves (Ledger.has_of_tenure hs₀) fun x hx =>
    Ledger.has_owns_add hx L).run_value hw₀ hunpack
  have hs₁ := Multiset.mem_add.mpr (.inr hs₀ : _ ∈ Ledger.owns (Val.sharesAll params) ∨ _)
  exact ⟨_, hs₁, (hhost key r known instance_ params _ hs₁ fun x hx =>
    Ledger.has_owns_add hx _).run_value hw₁ hrun⟩

/-- Values that are not of another store stand for something. -/
theorem Delivers.means (h : Delivers r key args w params w₁)
    (hs : .tenure r.store ((key, r) :: known) none ∈ L) (hw : Invariant (R + L) w)
    {instance_ : Option Nat}
    (hrun : (host r.code r.captures ⟨r.store, instance_⟩ params).run w₁ = (.value (.ok values), w₂))
    (hown : ∀ v ∈ values, ¬w₂.ForeignVal r.store v) :
    ∃ ys, List.Forall₂ (w₂.Means r.store) values ys := by
  obtain ⟨N, -, hw₂⟩ := h.invariant hhost hs hw hrun
  have hmeans : ∀ v ∈ values, ∃ x, w₂.Means r.store v x := fun v hv =>
    (hw₂.val_cases (fun x hx => Ledger.has_owns_add (List.mem_flatMap.mpr ⟨v, hv, hx⟩) N)
      r.store).resolve_right (hown v hv)
  clear hrun hw₂ hown
  induction values with
  | nil => exact ⟨[], .nil⟩
  | cons v values ih =>
    obtain ⟨x, hx⟩ := hmeans v (List.mem_cons_self ..)
    obtain ⟨ys, hys⟩ := ih fun u hu => hmeans u (List.mem_cons_of_mem _ hu)
    exact ⟨x :: ys, .cons hx hys⟩

end Delivers

/-! ## Calls

From a call that gives values one gets back the stages that it must have come through. -/

section Calls

variable {κ σ : Type} {host : Runner κ σ} {w w' : World κ σ} {s place : Nat} {f : Handle}
  {args vs : List Val}

/-- Raising a failure gives no value. -/
theorem Act.run_raise_ne_value {α : Type} {a : α} (failure : Guest.Failure) :
    (raise s failure : Act κ σ α).run w ≠ (.value a, w') := by
  intro h
  unfold raise at h
  split at h
  · cases h
  · obtain ⟨u, w₁, -, h⟩ := run_bind_eq_value h
    cases h

/-- A call that gives values has come to the engine, and gives the results of the engine's call. -/
theorem Func.enters_of_run (h : (Func.call host s f args).run w = (.value vs, w')) :
    ∃ place given w₁ results w₂ packed w₃ w₄, Func.Enters s f args w place given w₁ ∧
      (callPlace host s place none given).run w₁ = (.value (.ok results), w₂) ∧
      (exposeAll s results).run w₂ = (.value (.ok packed), w₃) ∧
      (unpackAll s packed).run w₃ = (.value vs, w₄) := by
  have h := (run_bind_value (run_context s w)).symm.trans h
  obtain ⟨place, w₁, hplace, h⟩ := run_bind_eq_value h
  obtain rfl := (funcPlace_looking s f).run_value hplace
  obtain ⟨type, w₁, htype, h⟩ := run_bind_eq_value h
  obtain rfl := (typeAt_looking s place).run_value htype
  cases hfit : checkParams type args with
  | error e =>
    rw [hfit] at h
    cases h
  | ok u =>
    rw [hfit] at h
    have h := (run_bind_value (m := Pure.pure ()) rfl).symm.trans h
    obtain ⟨packed, w₁, hpack, h⟩ := run_bind_eq_value h
    obtain ⟨w₂, h⟩ := run_ensuring_eq_value h
    obtain ⟨given, w₃, hadopt, h⟩ := run_bind_eq_value h
    obtain ⟨res, w₄, hcall, h⟩ := run_bind_eq_value h
    have henters : Enters s f args w place given w₃ :=
      ⟨type, packed, w₁, hplace, htype, hfit, hpack, hadopt⟩
    cases res with
    | error failure => exact absurd h (run_raise_ne_value failure)
    | ok results =>
      obtain ⟨res, w₅, hexpose, h⟩ := run_bind_eq_value h
      cases res with
      | error fault => cases h
      | ok packed =>
        obtain ⟨w₆, h⟩ := run_ensuring_eq_value h
        exact ⟨place, given, w₃, results, w₄, packed, w₅, w₆, henters, hcall, hexpose, h⟩

end Calls

section

set_option maxRecDepth 40000

end

end WasmHost.Host
