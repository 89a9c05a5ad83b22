import WasmHost.Proofs.Boundary
import WasmHost.Proofs.Closures
import WasmHost.Proofs.Descriptors

/-!
# Functions that are made of typed closures

A typed closure takes its arguments off the front of a list, one after another, and the type of the
function that is made of it follows from the closure. A closure on lists that reads argument `i` as
parameter `i` does the same (`TypedClosure.AppliedBy`): a function with one of them cannot be told
from a function with the other. Since arguments have been checked by the type, all of them can be
read, and since results are listed by the same type, they pass the check that is made of them.

What is wrapped is a closure on data of fixed kinds, and what is registered must be a closure on
lists of values. The wrapper takes the list apart and puts the results together. To say that it does
so *correctly* there must be something to compare it with, which should not be a copy of the
wrapper. `AppliedBy` is a relation that a closure on lists has to a typed closure if it reads by
position. It does not say how, nor what the closure does with lists that cannot be read; and any two
closures with this relation are alike in all calls, which is where the type of the function comes
in: lists that cannot be read do not arrive.

The hard part is "in all calls". A call may run guest code, which calls the function, which may call
the guest again. Two hosts are compared that differ in what this one closure does, *from the moment
in which it is called*. What the closures mean until then is a third host, `before`, so that one
statement covers every way of coming there.
-/

namespace WasmHost.Host

open Act

/-! ## Data by position

Lists are taken apart from the front, and positions are counted from the front. So the inductions
are on the list of kinds, with the position one less in the rest. -/

theorem HostKind.ofVal_eq_ok {k : HostKind} {v : Val} {x : k.Data} :
    k.ofVal v = .ok x ↔ v = k.toVal x := by
  constructor
  · intro h
    cases k <;> cases v <;> cases h <;> rfl
  · rintro rfl
    exact k.ofVal_toVal x

theorem HostKind.exists_toVal {k : HostKind} {v : Val} (h : v.kind = k.kind) :
    ∃ x, v = k.toVal x := by
  cases k <;> cases v <;> cases h <;> exact ⟨_, rfl⟩

namespace HostArgs

/-- The datum at a place, with its kind. -/
def nth : (ks : List HostKind) → HostArgs ks → Nat → Option (Σ k : HostKind, k.Data)
  | [], _, _ => none
  | k :: _, (x, _), 0 => some ⟨k, x⟩
  | _ :: ks, (_, xs), i + 1 => nth ks xs i

/-- As many values as data are read, and value `i` is read as datum `i`. -/
structure Reads (ks : List HostKind) (vs : List Val) (xs : HostArgs ks) : Prop where
  length : vs.length = ks.length
  each : ∀ (i : Nat) (k : HostKind) (x : k.Data), nth ks xs i = some ⟨k, x⟩ →
    ∃ v, vs[i]? = some v ∧ k.ofVal v = .ok x

/-- As many values as data are listed, and value `i` is datum `i`. -/
structure Lists (ks : List HostKind) (xs : HostArgs ks) (vs : List Val) : Prop where
  length : vs.length = ks.length
  each : ∀ (i : Nat) (k : HostKind) (x : k.Data), nth ks xs i = some ⟨k, x⟩ →
    vs[i]? = some (k.toVal x)

theorem Reads.lists {ks : List HostKind} {vs : List Val} {xs : HostArgs ks} (h : Reads ks vs xs) :
    Lists ks xs vs where
  length := h.length
  each i k x hx := by
    obtain ⟨v, hv, hread⟩ := h.each i k x hx
    rw [hv, HostKind.ofVal_eq_ok.mp hread]

theorem Lists.eq_list {ks : List HostKind} {xs : HostArgs ks} {vs : List Val} (h : Lists ks xs vs) :
    vs = list ks xs := by
  induction ks generalizing vs with
  | nil => exact List.length_eq_zero_iff.mp h.length
  | cons k ks ih =>
    obtain ⟨x, xs⟩ := xs
    cases vs with
    | nil => cases h.length
    | cons v vs =>
      obtain rfl : v = k.toVal x := Option.some.inj (h.each 0 k x rfl)
      have htail : vs = list ks xs :=
        ih ⟨Nat.succ.inj h.length, fun i k' x' hx' => h.each (i + 1) k' x' hx'⟩
      rw [htail, list]

theorem lists_list (ks : List HostKind) (xs : HostArgs ks) : Lists ks xs (list ks xs) where
  length := by simpa using congrArg List.length (kinds_list ks xs)
  each i k x hx := by
    induction ks generalizing i with
    | nil => cases hx
    | cons k' ks ih =>
      obtain ⟨y, xs⟩ := xs
      cases i with
      | zero =>
        cases hx
        rfl
      | succ i => exact ih xs i hx

theorem reads_list (ks : List HostKind) (xs : HostArgs ks) : Reads ks (list ks xs) xs where
  length := (lists_list ks xs).length
  each i k x hx := ⟨_, (lists_list ks xs).each i k x hx, k.ofVal_toVal x⟩

/-- Values of the kinds of data are data. -/
theorem exists_list {ks : List HostKind} {vs : List Val}
    (h : vs.map Val.kind = ks.map HostKind.kind) : ∃ xs, vs = list ks xs := by
  induction ks generalizing vs with
  | nil => exact ⟨(), List.map_eq_nil_iff.mp h⟩
  | cons k ks ih =>
    obtain ⟨v, vs, rfl, hv, hvs⟩ := List.map_eq_cons_iff.mp h
    obtain ⟨x, rfl⟩ := HostKind.exists_toVal hv
    obtain ⟨xs, rfl⟩ := ih hvs
    exact ⟨(x, xs), rfl⟩

end HostArgs

variable {κ σ α β : Type}

/-! ## Closures that apply a typed closure

Any two of them do the same with arguments of the right kinds. -/

namespace TypedClosure

variable {f : TypedClosure κ σ} {g : Caller → List Val → Act κ σ (Except Trap (List Val))}

/-- A closure on lists applies a typed closure: given as many arguments as there are parameters, it
reads argument `i` as parameter `i`, does what the typed closure does, and lists its results in order.
A trap of the typed closure is its own. Nothing is said of arguments that cannot be read. -/
def AppliedBy (f : TypedClosure κ σ)
    (g : Caller → List Val → Act κ σ (Except Trap (List Val))) : Prop :=
  ∃ tell : HostArgs f.results → List Val, (∀ ys, HostArgs.Lists f.results ys (tell ys)) ∧
    ∀ caller args xs, HostArgs.Reads f.params args xs →
      ∀ w, (g caller args).run w = (Functor.map (Except.map tell) (f.run caller xs)).run w

/-- A typed closure that is given arguments of the kinds of its parameters. -/
theorem invoke_list (f : TypedClosure κ σ) (caller : Caller) (xs : HostArgs f.params) :
    f.invoke caller (HostArgs.list f.params xs) =
      Functor.map (Except.map (HostArgs.list f.results)) (f.run caller xs) := by
  unfold invoke
  rw [HostArgs.read_list]
  exact congrArg (f.run caller xs >>= ·) (funext fun res => by cases res <;> rfl)

/-- To take arguments off the front of a list is one way to read argument `i` as parameter `i`. -/
theorem appliedBy_invoke (f : TypedClosure κ σ) : f.AppliedBy f.invoke :=
  ⟨HostArgs.list f.results, HostArgs.lists_list f.results, fun caller args xs hread w => by
    rw [hread.lists.eq_list, invoke_list]⟩

/-- All ways do the same with arguments of the kinds of the parameters. -/
theorem AppliedBy.run_eq (h : f.AppliedBy g) {args : List Val}
    (hkinds : args.map Val.kind = f.type.params) (caller : Caller) (w : World κ σ) :
    (g caller args).run w = (f.invoke caller args).run w := by
  obtain ⟨tell, htell, happly⟩ := h
  obtain ⟨xs, rfl⟩ := HostArgs.exists_list hkinds
  obtain rfl : tell = HostArgs.list f.results := funext fun ys => (htell ys).eq_list
  rw [happly caller _ xs (HostArgs.reads_list _ xs), invoke_list]

/-- What a typed closure gives is of its type. -/
theorem checkResults_list (f : TypedClosure κ σ) (ys : HostArgs f.results) :
    checkResults f.type (HostArgs.list f.results ys) = none :=
  checkResults_eq_none (HostArgs.kinds_list f.results ys)

end TypedClosure

/-! ## Actions that go on alike

An action is built of others; it runs alike if its parts do, from the worlds in which they are
reached. -/

namespace Act

variable {m m' : Act κ σ α} {k k' : α → Act κ σ β} {w : World κ σ}

theorem run_bind_congr
    (h : ∀ a w', m.run w = (.value a, w') → (k a).run w' = (k' a).run w') :
    (m >>= k).run w = (m >>= k').run w := by
  show (m.after (·.go k)).run w = (m.after (·.go k')).run w
  rw [run_after, run_after]
  cases ho : (m.run w).1 with
  | value a => exact h a _ (Prod.ext ho rfl)
  | _ => rfl

theorem run_after_congr (k : Outcome α → Act κ σ β) (h : m.run w = m'.run w) :
    (m.after k).run w = (m'.after k).run w := by rw [run_after, run_after, h]

theorem run_onGuest_eq_value {s : Nat} {F : Guest.Store → α × Guest.Store} {a : α} {w' : World κ σ}
    (h : (onGuest s F).run w = (.value a, w')) :
    ∃ g, w.guest? s = some g ∧ a = (F g).1 ∧ w' = w.setGuest s (F g).2 := by
  cases hg : w.guest? s with
  | none =>
    have hmake : (make (·.onGuest s F) : Act κ σ (Option α)).run w = (.value none, w) :=
      run_make (by simp only [World.onGuest, hg])
    cases (run_bind_value hmake).symm.trans h
  | some g =>
    cases (run_onGuest hg F).symm.trans h
    exact ⟨g, rfl, rfl, rfl⟩

theorem run_of_catchPanic_ok {a : α} {w' : World κ σ}
    (h : (catchPanic m).run w = (.value (.ok a), w')) : m.run w = (.value a, w') := by
  rw [catchPanic, run_after] at h
  cases ho : (m.run w).1 <;> rw [ho] at h <;> cases h
  exact Prod.ext ho rfl

theorem epoch_looking (s : Nat) : (epoch s : Act κ σ Nat).Looking := .bind .world fun _ => .pure

end Act

/-! ## Host functions whose closures do the same

From the inside to the outside: the closure, the host function, the thread that calls it, the place,
the call. At each of them nothing but the inner part depends on the closure. -/

section Alike

variable {host host' : Runner κ σ} {r : Registration κ} {s key : Nat} {w : World κ σ}

/-- Two closures do the same with what one is given. -/
def SameOn (host host' : Runner κ σ) (r : Registration κ) (caller : Option Nat) (params : List Val)
    (w : World κ σ) : Prop :=
  (host r.code r.captures ⟨r.store, caller⟩ params).run w =
    (host' r.code r.captures ⟨r.store, caller⟩ params).run w

theorem runClosure_congr {t : Nat} {packed : List (Packed t)} {caller : Option Nat}
    (h : ∀ params w', (unpackAll r.store packed).run w = (.value params, w') →
      SameOn host host' r caller params w') :
    (runClosure host r caller packed).run w = (runClosure host' r caller packed).run w :=
  run_bind_congr fun params w' hparams =>
    run_after_congr _ (run_after_congr _ (h params w' hparams))

/-- Nothing else of a host function depends on what its closure does. -/
theorem callHost_congr [Keeper κ σ] {R L : Ledger κ} {known : List (Pin κ)} {caller : Option Nat}
    {args : List Guest.Value} (hs : .tenure r.store ((key, r) :: known) none ∈ L)
    (hw : Invariant (R + L) w)
    (h : ∀ params w', Delivers r key args w params w' → SameOn host host' r caller params w') :
    (callHost host r.store key caller args).run w =
      (callHost host' r.store key caller args).run w := by
  refine run_bind_congr fun res w₁ hexpose => ?_
  cases res with
  | error fault => rfl
  | ok packed =>
    obtain ⟨hfound, -⟩ := lookup_known hs hw hexpose
    refine run_after_congr _ ?_
    have hlookup : (make (·.lookup r.store key (packed.map Packed.kind))).run w₁ = _ :=
      run_lookup hfound
    refine (run_bind_value hlookup).trans (.trans ?_ (run_bind_value hlookup).symm)
    refine run_after_congr _ (run_after_congr _ (runClosure_congr fun params w' hunpack => ?_))
    exact h params w' ⟨packed, w₁, hexpose, hunpack⟩

/-- A thread that has finished runs nothing. -/
theorem runThread_finished {default : Option Nat} {start : Guest.Store → Guest.Progress}
    (h : ∀ g, ∃ g' results, start g = .stopped g' (.finished results)) (fuel : Nat) :
    (runThread host s default fuel start).run w = (runThread host' s default fuel start).run w := by
  cases fuel with
  | zero => rfl
  | succ fuel =>
    refine run_bind_congr fun now w₁ _ => run_bind_congr fun event w₂ hevent => ?_
    obtain ⟨g, -, rfl, -⟩ := run_onGuest_eq_value hevent
    obtain ⟨g', results, hstart⟩ := h g
    simp only [hstart, Guest.advance]

theorem advance_stopped (now n : Nat) (g : Guest.Store) (event : Guest.Event) :
    Guest.advance now n (.stopped g event) = (g, event) := by cases n <;> rfl

/-- A thread that stops at once to call a host function, with no frames of its own, calls no other. -/
theorem runThread_congr {g : Guest.Store} {type : Signature} {default : Option Nat}
    {start : Guest.Store → Guest.Progress} {given : List Guest.Value} (hg : w.guest? s = some g)
    (hstart : start g = .stopped g (.called key type given none []))
    (h : ∀ w', CallsNext s default start w key default given [] w' →
      (callHost host s key default given).run w' = (callHost host' s key default given).run w')
    (fuel : Nat) :
    (runThread host s default fuel start).run w = (runThread host' s default fuel start).run w := by
  cases fuel with
  | zero => rfl
  | succ fuel =>
    refine run_bind_congr fun now w₁ hnow => ?_
    obtain rfl : w = w₁ := ((epoch_looking s).run_value hnow).symm
    have hadvance : Guest.advance now workBound (start g) = (g, .called key type given none []) := by
      rw [hstart, advance_stopped]
    have hevent := run_advance (σ := σ) start hg (congrArg Prod.snd hadvance)
    rw [hadvance] at hevent
    refine (run_bind_value hevent).trans (.trans ?_ (run_bind_value hevent).symm)
    have hactive := run_onGuest (σ := σ) (World.guest?_setGuest hg g) fun g =>
      let active := activeFrames g ([] : List Guest.Activation)
      (active, { g with exited := active, stackUsed := g.stackUsed + hostStackCost })
    refine (run_bind_value hactive).trans (.trans ?_ (run_bind_value hactive).symm)
    have hcalls : CallsNext s default start w key default given [] (w.callingOut s g []) :=
      ⟨now, g, g, type, none, hnow, hg, hadvance, rfl, rfl⟩
    refine .trans (run_after_congr _ (h _ hcalls)) (run_bind_congr fun outcome w₂ _ => ?_)
    -- The host function has ended, and with it the thread, which has nothing else to run.
    cases outcome with
    | error reason => rfl
    | ok results => exact runThread_finished (fun g => ⟨_, results, rfl⟩) fuel

theorem CallsNext.registry {default caller : Option Nat} {start : Guest.Store → Guest.Progress}
    {args : List Guest.Value} {thread : List Guest.Activation} {w' : World κ σ}
    (h : CallsNext s default start w key caller args thread w') : w'.registry = w.registry := by
  obtain ⟨_, _, _, _, _, -, -, -, -, rfl⟩ := h
  rfl

/-- A host function that host code calls is the only one that is called. -/
theorem callPlace_congr (host₀ : Runner κ σ) {place : Nat} {type : Signature}
    {default : Option Nat} {given : List Guest.Value}
    (hplace : w.In s fun g => g.funcs[place]? = some (.host key type))
    (h : ∀ w', PlaceCallsOut host₀ s place default given key default given w w' →
      w'.registry = w.registry →
      (callHost host s key default given).run w' = (callHost host' s key default given).run w') :
    (callPlace host s place default given).run w = (callPlace host' s place default given).run w := by
  refine run_bind_congr fun now w₁ hnow => ?_
  obtain rfl : w = w₁ := ((epoch_looking s).run_value hnow).symm
  refine run_bind_congr fun g w₂ hbefore => run_after_congr _ ?_
  obtain ⟨g, hg, rfl, rfl⟩ := run_onGuest_eq_value hbefore
  have hstart : Guest.enter now none { g with suspended := g.exited :: g.suspended } [] place given =
      .stopped { g with suspended := g.exited :: g.suspended } (.called key type given none []) := by
    simp only [Guest.enter, hplace.2 g hg]
  refine runThread_congr (World.guest?_setGuest hg { g with suspended := g.exited :: g.suspended })
    hstart (fun w' hcalls => h w' ?_ hcalls.registry) workBound
  obtain ⟨fuel, hfuel⟩ : ∃ n, workBound = n + 1 := ⟨workBound - 1, rfl⟩
  exact ⟨now, g, hg, hnow, hfuel ▸ .next hcalls⟩

/-- What is called is all of a call that depends on closures. -/
theorem Func.call_congr {f : Handle} {args : List Val}
    (h : ∀ place given w', Func.Enters s f args w place given w' →
      (callPlace host s place none given).run w' = (callPlace host' s place none given).run w') :
    (Func.call host s f args).run w = (Func.call host' s f args).run w := by
  refine (run_bind_value (run_context s w)).trans (.trans ?_ (run_bind_value (run_context s w)).symm)
  refine run_bind_congr fun place w₁ hplace => ?_
  obtain rfl : w.drain s = w₁ := ((funcPlace_looking s f).run_value hplace).symm
  refine run_bind_congr fun type w₁ htype => ?_
  obtain rfl : w.drain s = w₁ := ((typeAt_looking s place).run_value htype).symm
  refine run_bind_congr fun _ w₁ hchecked => ?_
  obtain ⟨hfit, rfl⟩ : checkParams type args = .ok () ∧ w.drain s = w₁ := by
    cases hfit : checkParams type args <;> rw [hfit] at hchecked <;> cases hchecked
    exact ⟨rfl, rfl⟩
  refine run_bind_congr fun packed w₁ hpack => run_after_congr _ ?_
  refine run_bind_congr fun given w₂ hadopt => ?_
  exact run_after_congr _ (h place given w₂ ⟨type, packed, w₁, hplace, htype, hfit, hpack, hadopt⟩)

/-- Where a trap of a host function comes from: its closure panicked, or gave a trap, or gave values
that do not fit its type. The host function is taken apart from the front, and every other way of
ending it is excluded by what it ended with. -/
theorem callHost_hostTrap [Keeper κ σ] {R L : Ledger κ} {known : List (Pin κ)} {caller : Option Nat}
    {args : List Guest.Value} {message : String} {w' : World κ σ}
    (hs : .tenure r.store ((key, r) :: known) none ∈ L) (hw : Invariant (R + L) w)
    (h : (callHost host r.store key caller args).run w =
      (.value (.error (.hostTrap message)), w')) :
    message = panicMessage ∨ ∃ params w₁ res w₂, Delivers r key args w params w₁ ∧
      (host r.code r.captures ⟨r.store, caller⟩ params).run w₁ = (.value res, w₂) ∧
      ((∃ t, res = .error t ∧ t.message = message) ∨
        ∃ values, res = .ok values ∧ checkResults r.type values = some message) := by
  obtain ⟨res, w₁, hexpose, h⟩ := run_bind_eq_value h
  cases res with
  | error fault => cases h
  | ok packed =>
    obtain ⟨hfound, -⟩ := lookup_known hs hw hexpose
    obtain ⟨w₂, h⟩ := run_ensuring_eq_value h
    have h := (run_bind_value (run_lookup hfound)).symm.trans h
    obtain ⟨res, w₃, hcaught, h⟩ := run_bind_eq_value h
    obtain payload | message' | results := res
    · obtain ⟨⟨⟩, w₄, -, h⟩ := run_bind_eq_value h
      cases h
      exact .inl rfl
    · cases h
      obtain ⟨params, w₄, hunpack, hclosure⟩ := run_bind_eq_value (run_of_catchPanic_ok hcaught)
      obtain ⟨w₅, hclosure⟩ := run_ensuring_eq_value hclosure
      obtain ⟨res, w₆, hrun, hclosure⟩ := run_bind_eq_value hclosure
      refine .inr ⟨params, w₄, res, w₆, ⟨packed, w₁, hexpose, hunpack⟩, hrun, ?_⟩
      cases res with
      | error t =>
        cases hclosure
        exact .inl ⟨t, rfl, rfl⟩
      | ok values =>
        obtain ⟨w₇, hclosure⟩ := run_ensuring_eq_value hclosure
        cases hcheck : checkResults r.type values with
        | some message' =>
          rw [hcheck] at hclosure
          cases hclosure
          exact .inr ⟨values, rfl, hcheck⟩
        | none =>
          rw [hcheck] at hclosure
          obtain ⟨packed', w₈, -, hclosure⟩ := run_bind_eq_value hclosure
          cases hclosure
    · obtain ⟨w₄, h⟩ := run_ensuring_eq_value h
      obtain ⟨adopted, w₅, -, h⟩ := run_bind_eq_value h
      cases h

end Alike

/-! ## In orderly worlds

The type of the function says what its closure is given, in every world in which the function is
there. -/

/-- At a place of a store is a host function, whose closure is registered under its key. -/
def World.HostsClosure (w : World κ σ) (s place key : Nat) (r : Registration κ) : Prop :=
  (∃ g, w.guest? s = some g ∧ g.funcs[place]? = some (.host key r.type)) ∧
    w.registry.get? key = some r

section Typed

variable {L L' : Ledger (Code κ)} {w w' : World (Code κ) Pool} {r : Registration (Code κ)}
  {s place key : Nat}

/-- A host function keeps its place, its type and its closure for as long as its store is there. -/
theorem World.HostsClosure.lead (h : w.HostsClosure s place key r) (hw : Invariant L w)
    (hw' : Invariant L' w') (hlead : w.Leads w') {g' : Guest.Store} (hg' : w'.guest? s = some g') :
    w'.HostsClosure s place key r := by
  obtain ⟨⟨g, hg, hplace⟩, hr⟩ := h
  obtain ⟨r', hmem, hr', -⟩ := hw.sound.hosted.bound s g place key r.type hg hplace
  obtain rfl : r = r' := Option.some.inj (hr.symm.trans hr')
  have hmem' := hlead.evolves.functions _ hmem
  exact ⟨⟨g', hg', (hlead.typed.functions _ hmem').2 g' hg'⟩,
    (hw'.sound.hosted.registry_get? hmem' hg').1⟩

/-- What the closure is given is of its kinds, so it is all the same what it does with anything
else. -/
theorem CallsClosure.callHost_congr {before host host' : Runner (Code κ) Pool} {caller : Option Nat}
    {args : List Guest.Value} {m : Job κ α} (h : CallsClosure before r key caller args m w w')
    (hw : Invariant L w) (ht : w.Orderly) (hfair : Fair before) (hsteady : Steady before)
    (hsame : ∀ params w₁, params.map Val.kind = r.type.params →
      SameOn host host' r caller params w₁) :
    (callHost host r.store key caller args).run w' =
      (callHost host' r.store key caller args).run w' := by
  obtain ⟨R, known, N, hw'⟩ := h.invariant hw hfair
  exact Host.callHost_congr (Multiset.mem_cons_self _ _) hw' fun params w₁ hdelivers =>
    hsame params w₁ (h.kinds hw hfair hsteady ht hdelivers)

/-- What closures mean where none is run. -/
def unrun : Runner κ σ := fun _ _ _ _ => exhaust

theorem fair_unrun [Keeper κ σ] : Fair (unrun : Runner κ σ) := fun _ _ _ _ _ _ _ _ => Leaves.exhaust

theorem steady_unrun [Keeper κ σ] : Steady (unrun : Runner κ σ) := fun _ _ _ _ _ _ => .exhaust

/-- A host function is called by host code. -/
theorem Func.call_hosted_congr {f : Handle} {args : List Val} {g : Guest.Store}
    {host host' : Runner (Code κ) Pool} (hw : Invariant L w) (ht : w.Orderly) (huse : w.InUse s g)
    (hfunc : w.FuncHandle s f place) (hhosts : w.HostsClosure s place key r)
    (hargs : ∀ v ∈ args, w.user.LendsVal v)
    (hsame : ∀ params w₁, params.map Val.kind = r.type.params →
      SameOn host host' r none params w₁) :
    (Func.call host s f args).run w = (Func.call host' s f args).run w := by
  have hw₀ : Invariant (0 + L) w := by rwa [zero_add]
  refine call_congr fun place' given w₁ henters => ?_
  obtain rfl : place' = place := by
    obtain ⟨-, -, -, hplace, -⟩ := henters
    cases (run_funcPlace ((hw₀.drain s).2 f _ hfunc)).symm.trans hplace
    rfl
  obtain ⟨known, hs⟩ := hw.tenure_of_inUse huse
  -- No closure is run before this one, so it does not matter what closures mean until then.
  obtain ⟨hlead, -⟩ := henters.typed hw₀ hs (fun v hv => hw.has_of_lendsVal (hargs v hv)) ht
  have hasks : Asks unrun s place' given (Func.call unrun s f args) w none w₁ :=
    .call huse hargs henters
  obtain ⟨R, known', N, hw₁⟩ := hasks.invariant hw
  obtain ⟨c, g₁, -, hg₁, -⟩ := hw₁.tenured (Multiset.mem_cons_self _ _)
  obtain ⟨⟨g₂, hg₂, hplace⟩, hr⟩ := hhosts.lead hw hw₁ hlead hg₁
  refine callPlace_congr unrun (.of_guest? hg₂ hplace) fun w₂ hout hregistry => ?_
  have hcalls : CallsClosure unrun r key none given (Func.call unrun s f args) w w₂ :=
    ⟨hasks, hout, hregistry ▸ hr⟩
  obtain rfl : r.store = s := (hw.knows huse (by
    obtain ⟨⟨g', hg', hplace'⟩, -⟩ := hhosts
    obtain rfl : g = g' := Option.some.inj (huse.guest.symm.trans hg')
    exact hplace') hhosts.2).1
  exact hcalls.callHost_congr hw ht fair_unrun steady_unrun hsame

end Typed

/-! ## Every world that is reached

Two worlds, so that it can be said that a function keeps its closure while other requests go on. -/

/-- Functions that are made of typed closures, in one world and in another that comes after it.

`before` is what closures mean until the one in question is run, and `host` and `host'` are what they
mean from then on. -/
structure World.WrapsClosures (w w' : World (Code κ) Pool) : Prop where
  /-- The function that is made of a typed closure is of the kinds of its parameters and results, in
  order, and so it is shown. -/
  made : ∀ (s : Nat) (g : Guest.Store) (f : TypedClosure (Code κ) Pool) (code : Code κ)
    (captures : List Capture), w.InUse s g → ∃ h w₁ place key number,
      (Func.create s f.type code captures : Job κ Handle).run w = (.value h, w₁) ∧
      w₁.FuncHandle s h place ∧
      w₁.HostsClosure s place key ⟨s, f.type, code, captures, number⟩ ∧
      ((Func.type s h : Job κ Signature).run w₁).1 =
        .value ⟨f.params.map HostKind.kind, f.results.map HostKind.kind⟩
  /-- It stays the function of this closure for as long as its store is there. -/
  stays : ∀ (s place key : Nat) (r : Registration (Code κ)) (g : Guest.Store),
    w.HostsClosure s place key r → w'.guest? s = some g → w'.HostsClosure s place key r
  /-- Called with any arguments, it does just what it would do if its closure were one on lists that
  reads argument `i` as parameter `i`, applies the typed closure and lists its results in order. -/
  called : ∀ (s place key : Nat) (h : Handle) (g : Guest.Store) (r : Registration (Code κ))
    (f : TypedClosure (Code κ) Pool) (host host' : Runner (Code κ) Pool) (args : List Val),
    w.InUse s g → w.FuncHandle s h place → w.HostsClosure s place key r → r.type = f.type →
    (∀ v ∈ args, w.user.LendsVal v) → host r.code r.captures = f.invoke →
    f.AppliedBy (host' r.code r.captures) →
    (Func.call host s h args).run w = (Func.call host' s h args).run w
  /-- So it does when guest code calls it, or host code does, to whatever depth. -/
  calledBack : ∀ {α : Type} (m : Job κ α) (r : Registration (Code κ)) (key : Nat)
    (caller : Option Nat) (args : List Guest.Value) (f : TypedClosure (Code κ) Pool)
    (before host host' : Runner (Code κ) Pool) (w₁ : World (Code κ) Pool), Fair before →
    Steady before → CallsClosure before r key caller args m w w₁ → r.type = f.type →
    host r.code r.captures = f.invoke → f.AppliedBy (host' r.code r.captures) →
    (callHost host r.store key caller args).run w₁ = (callHost host' r.store key caller args).run w₁
  /-- What the closure is given can be read: there is an argument for each parameter, and it is of its
  kind. -/
  read : ∀ {α : Type} (m : Job κ α) (r : Registration (Code κ)) (key : Nat) (caller : Option Nat)
    (args : List Guest.Value) (params : List Val) (f : TypedClosure (Code κ) Pool)
    (before : Runner (Code κ) Pool) (w₁ w₂ : World (Code κ) Pool), Fair before → Steady before →
    CallsClosure before r key caller args m w w₁ → Delivers r key args w₁ params w₂ →
    r.type = f.type → ∃ xs, HostArgs.Reads f.params params xs ∧
      HostArgs.read f.params params = .ok xs
  /-- So whenever the function gives a trap, the typed closure has given that very trap for what it
  was given, or else it has panicked: none comes of what cannot be read, or does not fit. -/
  traps : ∀ {α : Type} (m : Job κ α) (r : Registration (Code κ)) (key : Nat) (caller : Option Nat)
    (args : List Guest.Value) (f : TypedClosure (Code κ) Pool) (before host : Runner (Code κ) Pool)
    (message : String) (w₁ w₂ : World (Code κ) Pool), Fair before → Steady before →
    CallsClosure before r key caller args m w w₁ → r.type = f.type →
    host r.code r.captures = f.invoke →
    (callHost host r.store key caller args).run w₁ = (.value (.error (.hostTrap message)), w₂) →
    message = panicMessage ∨ ∃ params xs t w₃ w₄, Delivers r key args w₁ params w₃ ∧
      HostArgs.Reads f.params params xs ∧
      (f.run ⟨r.store, caller⟩ xs).run w₃ = (.value (.error t), w₄) ∧ t.message = message

section Wraps

variable {L L' : Ledger (Code κ)} {w w' : World (Code κ) Pool} {r : Registration (Code κ)}
  {f : TypedClosure (Code κ) Pool} {host host' : Runner (Code κ) Pool}

/-- A typed closure does the same as one that applies it, with what the function is given. -/
theorem TypedClosure.sameOn (htype : r.type = f.type) (hhost : host r.code r.captures = f.invoke)
    (hhost' : f.AppliedBy (host' r.code r.captures)) (caller : Option Nat) (params : List Val)
    (w : World (Code κ) Pool) (hkinds : params.map Val.kind = r.type.params) :
    SameOn host host' r caller params w := by
  unfold SameOn
  rw [hhost, hhost'.run_eq (hkinds.trans (congrArg Signature.params htype))]

/-- What a typed closure comes to, given arguments of its kinds. -/
theorem TypedClosure.run_invoke_list {caller : Caller} {xs : HostArgs f.params}
    {res : Except Trap (List Val)}
    (h : (f.invoke caller (HostArgs.list f.params xs)).run w = (.value res, w')) :
    ∃ res', (f.run caller xs).run w = (.value res', w') ∧
      res = res'.map (HostArgs.list f.results) := by
  rw [invoke_list] at h
  obtain ⟨res', w₁, hrun, h⟩ := run_bind_eq_value h
  cases h
  exact ⟨res', hrun, rfl⟩

theorem Invariant.wrapsClosures (hw : Invariant L w) (ht : w.Orderly) (hw' : Invariant L' w')
    (hlead : w.Leads w') : w.WrapsClosures w' where
  made s g f code captures huse := by
    obtain ⟨h, w₁, place, key, number, g', hrun, hidle, hfunc, hg, hplace, hr⟩ :=
      Func.run_create huse.guest f.type code captures
    refine ⟨h, w₁, place, key, number, hrun, hfunc, ⟨⟨g', hg, hplace⟩, hr⟩, ?_⟩
    have hfunc' : (w₁.drain s).FuncHandle s h place := by rwa [hidle.drain_eq]
    exact congrArg Prod.fst (Func.run_type hfunc' hg hplace)
  stays s place key r g hhosts hg := hhosts.lead hw hw' hlead hg
  called s place key h g r f host host' args huse hfunc hhosts htype hargs hhost hhost' :=
    Func.call_hosted_congr hw ht huse hfunc hhosts hargs
      (TypedClosure.sameOn htype hhost hhost' none)
  calledBack m r key caller args f before host host' w₁ hfair hsteady hcalls htype hhost hhost' :=
    hcalls.callHost_congr hw ht hfair hsteady (TypedClosure.sameOn htype hhost hhost' caller)
  read m r key caller args params f before w₁ w₂ hfair hsteady hcalls hdelivers htype := by
    obtain ⟨xs, rfl⟩ := HostArgs.exists_list
      ((hcalls.kinds hw hfair hsteady ht hdelivers).trans (congrArg Signature.params htype))
    exact ⟨xs, HostArgs.reads_list f.params xs, HostArgs.read_list f.params xs⟩
  traps m r key caller args f before host message w₁ w₂ hfair hsteady hcalls htype hhost hrun := by
    obtain ⟨R, known, N, hw₁⟩ := hcalls.invariant hw hfair
    refine (callHost_hostTrap (Multiset.mem_cons_self _ _) hw₁ hrun).imp_right ?_
    rintro ⟨params, w₃, res, w₄, hdelivers, hclosure, hres⟩
    obtain ⟨xs, rfl⟩ := HostArgs.exists_list
      ((hcalls.kinds hw hfair hsteady ht hdelivers).trans (congrArg Signature.params htype))
    rw [hhost] at hclosure
    obtain ⟨res, hran, rfl⟩ := TypedClosure.run_invoke_list hclosure
    cases res with
    | ok ys =>
      -- The closure gave values, and they are of its type. So the trap is not about them.
      obtain ⟨t, ht, -⟩ | ⟨values, hvalues, hcheck⟩ := hres
      · cases ht
      · cases hvalues
        rw [htype, f.checkResults_list] at hcheck
        cases hcheck
    | error t =>
      obtain ⟨t, ht, hmessage⟩ | ⟨values, hvalues, -⟩ := hres
      · cases ht
        exact ⟨_, xs, t, _, w₄, hdelivers, HostArgs.reads_list f.params xs, hran, hmessage⟩
      · cases hvalues

end Wraps

/-- In every world that an embedder reaches, and in all that come after it, a function that is made of
a typed closure is of its type, and agrees with one whose closure reads its arguments by position. -/
theorem Embedder.closures_wrapped (embedder : Embedder κ) (depth : Nat)
    (programs : List (Program κ Unit)) (order later : List Nat) :
    let t := (embedder.start depth programs).run order
    t.world.WrapsClosures (t.run later).world := by
  have hsafe := embedder.safe_start depth programs
  obtain ⟨Ls, -, hw⟩ := hsafe.run order
  obtain ⟨Ls', -, hw'⟩ := (hsafe.run order).run later
  obtain ⟨ht, hlead⟩ := embedder.typed_run depth programs order later
  exact hw.wrapsClosures ht hw' hlead

/-- A function that is made of a closure on numbers is of their kinds. -/
theorem Embedder.closures_wrapped_lent :
    let identity : TypedClosure (Code Unit) Pool := ⟨[.i32, .i64], [.i32, .i64], fun _ xs => pure (.ok xs)⟩
    ∃ h w, (Func.create 0 identity.type (.custom ()) [] : Job Unit Handle).run Specimen.world =
        (.value h, w) ∧
      ((Func.type 0 h : Job Unit Signature).run w).1 = .value ⟨[.i32, .i64], [.i32, .i64]⟩ := by
  intro identity
  have hmade := (Specimen.embedder.closures_wrapped 1 Specimen.programs Specimen.order []).made 0
    Specimen.store identity (.custom ()) []
  rw [← Specimen.world_eq] at hmade
  obtain ⟨h, w, _, _, _, hrun, -, -, htype⟩ := hmade Specimen.inUse_store
  exact ⟨h, w, hrun, htype⟩

end WasmHost.Host
