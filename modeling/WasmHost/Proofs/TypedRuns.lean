import WasmHost.Proofs.Reporting
import WasmHost.Proofs.TypedPrograms

/-!
# Runs in orderly worlds

Host code that asks for guest code to be run in an orderly world hands over arguments of the kinds that
the function declares. In the run, a closure is given values of the kinds that its type declares,
however many host functions have been called before: by induction on `CallsOut`, from one round of the
thread to the next.

The contracts of `TypedCalls` are about calls as a whole: given arguments of the declared kinds, a
call gives results of the declared kinds. What the statements about the boundary need is in the
middle of a call, where guest code calls out to a closure. `CallsOut` describes this situation by
the steps that lead to it, and the typing has to be carried along these steps, from a world where it
is known.

What is carried is the pair of `Starts` and `Admits` from `TypedClosures`: a thread that may be
started, and the event it stops with. There is no need for an invariant of the rounds beyond these,
because the thread that goes on with results is again one that may be started.
-/

namespace WasmHost.Host

open Act

variable {κ σ α β : Type}

/-! ## Runs that give values

Read backwards, an action that gives a value has had all its parts give values. Operations that look
at handles tell in this way what the handles stand for. -/

/-- What comes after another action gives a value only if that does. -/
theorem Act.run_bind_eq_value {m : Act κ σ β} {k : β → Act κ σ α} {w w' : World κ σ} {a : α}
    (h : (m >>= k).run w = (.value a, w')) :
    ∃ b w₁, m.run w = (.value b, w₁) ∧ (k b).run w₁ = (.value a, w') := by
  have h : (m.after (·.go k)).run w = (.value a, w') := h
  rw [run_after] at h
  cases hr : (m.run w).1 with
  | value b =>
    rw [hr] at h
    exact ⟨b, (m.run w).2, Prod.ext hr rfl, h⟩
  | _ =>
    rw [hr] at h
    cases congrArg Prod.fst h

/-- An action at whose end something is done gives its own value. -/
theorem Act.run_ensuring_eq_value {m : Act κ σ α} {cleanup : Act κ σ Unit} {w w' : World κ σ} {a : α}
    (h : (ensuring cleanup m).run w = (.value a, w')) : ∃ w₁, m.run w = (.value a, w₁) := by
  rw [ensuring, run_after] at h
  cases hr : (m.run w).1 with
  | value b =>
    rw [hr] at h
    obtain ⟨u, w₁, -, h⟩ := run_bind_eq_value (k := fun _ => Pure.pure b) h
    cases h
    exact ⟨_, Prod.ext hr rfl⟩
  | failure e =>
    rw [hr] at h
    obtain ⟨u, w₁, -, h⟩ := run_bind_eq_value (k := fun _ => .done (.failure e)) h
    cases h
  | panic p =>
    rw [hr] at h
    obtain ⟨u, w₁, -, h⟩ := run_bind_eq_value (k := fun _ => .done (.panic p)) h
    cases h
  | _ =>
    rw [hr] at h
    cases congrArg Prod.fst h

section Looking

variable {w w' : World κ σ} {s : Nat} {a : Handle}

theorem Act.itemHandle_of_run {p : Guest.Place} (h : (place s a : Act κ σ _).run w = (.value p, w')) :
    w.ItemHandle s a p := by
  obtain ⟨c, w₁, hcheck, h⟩ := run_bind_eq_value h
  obtain ⟨c', w₂, hcell, hcheck⟩ := run_bind_eq_value hcheck
  obtain ⟨v, w₃, hworld, hcell⟩ := run_bind_eq_value hcell
  cases hworld
  -- Each of the checks that the operation makes would have ended it otherwise.
  cases hc : w.heap.get? a with
  | none =>
    rw [hc] at hcell
    cases hcell
  | some d =>
    simp only [hc] at hcell
    split at hcell
    · cases hcell
    · rename_i hpos
      cases hcell
      split at hcheck
      · rename_i hs
        cases hcheck
        split at h
        · rename_i t q htarget
          obtain ⟨u, w₁, hhand, h⟩ := run_bind_eq_value h
          unfold hand at hhand
          split at hhand
          · rename_i ht
            cases h
            exact ⟨_, hc, Nat.pos_of_ne_zero hpos, hs, ht ▸ htarget⟩
          · cases hhand
        · cases h
      · cases hcheck

theorem Act.funcHandle_of_run {i : Nat} (h : (funcPlace s a : Act κ σ _).run w = (.value i, w')) :
    w.FuncHandle s a i := by
  obtain ⟨p, w₁, hplace, h⟩ := run_bind_eq_value h
  have hitem := itemHandle_of_run hplace
  cases p with
  | func j =>
    cases h
    exact hitem
  | _ => cases h

/-- What an owned handle stands for is there. -/
theorem World.ItemHandle.declared {p : Guest.Place} (h : w.ItemHandle s a p) (ht : w.Typed) :
    w.In s fun g => (g.declaredType? p).isSome := by
  obtain ⟨c, hc, -, -, htarget⟩ := h
  have hdeclared := ht.targets a c hc
  rwa [htarget] at hdeclared

theorem World.FuncHandle.hasFunc {i : Nat} (h : w.FuncHandle s a i) (ht : w.Typed) : w.HasFunc s i := by
  obtain ⟨hsize, hplace⟩ := World.ItemHandle.declared h ht
  exact ⟨hsize, fun g hg => by simpa [Guest.Store.declaredType?] using hplace g hg⟩

theorem Act.guest?_of_run {g : Guest.Store} (h : (guest s : Act κ σ _).run w = (.value g, w')) :
    w.guest? s = some g := (run_orAbort (show (orAbort .stuck (w.guest? s)).run w = _ from h)).1

theorem Func.hasFuncOf_of_run {place : Nat} {type : Signature} (hplace : w.HasFunc s place)
    (h : (typeAt s place : Act κ σ _).run w = (.value type, w')) : w.HasFuncOf s place type := by
  obtain ⟨g, w₁, hg, h⟩ := run_bind_eq_value h
  have hthere := guest?_of_run hg
  have hf := Array.getElem?_eq_getElem (hplace.2 g hthere)
  cases h
  simpa [hf] using World.HasFuncOf.of_guest? hthere hf

theorem Instance.declared_of_run {items : List Item} {places : List Guest.Place} (ht : w.Typed)
    (h : (Instance.places s items : Act κ σ _).run w = (.value places, w')) :
    places.length = items.length ∧ ∀ p ∈ places, w.In s fun g => (g.declaredType? p).isSome := by
  induction items generalizing w w' places with
  | nil =>
    cases h
    exact ⟨rfl, fun _ h => by cases h⟩
  | cons item items ih =>
    obtain ⟨p, w₁, hplace, h⟩ := run_bind_eq_value h
    obtain ⟨ps, w₂, hrest, h⟩ := run_bind_eq_value h
    cases h
    obtain rfl := (place_looking s _).run_value hplace
    obtain ⟨hlength, hps⟩ := ih ht hrest
    refine ⟨congrArg Nat.succ hlength, fun q hq => ?_⟩
    rcases List.mem_cons.mp hq with rfl | hq
    · exact (itemHandle_of_run hplace).declared ht
    · exact hps q hq

end Looking

variable [Keeper κ σ] {R L : Ledger κ} {known : List (Pin κ)} {w w' : World κ σ} {s : Nat}

/-- What a run that gives a value comes to, if the action leaves a ledger. -/
theorem Act.Promises.run_value {m : Act κ σ α} {Q : α → World κ σ → Prop} (h : m.Promises Q w)
    {P : α → Ledger κ} (hm : m.Leaves L P L) (hw : Invariant (R + L) w) (ht : w.Orderly) {a : α}
    (hrun : m.run w = (.value a, w')) : w.Leads w' ∧ Q a w' ∧ Invariant (R + P a) w' := by
  obtain ⟨hlead, hQ⟩ := h.run hm hw ht
  have hw' := hm.run_value hw hrun
  rw [hrun] at hlead hQ
  exact ⟨hlead, hQ a rfl, hw'⟩

/-! ## Coming to the engine

What is known after the checks and the marshalling. -/

/-- A call hands over arguments of the kinds that its function declares. -/
theorem Func.Enters.typed {f : Handle} {args : List Val} {place : Nat} {given : List Guest.Value}
    (h : Func.Enters s f args w place given w') (hw : Invariant (R + L) w)
    (hs : .tenure s known none ∈ L) (hargs : ∀ v ∈ args, ∀ x ∈ v.shares, L.Has x) (ht : w.Orderly) :
    w.Leads w' ∧ ∃ type,
      (typeAt s place : Act κ σ Signature).run (w.drain s) = (.value type, w.drain s) ∧
      w'.HasFuncOf s place type ∧ List.Forall₂ (w'.Fits s) given type.params := by
  obtain ⟨type, packed, w₁, hplace, htype, hfit, hpack, hadopt⟩ := h
  have hdrain := (w.drain_aside s).leads ht
  have hfunc := Func.hasFuncOf_of_run ((funcHandle_of_run hplace).hasFunc hdrain.typed) htype
  have hw₀ := (hw.drain s).1
  -- The arguments are packed,
  obtain ⟨hlead₁, hpacked, hw₁⟩ :=
    (packAll_promises s args).run_value (packAll_leaves hargs) hw₀ hdrain.orderly hpack
  rw [kinds_of_checkParams hfit] at hpacked
  -- and the engine takes copies of them.
  have hsize := Nat.lt_of_lt_of_le hfunc.1 hlead₁.evolves.size
  have hs₁ : .tenure s known none ∈ Ledger.owns (Packed.sharesAll packed) + L :=
    Multiset.mem_add.mpr (.inr hs)
  obtain ⟨hlead₂, hgiven, -⟩ := (adoptAll_promises hsize hpacked).run_value
    (adoptAll_leaves hs₁ fun x hx => Ledger.has_owns_add hx _) hw₁ hlead₁.orderly hadopt
  exact ⟨(hdrain.trans hlead₁).trans hlead₂, type, htype, hfunc.lead (hlead₁.trans hlead₂), hgiven⟩

/-- A linked instance is there, and is started with a function that takes nothing. -/
theorem Instance.Enters.typed {module : Nat} {imports : List Item} {started : Guest.Started}
    (h : Instance.Enters s module imports w (.ok started) w') (hw : Invariant (R + L) w)
    (ht : w.Orderly) : w.Leads w' ∧ Instance.Startable w' s started ∧
      ∃ cell, (w.drain s).modules[module]? = some cell ∧
        Instance.Made w' s started.instance_ cell.compiled.code := by
  obtain ⟨cell, store, places, hmodule, hstore, hengine, hcount, hcheck, hplaces, hlink⟩ := h
  have hdrain := (w.drain_aside s).leads ht
  obtain ⟨hlength, hdeclared⟩ := Instance.declared_of_run hdrain.typed hplaces
  obtain ⟨hlead, hlinked, -⟩ := (Instance.link_promises cell.compiled.valid (hlength.trans hcount)
    hdeclared _).run_value (onGuest_leaves fun g => Guest.instantiate_extends g _ _ places)
    (hw.drain s).1 hdrain.orderly hlink
  obtain ⟨hmade, hstart⟩ := hlinked started rfl
  exact ⟨hdrain.trans hlead, hstart, cell, hmodule, hmade⟩

/-! ## Calling out

One round first, and then all of them. -/

/-- A thread that calls a host function gives it arguments of the kinds that it declares. -/
theorem CallsNext.typed {default caller : Option Nat} {start : Guest.Store → Guest.Progress}
    {key : Nat} {args : List Guest.Value} {thread : List Guest.Activation} {final : List Kind}
    (h : CallsNext s default start w key caller args thread w')
    (hw : Invariant (R + .tenure s known none ::ₘ L) w)
    (hamong : ∀ g : Guest.Store, (start g).Among g.shape) (ht : w.Orderly)
    (hstart : w.Starts s start final) :
    w.Leads w' ∧ ∃ type instance_, w'.Admits s final (.called key type args instance_ thread) := by
  obtain ⟨now, g, g', type, instance_, -, hg, hevent, -, rfl⟩ := h
  have hmeets : Act.Meets _ (.tenure s known none ::ₘ L) (Ledger.Learned s known L) L :=
    advance_meets (σ := σ) hamong now workBound
  have hrun := run_advance (σ := σ) start hg (congrArg Prod.snd hevent)
  obtain ⟨N, hw₁, -⟩ := Safe.run hmeets hw
  obtain ⟨hlead, hadmits⟩ := (advance_promises hstart now workBound).run hmeets hw ht
  rw [hrun, hevent] at hw₁ hlead hadmits
  -- The frames that are active are set aside.
  have hactive := run_onGuest (σ := σ) (World.guest?_setGuest hg g') fun g =>
    let active := activeFrames g thread
    (active, { g with exited := active, stackUsed := g.stackUsed + hostStackCost })
  obtain ⟨hlead', -, -⟩ := (setAside_steady s thread _).run_value (onGuest_leaves' fun g => rfl) hw₁
    hlead.orderly hactive
  exact ⟨hlead.trans hlead', type, instance_, (hadmits _ rfl).lead hlead'⟩

section Hosts

variable {host : Runner κ σ} (hfair : Fair host) (hsteady : Steady host) {place key : Nat}
  {default caller : Option Nat} {given args : List Guest.Value}

include hfair hsteady

/-- However many host functions a thread has called before, it calls the next one from a world where
it has just begun, or goes on with the results of the one before. By induction on the rounds. A
round gives results of the declared kinds (`callHost_promises`), and these are what the thread of
the next round is resumed with. -/
theorem CallsOut.exists_next {fuel : Nat} {start : Guest.Store → Guest.Progress} {final : List Kind}
    (h : CallsOut host s default key caller args w' fuel start w)
    (hw : Invariant (R + .tenure s known none ::ₘ L) w)
    (hamong : ∀ g : Guest.Store, (start g).Among g.shape) (ht : w.Orderly)
    (hstart : w.Starts s start final) :
    ∃ known start₁ w₁ thread, CallsNext s default start₁ w₁ key caller args thread w' ∧
      Invariant (R + .tenure s known none ::ₘ L) w₁ ∧ (∀ g : Guest.Store, (start₁ g).Among g.shape) ∧
      w.Leads w₁ ∧ w₁.Starts s start₁ final ∧
      (start₁ = start ∧ w₁ = w ∨ ∃ passing results, start₁ = resuming passing results) := by
  induction h with
  | next h => exact ⟨known, _, _, _, h, hw, hamong, .refl ht, hstart, .inl ⟨rfl, rfl⟩⟩
  | @later _ _ _ _ _ _ _ _ results thread h hcall _ ih =>
    obtain ⟨hlead, type, _, hkey, hargs, hthread, hrooted⟩ := h.typed hw hamong ht hstart
    obtain ⟨r, hr, -, hw₁⟩ := h.invariant hw hamong
    obtain ⟨N, hw₂, hN⟩ := Safe.run (callHost_meets hfair hr _ _) hw₁
    obtain ⟨hlead', hresults⟩ := (callHost_promises hsteady hkey hargs _).run
      (callHost_meets hfair hr _ _) hw₁ hlead.orderly
    rw [hcall] at hw₂ hN hlead' hresults
    obtain ⟨p, rfl, hp⟩ := hN rfl
    -- It gave results, so no payload is left with the store.
    obtain rfl : p = none := by
      by_contra hne
      cases hp hne
    obtain ⟨known, start₁, w₁, thread₁, hnext, hw₁, hamong₁, hlead₁, hstart₁, hbegun⟩ :=
      ih hw₂.forget (fun g => Guest.resume_among (g.setStack_shape _) _) hlead'.orderly
        (.resume (hthread.lead hlead' fun _ _ hg h => h.evolve hg)
          (fun a ha => (hrooted a ha).mono (hlead'.evolves.kept s)) (hresults _ rfl _ rfl) _)
    refine ⟨known, start₁, w₁, thread₁, hnext, hw₁, hamong₁, hlead.trans (hlead'.trans hlead₁),
      hstart₁, .inr ?_⟩
    rcases hbegun with ⟨rfl, -⟩ | hresumed
    · exact ⟨thread, results, rfl⟩
    · exact hresumed

/-- Whichever host function a thread comes to call is given arguments of the kinds that it declares. -/
theorem CallsOut.typed {fuel : Nat} {start : Guest.Store → Guest.Progress} {final : List Kind}
    (h : CallsOut host s default key caller args w' fuel start w)
    (hw : Invariant (R + .tenure s known none ::ₘ L) w)
    (hamong : ∀ g : Guest.Store, (start g).Among g.shape) (ht : w.Orderly)
    (hstart : w.Starts s start final) :
    w'.Orderly ∧ ∃ type, w'.Registered s key type ∧ List.Forall₂ (w'.Fits s) args type.params := by
  obtain ⟨known, start₁, w₁, thread, hnext, hw₁, hamong₁, hlead₁, hstart₁, -⟩ :=
    h.exists_next hfair hsteady hw hamong ht hstart
  obtain ⟨hlead, type, _, hkey, hargs, -⟩ := hnext.typed hw₁ hamong₁ hlead₁.orderly hstart₁
  exact ⟨hlead.orderly, type, hkey, hargs⟩

omit hfair hsteady in
/-- A call of a function begins in an orderly world, with what is known of the function and of its
arguments. -/
theorem PlaceCallsOut.starts {type : Signature}
    (h : PlaceCallsOut host s place default given key caller args w w')
    (hw : Invariant (R + .tenure s known none ::ₘ L) w) (ht : w.Orderly)
    (hplace : w.HasFuncOf s place type) (hgiven : List.Forall₂ (w.Fits s) given type.params) :
    ∃ now w₁, CallsOut host s default key caller args w' workBound
        (fun g => Guest.enter now none g [] place given) w₁ ∧ w.Leads w₁ ∧
      Invariant (R + .tenure s known none ::ₘ L) w₁ ∧
      w₁.Starts s (fun g => Guest.enter now none g [] place given) type.results := by
  obtain ⟨now, g, hg, -, hout⟩ := h
  have hbefore : (onGuest s fun g => (g, { g with suspended := g.exited :: g.suspended }) :
      Act κ σ Guest.Store).run w =
      (.value g, w.setGuest s { g with suspended := g.exited :: g.suspended }) := run_onGuest hg _
  have hw₁ := (onGuest_leaves' (L := .tenure s known none ::ₘ L) fun g => rfl).run_value hw hbefore
  have hlead : w.Leads (w.setGuest s { g with suspended := g.exited :: g.suspended }) :=
    World.setGuest_leads ht hg (.of_items (ht.guests s g hg) rfl rfl rfl rfl rfl)
      ((ht.rooted s g hg).of_items rfl rfl)
  exact ⟨now, _, hout, hlead, hw₁, .enter (hplace.lead hlead) (hgiven.imp fun _ _ h => h.lead hlead) now⟩

theorem PlaceCallsOut.typed {type : Signature}
    (h : PlaceCallsOut host s place default given key caller args w w')
    (hw : Invariant (R + .tenure s known none ::ₘ L) w) (ht : w.Orderly)
    (hplace : w.HasFuncOf s place type) (hgiven : List.Forall₂ (w.Fits s) given type.params) :
    w'.Orderly ∧ ∃ type, w'.Registered s key type ∧ List.Forall₂ (w'.Fits s) args type.params := by
  obtain ⟨now, w₁, hout, hlead, hw₁, hstart⟩ := h.starts hw ht hplace hgiven
  exact hout.typed hfair hsteady hw₁ (fun g => Guest.enter_among rfl place given) hlead.orderly hstart

end Hosts

/-- The closure of a host function is given values of the kinds that its type declares. -/
theorem Delivers.kinds {r : Registration κ} {key : Nat} {type : Signature} {args : List Guest.Value}
    {params : List Val} (h : Delivers r key args w params w')
    (hs : .tenure r.store ((key, r) :: known) none ∈ L) (hw : Invariant (R + L) w) (ht : w.Orderly)
    (hkey : w.Registered r.store key type) (hargs : List.Forall₂ (w.Fits r.store) args type.params) :
    params.map Val.kind = r.type.params := by
  obtain ⟨packed, w₀, hexpose, hunpack⟩ := h
  obtain ⟨hfound, hlookup⟩ := lookup_known hs hw hexpose
  obtain ⟨hlead, hpacked, -⟩ :=
    (exposeAll_promises hargs).run_value (exposeAll_leaves _ args) hw ht hexpose
  have hpacked := hpacked packed rfl
  have hkey := hkey.lead hlead
  have hlead' := hkey.lookup_leads hlead.orderly (Packed.map_kind hpacked) ⟨_, hlookup⟩
  -- The closure has the type of the host function.
  rw [hkey.type_eq hfound ⟨_, hlookup⟩]
  have hs₀ : .tenure r.store ((key, r) :: known) none ∈
      Ledger.owns (Packed.sharesAll packed) + L := Multiset.mem_add.mpr (.inr hs)
  exact ((unpackAll_promises (hpacked.imp fun _ _ h => h.lead hlead')).run_value
    (unpackAll_leaves (Ledger.has_of_tenure hs₀) fun x hx => Ledger.has_owns_add hx L) hlookup
    hlead'.orderly hunpack).2.1

end WasmHost.Host
