import WasmHost.Proofs.Promises

/-!
# Closures in orderly worlds

Values keep their kinds on the way between host and guest, and functions that they refer to are there, as
are the copies of origins that a store takes.
The closure that is found for a host function has the type of the function, so it is given values of
its parameters' kinds; and what it gives is checked before the guest sees it.

Here typing meets the marshalling of values, and the point is that it needs no checks. A value of
the guest is of the kind that its place on the stack has in the typing of the thread; packing it and
unpacking it does not change its kind; so a closure may rely on what it was promised, and no
conversion can meet a value that it has no case for. In the other direction there is no such reason.
What a closure gives is up to the embedder, so it is checked, and guest code goes on only with
values that have passed.

`World.Fits` is what a value of the guest must satisfy in order to be put anywhere in a store: its
kind, that a function it refers to exists, and that the store holds the object it refers to. The
last of these is why it is about a *world* and not about a store of guest code alone.

A closure is found under a key, and the type of the closure is not looked at when it is called. That
it is the type of the function is an invariant: it was registered with this type, the function was
made with it, and the key was not used for another closure since (`World.Registered.type_eq`).
-/

namespace WasmHost.Host

open Act

variable {κ σ α β : Type}

/-! ## Values of kinds -/

/-- A function of a store is there. -/
def World.HasFunc (w : World κ σ) (s i : Nat) : Prop := w.In s fun g => i < g.funcs.size

/-- A packed value is of a kind, and leads to a function of its store if it refers to one. -/
structure Packed.Fits (w : World κ σ) {t : Nat} (p : Packed t) (k : Kind) : Prop where
  kind : p.kind = k
  leads : ∀ i, p = .funcref (some i) → w.HasFunc t i

/-- A value of the guest is of a kind, leads to a function of its store if it refers to one, and to a
host object that the store holds a copy of. -/
structure World.Fits (w : World κ σ) (s : Nat) (v : Guest.Value) (k : Kind) : Prop where
  kind : v.kind = k
  leads : ∀ i, v = .ref (.func (some i)) → w.HasFunc s i
  rooted : v.Rooted (w.Keeps s)

/-- A host function of a store, of a certain type, was made for a key. -/
def World.Registered (w : World κ σ) (s key : Nat) (type : Signature) : Prop :=
  ∃ f ∈ w.chronicle.functions, f.store = s ∧ f.key = key ∧ f.closure.type = type

section Kinds

variable {w w' : World κ σ} {s i : Nat}

theorem World.HasFunc.lead (h : w.HasFunc s i) (hw : w.Leads w') : w'.HasFunc s i :=
  World.In.lead h hw fun _ _ hg hi => Nat.lt_of_lt_of_le hi hg.evolves.size_funcs

theorem Packed.Fits.lead {t : Nat} {p : Packed t} {k : Kind} (h : p.Fits w k) (hw : w.Leads w') :
    p.Fits w' k := ⟨h.kind, fun i hi => (h.leads i hi).lead hw⟩

theorem World.Fits.lead {v : Guest.Value} {k : Kind} (h : w.Fits s v k) (hw : w.Leads w') :
    w'.Fits s v k :=
  ⟨h.kind, fun i hi => (h.leads i hi).lead hw, h.rooted.mono (hw.evolves.kept s)⟩

theorem World.Registered.lead {key : Nat} {type : Signature} (h : w.Registered s key type)
    (hw : w.Leads w') : w'.Registered s key type :=
  h.imp fun f hf => ⟨hw.evolves.functions f hf.1, hf.2⟩

theorem Guest.Value.within_iff {n : Nat} {v : Guest.Value} :
    v.Within n ↔ ∀ i, v = .ref (.func (some i)) → i < n := by
  unfold Guest.Value.Within
  split
  · simp
  · rename_i h
    exact ⟨fun _ i hi => absurd hi (h i), fun _ => trivial⟩

theorem World.Fits.of_guest? {g : Guest.Store} (hg : w.guest? s = some g) {v : Guest.Value}
    {k : Kind} (h : v.Fits g.funcs.size k) (hr : v.Rooted (w.Keeps s)) : w.Fits s v k :=
  ⟨h.kind, fun i hi => .of_guest? hg (Guest.Value.within_iff.mp h.within i hi), hr⟩

theorem World.Fits.value {g : Guest.Store} (hg : w.guest? s = some g) {v : Guest.Value} {k : Kind}
    (h : w.Fits s v k) : v.Fits g.funcs.size k :=
  ⟨h.kind, Guest.Value.within_iff.mpr fun i hi => (h.leads i hi).2 g hg⟩

/-- A host function is in a store. -/
theorem World.Registered.lt_size {key : Nat} {type : Signature} (h : w.Registered s key type)
    (ht : w.Typed) : s < w.stores.size := by
  obtain ⟨f, hf, rfl, -, -⟩ := h
  exact (ht.functions f hf).1

/-- A store keeps what it comes to hold. -/
theorem World.keeps_hold (hs : s < w.stores.size) (o : Nat) : (w.hold s o).Keeps s o := by
  refine ⟨hs.trans_eq Array.size_modify.symm, fun c' hc' _ => ?_⟩
  have hc' : (w.stores.modify s fun c => { c with held := c.held ++ [o] })[s]? = some c' := hc'
  rw [Array.getElem?_modify, if_pos rfl] at hc'
  obtain ⟨c, -, rfl⟩ := Option.map_eq_some_iff.mp hc'
  exact List.mem_append_right _ (List.mem_singleton_self o)

end Kinds

variable [Keeper κ σ] {w w' : World κ σ} {s t : Nat}

/-! ## Looking at the guest part of a store -/

theorem guest_promises {Q : Guest.Store → World κ σ → Prop}
    (h : ∀ w' g, w.Leads w' → w'.guest? s = some g → ∀ w'', w'.Leads w'' → Q g w'') :
    (guest s : Act κ σ Guest.Store).Promises Q w := by
  refine .bind (.world (Q := fun v w' => ∀ g, v.guest? s = some g → Q g w')
    fun w' hw' w'' hw'' g hg => h w' g hw' hg w'' hw'') fun v _ _ hQ => ?_
  exact .orAbort fun g hg w'' hw'' => hQ w'' hw'' g hg

theorem guest_steady (s : Nat) : (guest s : Act κ σ Guest.Store).Steady :=
  .bind .world fun _ => .orAbort

theorem epoch_steady (s : Nat) : (epoch s : Act κ σ Nat).Steady := .bind .world fun _ => .pure

/-- The guest part of a store is changed. -/
theorem onGuest_promises {f : Guest.Store → α × Guest.Store} {Q : α → World κ σ → Prop}
    (h : ∀ w' g, w.Leads w' → w'.guest? s = some g →
      (g.Leads (f g).2 ∧ (f g).2.Rooted (w'.Keeps s)) ∧
      ((w'.setGuest s (f g).2).Regular → ∀ w'', (w'.setGuest s (f g).2).Leads w'' →
        Q (f g).1 w'')) :
    (onGuest s f : Act κ σ α).Promises Q w := by
  refine .bind (.make (Q := fun o w' => ∀ a, o = some a → Q a w') fun w' hw' _ hr => ?_)
    fun o w' _ hQ => .orAbort fun a ha w'' hw'' => hQ w'' hw'' a ha
  unfold World.onGuest at hr ⊢
  split
  · exact ⟨.refl hw'.orderly, fun _ _ _ h => by cases h⟩
  · rename_i g hg
    obtain ⟨⟨hlead, hrooted⟩, hQ⟩ := h w' g hw' hg
    rw [hg] at hr
    refine ⟨World.setGuest_leads hw'.orderly hg hlead hrooted, fun w'' hw'' a ha => ?_⟩
    cases ha
    exact hQ hr w'' hw''

theorem onGuest_steady {f : Guest.Store → α × Guest.Store}
    (h : ∀ g : Guest.Store, g.Typed → g.Leads (f g).2)
    (hr : ∀ (g : Guest.Store) (held : Nat → Prop), g.Rooted held → (f g).2.Rooted held) :
    (onGuest s f : Act κ σ α).Steady :=
  fun _ => onGuest_promises fun _ g hw' hg => ⟨⟨h g (hw'.typed.guests s g hg),
    hr g _ (hw'.orderly.rooted s g hg)⟩, fun _ _ _ => trivial⟩

/-! ## Handles -/

theorem check_promises (s : Nat) (h : Handle) :
    (check s h : Act κ σ HandleCell).Promises (fun c w' => c.target.Declared w') w := by
  have hcell : ∀ w : World κ σ,
      (cell h : Act κ σ HandleCell).Promises (fun c w' => c.target.Declared w') w := fun w =>
    .bind (.world (Q := fun v w' => ∀ c, v.heap.get? h = some c → c.target.Declared w')
      fun w' hw' w'' hw'' c hc => (hw'.typed.targets h c hc).evolve hw''.evolves)
      fun v _ _ hQ => by
        split
        · rename_i c hc
          split
          · exact .abort
          · exact .pure fun w'' hw'' => hQ w'' hw'' c hc
        · exact .abort
  refine .bind (hcell w) fun c w' _ hQ => ?_
  split
  · exact .pure hQ
  · exact .panic

theorem check_steady (s : Nat) (h : Handle) : (check s h : Act κ σ HandleCell).Steady :=
  fun _ => (check_promises s h).mono fun _ _ _ _ => trivial

theorem hand_steady (s t : Nat) : (hand s t : Act κ σ Unit).Steady := by
  unfold hand
  split
  · exact .pure
  · exact .abort

/-- What is handed over belongs to the store. -/
theorem hand_promises (s t : Nat) : (hand s t : Act κ σ Unit).Promises (fun _ _ => t = s) w := by
  unfold hand
  split
  · rename_i h
    exact .pure fun _ _ => h
  · exact .abort

theorem place_promises (s : Nat) (h : Handle) : (place s h : Act κ σ Guest.Place).Promises
    (fun p w' => w'.In s fun g => (g.declaredType? p).isSome) w := by
  refine .bind (check_promises s h) fun c w' _ hc => ?_
  split
  · rename_i t p htarget
    refine .bind (hand_promises s t) fun _ w₁ hw₁ ht => .pure fun w₂ hw₂ => ?_
    obtain rfl := ht w₁ (.refl hw₁.orderly)
    have hdeclared := hc w₂ (hw₁.trans hw₂)
    rwa [htarget] at hdeclared
  · exact .abort

theorem place_steady (s : Nat) (h : Handle) : (place s h : Act κ σ Guest.Place).Steady :=
  fun _ => (place_promises s h).mono fun _ _ _ _ => trivial

theorem funcPlace_promises (s : Nat) (h : Handle) :
    (funcPlace s h : Act κ σ Nat).Promises (fun i w' => w'.HasFunc s i) w := by
  refine .bind (place_promises s h) fun p w' _ hp => ?_
  split
  · refine .pure fun w'' hw'' => ⟨(hp w'' hw'').1, fun g hg => ?_⟩
    simpa [Guest.Store.declaredType?] using (hp w'' hw'').2 g hg
  · exact .abort

/-! ## Packing and unpacking

Each conversion promises that kinds stay. The lists are in order, by induction. -/

theorem pack_promises (s : Nat) (v : Val) :
    (pack s v : Act κ σ (Packed s)).Promises (fun p w' => p.Fits w' v.kind) w := by
  have hplain : ∀ {p : Packed s}, p.kind = v.kind → (∀ i, p ≠ .funcref (some i)) →
      (Pure.pure p : Act κ σ (Packed s)).Promises (fun p w' => p.Fits w' v.kind) w :=
    fun hkind hne => .pure fun _ _ => ⟨hkind, fun i hi => absurd hi (hne i)⟩
  cases v with
  | funcref o =>
    cases o with
    | none => exact hplain rfl fun _ h => by cases h
    | some h =>
      refine .bind (funcPlace_promises s h) fun i w' _ hi => .pure fun w'' hw'' => ⟨rfl, fun j hj => ?_⟩
      cases hj
      exact hi w'' hw''
  | externref o =>
    cases o with
    | none => exact hplain rfl fun _ h => by cases h
    | some o =>
      have hsteady : (Act.make (·.newOrigin o) : Act κ σ Nat).Steady :=
        .makeAside fun w => .of_eq rfl rfl rfl rfl
      exact hsteady.first fun g w' _ => .pure fun _ _ => ⟨rfl, fun _ h => by cases h⟩
  | _ => exact hplain rfl fun _ h => by cases h

theorem packAll_promises (s : Nat) (vs : List Val) : (packAll s vs : Act κ σ _).Promises
    (fun ps w' => List.Forall₂ (Packed.Fits w') ps (vs.map Val.kind)) w := by
  induction vs generalizing w with
  | nil => exact .pure fun _ _ => .nil
  | cons v vs ih =>
    refine .bind (pack_promises s v) fun p w' _ hp => ?_
    refine .bind ((releasePacked_steady p).promisesUnwind ih) fun ps w'' hw'' hps => ?_
    exact .pure fun w₁ hw₁ => .cons (hp w₁ (hw''.trans hw₁)) (hps w₁ hw₁)

/-- The engine's copy of a value is as the value, and a store that is there holds it. -/
theorem adopt_promises (hs : s < w.stores.size) {p : Packed t} {k : Kind} (hp : p.Fits w k) :
    (adopt s p : Act κ σ Guest.Value).Promises (fun v w' => w'.Fits s v k) w := by
  have hplain : ∀ {v : Guest.Value}, v.kind = p.kind → (∀ i, v ≠ .ref (.func (some i))) →
      (∀ held, v.Rooted held) →
      (Pure.pure v : Act κ σ Guest.Value).Promises (fun v w' => w'.Fits s v k) w :=
    fun hkind hne hr => .pure fun _ _ =>
      ⟨hkind.trans hp.kind, fun i hi => absurd hi (hne i), hr _⟩
  cases p with
  | funcref o =>
    cases o with
    | none => exact hplain rfl (fun _ h => by cases h) fun _ => trivial
    | some i =>
      refine .bind (hand_promises s t) fun _ w' hw' ht => .pure fun w'' hw'' => ?_
      obtain rfl := ht w' (.refl hw'.orderly)
      refine ⟨hp.kind, fun j hj => ?_, trivial⟩
      cases hj
      exact (hp.leads i rfl).lead (hw'.trans hw'')
  | externref o =>
    cases o with
    | none => exact hplain rfl (fun _ h => by cases h) fun _ => trivial
    | some g =>
      have hhold : (Act.update (·.hold s g) : Act κ σ Unit).Promises (fun _ w' => w'.Keeps s g) w :=
        .makeAside (fun w => w.hold_aside s g) fun w' hw' w'' hw'' => hw''.evolves.kept s g
          (World.keeps_hold (Nat.lt_of_lt_of_le hs hw'.evolves.size) g)
      exact .bind hhold fun _ w' _ hkeeps => .pure fun w'' hw'' =>
        ⟨hp.kind, (fun _ h => by cases h), hkeeps w'' hw''⟩
  | _ => exact hplain rfl (fun _ h => by cases h) fun _ => trivial

theorem adoptAll_promises (hs : s < w.stores.size) {ps : List (Packed t)} {ks : List Kind}
    (hps : List.Forall₂ (Packed.Fits w) ps ks) : (adoptAll s ps : Act κ σ _).Promises
    (fun vs w' => List.Forall₂ (w'.Fits s) vs ks) w := by
  induction ps generalizing w ks with
  | nil =>
    cases hps
    exact .pure fun _ _ => .nil
  | cons p ps ih =>
    obtain ⟨k, ks, hp, hrest, rfl⟩ := List.forall₂_cons_left_iff.mp hps
    refine .bind (adopt_promises hs hp) fun v w' hw' hv => ?_
    have hs' := Nat.lt_of_lt_of_le hs hw'.evolves.size
    refine .bind (ih hs' (hrest.imp fun _ _ h => h.lead hw')) fun vs w'' hw'' hvs => ?_
    exact .pure fun w₁ hw₁ => .cons (hv w₁ (hw''.trans hw₁)) (hvs w₁ hw₁)

/-- A packed copy of a value is as the value. -/
theorem expose_promises {v : Guest.Value} {k : Kind} (hv : w.Fits s v k) :
    (expose s v : Act κ σ _).Promises (fun res w' => ∀ p, res = .ok p → p.Fits w' k) w := by
  have hplain : ∀ {p : Packed s}, p.kind = v.kind → (∀ i, p ≠ .funcref (some i)) →
      (Pure.pure (.ok p) : Act κ σ (Except EngineFault (Packed s))).Promises
        (fun res w' => ∀ p, res = .ok p → p.Fits w' k) w := fun hkind hne => .pure fun _ _ p hp => by
    cases hp
    exact ⟨hkind.trans hv.kind, fun i hi => absurd hi (hne i)⟩
  cases v with
  | v128 x => exact .pure fun _ _ _ h => by cases h
  | ref r =>
    cases r with
    | func o =>
      refine .pure fun w' hw' p hp => ?_
      cases hp
      refine ⟨hv.kind, fun i hi => ?_⟩
      cases hi
      exact (hv.leads i rfl).lead hw'
    | object o =>
      cases o with
      | none => exact hplain rfl fun _ h => by cases h
      | some g =>
        have hsteady : (Act.make (·.copyHeld s g) : Act κ σ Bool).Steady :=
          .makeAside fun w => w.copyHeld_aside s g
        refine hsteady.first fun found w' _ => ?_
        split
        · refine .pure fun _ _ p hp => ?_
          cases hp
          exact ⟨hv.kind, fun _ h => by cases h⟩
        · exact .abort
  | _ => exact hplain rfl fun _ h => by cases h

theorem exposeAll_promises {vs : List Guest.Value} {ks : List Kind}
    (hvs : List.Forall₂ (w.Fits s) vs ks) : (exposeAll s vs : Act κ σ _).Promises
    (fun res w' => ∀ ps, res = .ok ps → List.Forall₂ (Packed.Fits w') ps ks) w := by
  induction vs generalizing w ks with
  | nil =>
    cases hvs
    refine .pure fun _ _ ps hps => ?_
    cases hps
    exact .nil
  | cons v vs ih =>
    obtain ⟨k, ks, hv, hrest, rfl⟩ := List.forall₂_cons_left_iff.mp hvs
    refine .bind (expose_promises hv) fun res w' hw' hp => ?_
    cases res with
    | error e => exact .pure fun _ _ _ h => by cases h
    | ok p =>
      refine .bind (ih (hrest.imp fun _ _ h => h.lead hw')) fun res w'' hw'' hps => ?_
      cases res with
      | error e =>
        exact (releasePacked_steady p).first fun _ _ _ => .pure fun _ _ _ h => by cases h
      | ok ps =>
        refine .pure fun w₁ hw₁ qs hqs => ?_
        cases hqs
        exact .cons (hp w₁ (hw''.trans hw₁) p rfl) (hps w₁ hw₁ ps rfl)

theorem unpack_promises {p : Packed t} {k : Kind} (hp : p.Fits w k) :
    (unpack s p : Act κ σ Val).Promises (fun v _ => v.kind = k) w := by
  cases p with
  | funcref o =>
    cases o with
    | none => exact .pure fun _ _ => hp.kind
    | some i =>
      refine .bind (.make (Q := fun _ _ => True) fun w' hw' _ _ => ⟨?_, fun _ _ => trivial⟩)
        fun _ _ _ _ => .pure fun _ _ => hp.kind
      refine World.newHandle_leads hw'.orderly s ?_
      obtain ⟨hsize, hi⟩ := (hp.leads i rfl).lead hw'
      exact ⟨hsize, fun g hg => by simpa [Guest.Store.declaredType?] using hi g hg⟩
  | externref o =>
    cases o with
    | none => exact .pure fun _ _ => hp.kind
    | some g =>
      have hsteady : (Act.make (·.retainObjectOf g) : Act κ σ (Option ObjectId)).Steady :=
        .makeAside fun w => w.retainObjectOf_aside g
      exact hsteady.first fun _ _ _ => .pure fun _ _ => hp.kind
  | _ => exact .pure fun _ _ => hp.kind

theorem unpackAll_promises {ps : List (Packed t)} {ks : List Kind}
    (hps : List.Forall₂ (Packed.Fits w) ps ks) :
    (unpackAll s ps : Act κ σ _).Promises (fun vs _ => vs.map Val.kind = ks) w := by
  induction ps generalizing w ks with
  | nil =>
    cases hps
    exact .pure fun _ _ => rfl
  | cons p ps ih =>
    obtain ⟨k, ks, hp, hrest, rfl⟩ := List.forall₂_cons_left_iff.mp hps
    refine .bind (unpack_promises hp) fun v w' hw' hv => ?_
    refine .bind (ih (hrest.imp fun _ _ h => h.lead hw')) fun vs w'' hw'' hvs => ?_
    exact .pure fun w₁ hw₁ => congrArg₂ List.cons (hv w'' hw'') (hvs w₁ hw₁)

/-! ## Checks at the boundary -/

theorem kinds_of_checkKindsFrom {ks : List Kind} {vs : List Val} {index : Nat}
    (hlength : vs.length = ks.length) (h : checkKindsFrom index ks vs = none) :
    vs.map Val.kind = ks := by
  induction vs generalizing ks index with
  | nil =>
    cases ks with
    | nil => rfl
    | cons k ks => cases hlength
  | cons v vs ih =>
    cases ks with
    | nil => cases hlength
    | cons k ks =>
      simp only [checkKindsFrom] at h
      split at h
      · rename_i hv
        exact congrArg₂ List.cons hv (ih (Nat.succ.inj hlength) h)
      · cases h

theorem kinds_of_checkParams {type : Signature} {args : List Val}
    (h : checkParams type args = .ok ()) : args.map Val.kind = type.params := by
  unfold checkParams at h
  split at h
  · cases h
  · rename_i hlength
    split at h
    · cases h
    · rename_i hnone
      exact kinds_of_checkKindsFrom (not_not.mp hlength) hnone

theorem kinds_of_checkResults {type : Signature} {values : List Val}
    (h : checkResults type values = none) : values.map Val.kind = type.results := by
  unfold checkResults at h
  split at h
  · cases h
  · rename_i hlength
    exact kinds_of_checkKindsFrom (not_not.mp hlength) (Option.map_eq_none_iff.mp h)

/-! ## Calling closures

What a closure itself does is not looked at here. It is assumed to be steady, as its contract in
`Calls` is assumed. -/

/-- Whatever the closures of a host do on behalf of a store, every step leads from an orderly world to
an orderly world. -/
def Steady (host : Runner κ σ) : Prop :=
  ∀ code captures (caller : Caller) args (w : World κ σ), caller.store < w.stores.size →
    (host code captures caller args).Promises (fun _ _ => True) w

/-- The closure that a store calls belongs to the store. -/
theorem World.store_of_lookup {key : Nat} {kinds : List Kind} {r : Registration κ}
    (hr : w.registry.get? key = some r) (hw : (w.lookup s key kinds).2.Regular) : r.store = s := by
  obtain ⟨L, hL⟩ := hw
  exact hL.sound.blameless.callers _ (List.mem_cons_self ..) r hr

/-- The closure of a host function has the type of the function. -/
theorem World.Registered.type_eq {key : Nat} {type : Signature} {kinds : List Kind}
    {r : Registration κ} (h : w.Registered s key type) (hr : w.registry.get? key = some r)
    (hw : (w.lookup s key kinds).2.Regular) : r.type = type := by
  obtain ⟨f, hf, rfl, rfl, rfl⟩ := h
  obtain ⟨L, hL⟩ := hw
  -- The call is on record, so its closure is that of a host function of the store, under the key.
  obtain ⟨f', hf', hstore, hkey, hclosure⟩ := hL.sound.blameless.calls _ (List.mem_cons_self ..)
  have hsame : f' = f :=
    List.inj_on_of_nodup_map hL.sound.hosted.made hf' hf (Prod.ext hstore hkey)
  have hfound : some r = some f'.closure := hr.symm.trans hclosure
  rw [Option.some.inj hfound, hsame]

omit [Keeper κ σ] in
/-- A closure that is on record for a function declares what the function declares. -/
theorem World.Typed.closure_type {g : Guest.Store} {place key : Nat} {type : Signature}
    {r : Registration κ} (ht : w.Typed) (hmem : ⟨s, place, key, r⟩ ∈ w.chronicle.functions)
    (hg : w.guest? s = some g) (hf : g.funcs[place]? = some (.host key type)) : r.type = type := by
  have hplace := (ht.functions _ hmem).2 g hg
  have heq : some (Guest.Func.host key type) = some (.host key r.type) := hf.symm.trans hplace
  cases heq
  rfl

/-- A host function in the guest part of a store was made for its key. -/
theorem World.registered_of_guest? {g : Guest.Store} {place key : Nat} {type : Signature}
    (ht : w.Typed) (hw : w.Regular) (hg : w.guest? s = some g)
    (hf : g.funcs[place]? = some (.host key type)) : w.Registered s key type := by
  obtain ⟨L, hL⟩ := hw
  obtain ⟨r, hmem, -, -⟩ := hL.sound.hosted.bound s g place key type hg hf
  obtain rfl := ht.closure_type hmem hg hf
  exact ⟨_, hmem, rfl, rfl, rfl⟩

/-- The closure of a host function is looked up, to be given values of the kinds that it declares. -/
theorem World.Registered.lookup_leads {key : Nat} {type : Signature} {kinds : List Kind}
    (h : w.Registered s key type) (hw : w.Orderly) (hkinds : kinds = type.params)
    (hregular : (w.lookup s key kinds).2.Regular) : w.Leads (w.lookup s key kinds).2 := by
  refine .of_evolves hw ⟨Nat.le_refl _, fun _ _ g hg => ⟨g, hg, .refl g⟩, fun _ hf => hf,
    fun _ _ ho => ho⟩ (fun t g hg => ⟨hw.guests t g hg, hw.rooted t g hg⟩)
    (fun _ c hc => .inl ⟨c, hc, rfl⟩) (fun _ hf => .inl hf) fun p hp => ?_
  rcases List.mem_append.mp hp with hp | hp
  · obtain ⟨r, hr, rfl⟩ := List.mem_map.mp hp
    rw [h.type_eq (Option.mem_toList.mp hr) hregular]
    exact .inr hkinds
  · exact .inl hp

omit [Keeper κ σ] in
/-- Packed values that fit are of the kinds. -/
theorem Packed.map_kind {ps : List (Packed t)} {ks : List Kind}
    (h : List.Forall₂ (Packed.Fits w) ps ks) : ps.map Packed.kind = ks :=
  List.forall₂_eq_eq_eq ▸ List.forall₂_map_left_iff.mpr (h.imp fun _ _ h => h.kind)

section Closures

variable {host : Runner κ σ} (hhost : Steady host)

include hhost

/-- Results are packed only if they are of the kinds that the closure's type declares. -/
theorem runClosure_promises (r : Registration κ) (hr : r.store < w.stores.size)
    (instance_ : Option Nat) {args : List (Packed t)} {ks : List Kind} (hargs : List.Forall₂ (Packed.Fits w) args ks) :
    (runClosure host r instance_ args).Promises
      (fun res w' => ∀ ps, res = .ok ps → List.Forall₂ (Packed.Fits w') ps r.type.results) w := by
  refine .bind (unpackAll_promises hargs) fun params w' hw' _ => ?_
  have hstore := Nat.lt_of_lt_of_le hr hw'.evolves.size
  refine (releaseVals_steady params).promisesEnsuring
    (.bind (hhost _ _ ⟨r.store, instance_⟩ _ w' hstore) fun res w' _ _ => ?_)
  cases res with
  | error trap => exact .pure fun _ _ _ h => by cases h
  | ok values =>
    refine (releaseVals_steady values).promisesEnsuring ?_
    split
    · exact .pure fun _ _ _ h => by cases h
    · rename_i hnone
      refine .bind (packAll_promises _ values) fun ps w'' _ hps => .pure fun w₁ hw₁ qs hqs => ?_
      cases hqs
      exact kinds_of_checkResults hnone ▸ hps w₁ hw₁

/-- A host function that is called with arguments of its parameters' kinds gives results of its
results' kinds. -/
theorem callHost_promises {key : Nat} {type : Signature} {args : List Guest.Value}
    (hkey : w.Registered s key type) (hargs : List.Forall₂ (w.Fits s) args type.params)
    (instance_ : Option Nat) : (callHost host s key instance_ args).Promises
      (fun res w' => ∀ vs, res = .ok vs → List.Forall₂ (w'.Fits s) vs type.results) w := by
  refine .bind (exposeAll_promises hargs) fun res w₁ hw₁ hres => ?_
  cases res with
  | error fault => exact .pure fun _ _ _ h => by cases h
  | ok packed =>
    have hpacked := hres w₁ (.refl hw₁.orderly) packed rfl
    refine (releasePackedAll_steady packed).promisesEnsuring ?_
    -- The closure that is found has the type of the host function.
    refine .bind (.make (Q := fun o w' => s < w'.stores.size ∧
      ∀ r, o = some r → r.store = s ∧ r.type = type) fun w₂ hw₂ _ hregular => ?_)
      fun o w₂ hw₂ hfound => ?_
    · have hkey := (hkey.lead hw₁).lead hw₂
      have hs := hkey.lt_size hw₂.typed
      exact ⟨hkey.lookup_leads hw₂.orderly (Packed.map_kind hpacked) hregular, fun w₃ hw₃ =>
        ⟨Nat.lt_of_lt_of_le hs hw₃.evolves.size, fun r hr =>
          ⟨World.store_of_lookup hr hregular, hkey.type_eq hr hregular⟩⟩⟩
    · cases o with
      | none => exact .abort
      | some r =>
        obtain ⟨hs, hr⟩ := hfound w₂ (.refl hw₂.orderly)
        obtain ⟨hstore, rfl⟩ := hr r rfl
        have hcaught : (catchPanic (runClosure host r instance_ packed)).Promises (fun res w' =>
            ∀ ps, res = .ok (.ok ps) → List.Forall₂ (Packed.Fits w') ps r.type.results) w₂ := by
          refine (runClosure_promises hhost r (hstore ▸ hs) instance_
            (hpacked.imp fun _ _ h => h.lead hw₂)).after (fun res w' _ hres => ?_)
            fun o w' _ ho => ?_
          · refine .pure fun w'' hw'' ps hps => ?_
            cases hps
            exact hres w'' hw'' ps rfl
          · cases o with
            | value a => exact absurd rfl (ho a)
            | panic p => exact .pure fun _ _ _ h => by cases h
            | _ => exact fun _ h => by cases h
        refine .bind hcaught fun res w₃ hw₃ hres => ?_
        obtain payload | message | results := res
        · exact (Act.Steady.updateAside fun w => w.stashPanic_aside _ payload).first fun _ _ _ =>
            .pure fun _ _ _ h => by cases h
        · exact .pure fun _ _ _ h => by cases h
        · refine (releasePackedAll_steady results).promisesEnsuring ?_
          have hs' := Nat.lt_of_lt_of_le hs hw₃.evolves.size
          refine .bind (adoptAll_promises hs' (hres w₃ (.refl hw₃.orderly) results rfl))
            fun vs w₄ _ hvs => .pure fun w₅ hw₅ us hus => ?_
          cases hus
          exact hvs w₅ hw₅

end Closures

end WasmHost.Host
