import WasmHost.Host.Limits
import WasmHost.Host.Logging
import WasmHost.Proofs.TypedCalls

/-!
# Operations in orderly worlds

Every operation of the library leads, step by step, from orderly worlds to orderly worlds: what is put
into a global or a table is of the declared kind, instances are made of modules that were checked, and
handles are allocated for what is there.

One lemma for each operation. Most are steady because all they do stands aside or only looks, and
the proofs follow the text of the operation with the rules of `Promises`. What is left is where
something is *put* somewhere: for these, the checks of the operation are needed. A value is put into
a global after its kind has been compared with the global's; that it is still the right global when
the value is put there, although others may have run in between, follows because items keep their
types. So `Found` says of an item that was found what remains true of it.

The types of functions cross the boundary as bytes. The closure is registered under the type that
the host has, the function is made with the type that the engine has read, and if the two were not
the same the function would be given arguments that the closure does not expect. The first section
shows that they are.
-/

namespace WasmHost.Host

/-! ## Function types on the wire

The engine may refuse what it reads, and then there is no function; what it does not refuse, both
sides read alike. -/

namespace Wire

/-- The host reads a function type as it was written, by either side. -/
theorem RawSignature.shown_write {byte : Kind → Nat} (h : ∀ k, shownKind (byte k) = k)
    (type : Signature) : (RawSignature.write byte type).shown = type := by
  have hkinds : ∀ ks : List Kind, (ks.map byte).map shownKind = ks := fun ks => by
    simp [Function.comp_def, h]
  simp [RawSignature.write, RawSignature.shown, hkinds]

theorem shown_ofSignature (type : Signature) : (ofSignature type).shown = type :=
  RawSignature.shown_write (fun k => by cases k <;> rfl) type

theorem shown_toldSignature (type : Signature) : (toldSignature type).shown = type :=
  RawSignature.shown_write shownKind_toldKind type

/-- The sides agree about every byte that the engine does not refuse. -/
theorem shownKind_of_readKind {b : Nat} {k : Kind} (h : readKind b = .ok k) : shownKind b = k := by
  unfold readKind at h
  split at h <;> cases h <;> rfl

theorem map_shownKind_of_mapM {bs : List Nat} {ks : List Kind} (h : bs.mapM readKind = .ok ks) :
    bs.map shownKind = ks := by
  induction bs generalizing ks with
  | nil =>
    cases h
    rfl
  | cons b bs ih =>
    rw [List.mapM_cons] at h
    cases hb : readKind b with
    | error e =>
      rw [hb] at h
      cases h
    | ok k =>
      cases hbs : bs.mapM readKind with
      | error e =>
        rw [hb, hbs] at h
        cases h
      | ok ks' =>
        rw [hb, hbs] at h
        cases h
        exact congrArg₂ List.cons (shownKind_of_readKind hb) (ih hbs)

/-- A function type that can be read is shown as it is read. -/
theorem RawSignature.shown_of_read {raw : RawSignature} {type : Signature}
    (h : raw.read = .ok type) : raw.shown = type := by
  unfold RawSignature.read at h
  cases hparams : raw.params.mapM readKind with
  | error e =>
    rw [hparams] at h
    cases h
  | ok params =>
    cases hresults : raw.results.mapM readKind with
    | error e =>
      rw [hparams, hresults] at h
      cases h
    | ok results =>
      rw [hparams, hresults] at h
      cases h
      simp [RawSignature.shown, map_shownKind_of_mapM hparams, map_shownKind_of_mapM hresults]

end Wire

open Act

variable {κ σ α : Type} [Keeper κ σ] {w w' : World κ σ} {s : Nat}

/-! ## Functions -/

namespace Func

/-- A closure is registered for the type that its function has. -/
theorem register_steady (s : Nat) {raw : Wire.RawSignature} {type : Signature}
    (htype : raw.shown = type) (code : κ) (captures : List Capture) :
    (register s raw type code captures : Act κ σ Handle).Steady := by
  intro w
  refine .bind (.makeAside (Q := fun p _ => p.2.type = type)
    (fun w => w.register_aside s type code captures) fun _ _ _ _ => rfl) fun p w' hw' hp => ?_
  obtain ⟨key, r⟩ := p
  cases hread : raw.read with
  | error fault => exact (finalize_steady key).first fun _ _ _ => .fail
  | ok type' =>
    -- Two types meet here: that of the registration, as it is shown to the host, and that which the
    -- engine has read.
    have hr : r.type = type' :=
      (hp w' (.refl hw'.orderly)).trans (htype.symm.trans (Wire.RawSignature.shown_of_read hread))
    exact Steady.bind (.make fun w hw => World.newHostFunction_leads hw s key hr)
      (fun _ => .orAbort) w'

theorem create_steady (s : Nat) (type : Signature) (code : κ) (captures : List Capture) :
    (create s type code captures : Act κ σ Handle).Steady :=
  .bind (context_steady s) fun _ => register_steady s (Wire.shown_ofSignature type) code captures

theorem type_steady (s : Nat) (f : Handle) : (type s f : Act κ σ Signature).Steady := by
  intro w
  refine (context_steady s).first fun _ w₁ _ => ?_
  refine .bind (funcPlace_promises s f) fun place w₂ hw₂ hplace => ?_
  exact .bind (typeAt_promises (hplace w₂ (.refl hw₂.orderly))) fun _ _ _ _ => .pure fun _ _ => trivial

theorem call_steady {host : Runner κ σ} (hhost : Steady host) (s : Nat) (f : Handle)
    (args : List Val) : (call host s f args).Steady := by
  intro w
  refine (context_steady s).first fun _ w₁ _ => ?_
  refine .bind (funcPlace_promises s f) fun place w₂ hw₂ hplace => ?_
  refine .bind (typeAt_promises (hplace w₂ (.refl hw₂.orderly))) fun type w₃ hw₃ htype => ?_
  cases hcheck : checkParams type args with
  | error e => exact .failFirst
  | ok u =>
    refine Steady.first .pure fun _ w₄ hw₄ => ?_
    exact (answer_promises hhost (htype w₄ hw₄) (kinds_of_checkParams hcheck)).mono
      fun _ _ _ _ => trivial

end Func

theorem close_steady (s : Nat) (h : Handle) : (close s h : Act κ σ Unit).Steady := by
  refine .bind (context_steady s) fun _ => ?_
  refine .bind (.onUnwind (releaseHandle_steady h) (check_steady s h)) fun _ => ?_
  refine .bind (.makeAside fun w => w.reclaimSole_aside h) fun o => ?_
  cases o with
  | none => exact releaseHandle_steady h
  | some owner => exact releaseStore_steady owner

/-! ## Items of a store -/

/-- An item is found in a store, and what is said of it there stays true. -/
theorem found_promises {items : Guest.Store → Array α} {i : Nat} {P : Guest.Store → α → Prop}
    {R : (Nat → Prop) → α → Prop}
    (hfound : ∀ (g : Guest.Store) x, g.Typed → (items g)[i]? = some x → P g x)
    (hlead : ∀ (g g' : Guest.Store) x, g.Leads g' → P g x → P g' x)
    (hrooted : ∀ (g : Guest.Store) held x, g.Rooted held → (items g)[i]? = some x → R held x)
    (hmono : ∀ held held' x, (∀ o, held o → held' o) → R held x → R held' x) :
    (do
      let x ← orAbort .stuck (items (← guest s))[i]?
      return (i, x) : Act κ σ (Nat × α)).Promises
      (fun p w' => p.1 = i ∧ (w'.In s fun g => P g p.2) ∧ R (w'.Keeps s) p.2) w := by
  -- What is said of the item has to be said of all items of the guest part, since it is not known
  -- yet which one it is.
  refine .bind (guest_promises (Q := fun g w' => ∀ x, (items g)[i]? = some x →
    (w'.In s fun g => P g x) ∧ R (w'.Keeps s) x) ?_) fun g w₁ _ hx => ?_
  · intro w₁ g hw₁ hg w₂ hw₂ x hx
    have hhere : w₁.In s fun g => P g x := .of_guest? hg (hfound g x (hw₁.typed.guests s g hg) hx)
    exact ⟨hhere.lead hw₂ fun g g' => hlead g g' x, hmono _ _ x (hw₂.evolves.kept s)
      (hrooted g _ x (hw₁.orderly.rooted s g hg) hx)⟩
  · refine .bind (.orAbort (Q := fun x w' => (w'.In s fun g => P g x) ∧ R (w'.Keeps s) x)
      fun x hfound w₂ hw₂ => hx w₂ hw₂ x hfound) fun x w₂ _ hx => .pure fun w₃ hw₃ =>
        ⟨rfl, hx w₃ hw₃⟩

/-- An item is made in a store. -/
theorem allot_promises {f : Guest.Store → Except EngineFault (Guest.Place × Guest.Store)}
    (h : ∀ w' g p g', w.Leads w' → w'.guest? s = some g → f g = .ok (p, g') →
      g.Leads g' ∧ g'.Rooted (w'.Keeps s) ∧ (g'.declaredType? p).isSome) :
    (allot s f : Act κ σ Handle).Promises (fun _ _ => True) w := by
  refine .bind (.make (Q := fun _ _ => True) fun w' hw' _ _ => ⟨?_, fun _ _ => trivial⟩)
    fun o w' _ _ => ?_
  · unfold World.allot
    split
    · exact .refl hw'.orderly
    · exact .refl hw'.orderly
    · rename_i p g' hf
      obtain ⟨g, hg, hf⟩ := Option.map_eq_some_iff.mp hf
      -- The guest part is replaced first, and then a handle is allocated for a place that is there
      -- by then.
      obtain ⟨hlead, hrooted, hplace⟩ := h w' g p g' hw' hg hf
      have hset := World.setGuest_leads hw'.orderly hg hlead hrooted
      have hguest : (w'.setGuest s g').guest? s = some g' := World.guestAt_setGuest hg _
      refine hset.trans (World.newHandle_leads hset.orderly s ?_)
      exact World.In.of_guest? (w := w'.setGuest s g') hguest hplace
  · refine Steady.first .orAbort fun res _ _ => ?_
    cases res with
    | error fault => exact .fail
    | ok h => exact .pure fun _ _ => trivial

omit [Keeper κ σ] in
/-- A value that fits a store wherever it is there can be handed out. -/
theorem World.In.fits {v : Guest.Value} {k : Kind} (h : w.In s fun g => v.Fits g.funcs.size k)
    (hr : v.Rooted (w.Keeps s)) : w.Fits s v v.kind :=
  ⟨rfl, fun i hi => ⟨h.1, fun g hg => Guest.Value.within_iff.mp (h.2 g hg).within i hi⟩, hr⟩

/-! ## Globals -/

namespace Global

/-- What is known of a global that was found: one of its type is there, and its value fits. -/
def Found (i : Nat) (g : Guest.Store) (x : Guest.Global) : Prop :=
  (∃ y, g.globals[i]? = some y ∧ y.type = x.type) ∧ x.value.Fits g.funcs.size x.type.content

theorem at_promises (s : Nat) (h : Handle) : (at_ s h : Act κ σ _).Promises
    (fun p w' => (w'.In s fun g => Found p.1 g p.2) ∧ p.2.value.Rooted (w'.Keeps s)) w := by
  refine (place_steady s h).first fun p _ _ => ?_
  cases p with
  | global i =>
    refine (found_promises (P := Found i) (R := fun held x => x.value.Rooted held) ?_ ?_
      (fun g held x hr hx => hr.globals i x hx) fun _ _ _ hh hr => hr.mono hh).mono ?_
    · exact fun g x hg hx => ⟨⟨x, hx, rfl⟩, hg.globals i x hx⟩
    · rintro g g' x hlead ⟨⟨y, hy, ht⟩, hv⟩
      obtain ⟨y', hy', ht', -⟩ := hlead.evolves.globals i y hy
      exact ⟨⟨y', hy', ht'.trans ht⟩, hv.mono hlead.evolves.size_funcs⟩
    · rintro _ _ _ ⟨rfl, hfound⟩
      exact hfound
  | _ => exact .abort

theorem create_promises (hs : s < w.stores.size) (type : GlobalType) (init : Val) :
    (create s type init : Act κ σ Handle).Promises (fun _ _ => True) w := by
  unfold create
  refine .guard fun _ => (context_steady s).first fun _ w₀ hw₀ => ?_
  refine .bind (pack_promises s init) fun packed w₁ hw₁ hpacked => ?_
  refine (releasePacked_steady packed).promisesEnsuring ?_
  -- The descriptor may be refused; nothing has been made yet.
  split
  · exact .fail
  · rename_i type _
    have hs' := Nat.lt_of_lt_of_le hs (hw₀.trans hw₁).evolves.size
    refine .bind (adopt_promises hs' (hpacked w₁ (.refl hw₁.orderly))) fun value w₂ hw₂ hvalue => ?_
    refine allot_promises fun w₃ g p g' hw₃ hg hf => ?_
    unfold Wire.addGlobal at hf
    split at hf
    · rename_i hkind
      cases hf
      have hfits := (hvalue w₃ hw₃).value hg
      refine ⟨(hw₃.typed.guests s g hg).addGlobal ⟨hkind, hfits.within⟩,
        (hw₃.orderly.rooted s g hg).addGlobal (hvalue w₃ hw₃).rooted, ?_⟩
      simp [Guest.Store.declaredType?]
    · cases hf

theorem get_steady (s : Nat) (h : Handle) : (get s h : Act κ σ Val).Steady := by
  refine .bind (context_steady s) fun _ w => ?_
  refine .bind (at_promises s h) fun p w₁ hw₁ hfound => ?_
  obtain ⟨i, x⟩ := p
  obtain ⟨hthere, hrooted⟩ := hfound w₁ (.refl hw₁.orderly)
  have hin : w₁.In s fun g => x.value.Fits g.funcs.size x.type.content :=
    ⟨hthere.1, fun g hg => (hthere.2 g hg).2⟩
  refine .bind (expose_promises (hin.fits hrooted)) fun res w₂ hw₂ hres => ?_
  cases res with
  | error fault => exact .fail
  | ok packed =>
    refine (releasePacked_steady packed).promisesEnsuring ?_
    exact (unpack_promises (hres w₂ (.refl hw₂.orderly) packed rfl)).mono fun _ _ _ _ => trivial

/-- A variable is given a value of its kind. -/
theorem set_steady (s : Nat) (h : Handle) (v : Val) : (set s h v : Act κ σ Unit).Steady := by
  refine .bind (context_steady s) fun _ w => ?_
  refine .bind (at_promises s h) fun p w₁ hw₁ hfound => ?_
  obtain ⟨i, x⟩ := p
  refine .guard fun hwritable => .guard fun hkind => ?_
  refine .bind (pack_promises s v) fun packed w₂ hw₂ hpacked => ?_
  refine (releasePacked_steady packed).promisesEnsuring ?_
  have hs := Nat.lt_of_lt_of_le (hfound w₁ (.refl hw₁.orderly)).1.1 hw₂.evolves.size
  refine .bind (adopt_promises hs (hpacked w₂ (.refl hw₂.orderly))) fun value w₃ hw₃ hvalue => ?_
  refine onGuest_promises fun w₄ g hw₄ hg => ⟨⟨?_, (hw₄.orderly.rooted s g hg).putGlobal i
    (hvalue w₄ hw₄).rooted⟩, fun _ _ _ => trivial⟩
  -- The global that is replaced is not the one that was looked at, but it has its type.
  obtain ⟨⟨y, hy, ht⟩, -⟩ := (hfound w₄ ((hw₂.trans hw₃).trans hw₄)).1.2 g hg
  have hsame : ({ x with value } : Guest.Global) = { y with value } := by rw [ht]
  rw [hsame]
  refine (hw₄.typed.guests s g hg).setGlobal hy (ht ▸ by simpa using hwritable) ?_
  have hfits := (hvalue w₄ hw₄).value hg
  rwa [not_not.mp hkind, ← ht] at hfits

end Global

/-! ## Memories -/

namespace Memory

/-- What is known of a memory that was found: one of its type is there. -/
def Found (i : Nat) (g : Guest.Store) (x : Guest.Memory) : Prop :=
  ∃ y, g.memories[i]? = some y ∧ y.type = x.type

omit [Keeper κ σ] in
theorem Found.lead {i : Nat} {x : Guest.Memory} (g g' : Guest.Store) (hlead : g.Leads g')
    (h : Found i g x) : Found i g' x := by
  obtain ⟨y, hy, ht⟩ := h
  obtain ⟨y', hy', ht'⟩ := hlead.evolves.memories i y hy
  exact ⟨y', hy', ht'.trans ht⟩

theorem at_promises (s : Nat) (h : Handle) : (at_ s h : Act κ σ _).Promises
    (fun p w' => w'.In s fun g => Found p.1 g p.2) w := by
  refine (place_steady s h).first fun p _ _ => ?_
  cases p with
  | memory i =>
    refine (found_promises (P := Found i) (R := fun _ _ => True) ?_ ?_ (fun _ _ _ _ _ => trivial)
      fun _ _ _ _ _ => trivial).mono ?_
    · exact fun g x _ hx => ⟨x, hx, rfl⟩
    · exact fun g g' _ hlead hx => hx.lead g g' hlead
    · rintro _ _ _ ⟨rfl, hfound, -⟩
      exact hfound
  | _ => exact .abort

theorem at_steady (s : Nat) (h : Handle) : (at_ s h : Act κ σ (Nat × Guest.Memory)).Steady :=
  fun _ => (at_promises s h).mono fun _ _ _ _ => trivial

theorem create_steady (s : Nat) (type : MemoryType) : (create s type : Act κ σ Handle).Steady := by
  refine .bind (context_steady s) fun _ w => ?_
  split
  · exact .fail
  · refine allot_promises fun w₁ g p g' hw₁ hg hf => ?_
    cases hf
    refine ⟨(hw₁.typed.guests s g hg).addMemory _, (hw₁.orderly.rooted s g hg).of_items rfl rfl, ?_⟩
    simp [Guest.Store.declaredType?]

theorem pages_steady (s : Nat) (h : Handle) : (pages s h : Act κ σ Nat).Steady :=
  .bind (context_steady s) fun _ => .bind (at_steady s h) fun _ => .pure

theorem size_steady (s : Nat) (h : Handle) : (size s h : Act κ σ Nat).Steady :=
  .bind (context_steady s) fun _ => .bind (at_steady s h) fun _ => .pure

theorem readInto_steady (s : Nat) (h : Handle) (offset : Nat) (buffer : List UInt8) :
    (readInto s h offset buffer : Act κ σ (Except Error Unit × List UInt8)).Steady := by
  refine .bind (context_steady s) fun _ => .bind (at_steady s h) fun p => ?_
  dsimp only
  split
  · exact .pure
  · exact .pure

theorem read_steady (s : Nat) (h : Handle) (offset len : Nat) :
    (read s h offset len : Act κ σ (List UInt8)).Steady := by
  refine .bind (readInto_steady s h offset _) fun r => ?_
  split
  · exact .pure
  · exact .fail

/-- A memory is replaced by one of its type. -/
theorem put_promises {i : Nat} {x x' : Guest.Memory} (hfound : w.In s fun g => Found i g x)
    (htype : x'.type = x.type) (a : α) :
    (onGuest s fun g => (a, g.putMemory i x') : Act κ σ α).Promises (fun _ _ => True) w := by
  refine onGuest_promises fun w' g hw' hg =>
    ⟨⟨?_, (hw'.orderly.rooted s g hg).putMemory i x'⟩, fun _ _ _ => trivial⟩
  obtain ⟨y, hy, ht⟩ := (hfound.lead hw' fun g g' he h => h.lead g g' he).2 g hg
  exact (hw'.typed.guests s g hg).putMemory hy (htype.trans ht.symm)

theorem grow_steady (s : Nat) (h : Handle) (delta : Nat) :
    (grow s h delta : Act κ σ Nat).Steady := by
  refine .bind (context_steady s) fun _ w => ?_
  refine .bind (at_promises s h) fun p w₁ hw₁ hfound => ?_
  dsimp only
  split
  · exact .fail
  · rename_i grown hgrown
    exact .bind (put_promises (hfound w₁ (.refl hw₁.orderly)) (Guest.Memory.type_of_grow? hgrown) ())
      fun _ _ _ _ => .pure fun _ _ => trivial

theorem write_steady (s : Nat) (h : Handle) (offset : Nat) (bytes : List UInt8) :
    (write s h offset bytes : Act κ σ Unit).Steady := by
  refine .bind (context_steady s) fun _ w => ?_
  refine .bind (at_promises s h) fun p w₁ hw₁ hfound => ?_
  dsimp only
  split
  · rename_i written hwritten
    obtain ⟨-, -, rfl⟩ := overwrite?_eq_some.mp hwritten
    exact put_promises (hfound w₁ (.refl hw₁.orderly)) (Guest.Memory.type_of_put _ _ _) ()
  · exact .fail

theorem withData_steady (s : Nat) (h : Handle) (f : Guest.Memory → α × Guest.Memory) :
    (withData s h f : Act κ σ α).Steady := by
  refine .bind (context_steady s) fun _ w => ?_
  refine .bind (at_promises s h) fun p w₁ hw₁ hfound => ?_
  obtain ⟨i, x⟩ := p
  have htype : Guest.Memory.type { x with written := (f x).2.written } = x.type := rfl
  exact put_promises (hfound w₁ (.refl hw₁.orderly)) htype _

end Memory

/-! ## Tables -/

namespace Table

/-- What is known of a table that was found: one of its type is there, and its elements fit. -/
def Found (i : Nat) (g : Guest.Store) (x : Guest.Table) : Prop :=
  (∃ y, g.tables[i]? = some y ∧ y.type = x.type) ∧
    ∀ r ∈ x.elements, (Guest.Value.ref r).Fits g.funcs.size x.type.element

omit [Keeper κ σ] in
theorem Found.lead {i : Nat} {x : Guest.Table} (g g' : Guest.Store) (hlead : g.Leads g')
    (h : Found i g x) : Found i g' x := by
  obtain ⟨⟨y, hy, ht⟩, hx⟩ := h
  obtain ⟨y', hy', ht'⟩ := hlead.evolves.tables i y hy
  exact ⟨⟨y', hy', ht'.trans ht⟩, fun r hr => (hx r hr).mono hlead.evolves.size_funcs⟩

theorem at_promises (s : Nat) (h : Handle) : (at_ s h : Act κ σ _).Promises
    (fun p w' => (w'.In s fun g => Found p.1 g p.2) ∧ p.2.Rooted (w'.Keeps s)) w := by
  refine (place_steady s h).first fun p _ _ => ?_
  cases p with
  | table i =>
    refine (found_promises (P := Found i) (R := fun held x => x.Rooted held) ?_ ?_
      (fun g held x hr hx => hr.tables i x hx) fun _ _ _ hh hr => hr.mono hh).mono ?_
    · exact fun g x hg hx => ⟨⟨x, hx, rfl⟩, hg.tables i x hx⟩
    · exact fun g g' _ hlead hx => hx.lead g g' hlead
    · rintro _ _ _ ⟨rfl, hfound⟩
      exact hfound
  | _ => exact .abort

theorem adoptRef_promises (hs : s < w.stores.size) {t : Nat} {p : Packed t} {k : Kind}
    (hp : p.Fits w k) :
    (adoptRef s p : Act κ σ Guest.Ref).Promises (fun r w' => w'.Fits s (.ref r) k) w := by
  refine .bind (adopt_promises hs hp) fun v w' _ hv => ?_
  split
  · exact .pure hv
  · exact .fail

theorem create_promises (hs : s < w.stores.size) (type : TableType) (init : Val) :
    (create s type init : Act κ σ Handle).Promises (fun _ _ => True) w := by
  unfold create
  refine .guard fun _ => (context_steady s).first fun _ w₀ hw₀ => ?_
  refine .bind (pack_promises s init) fun packed w₁ hw₁ hpacked => ?_
  refine (releasePacked_steady packed).promisesEnsuring ?_
  split
  · exact .fail
  · rename_i type _
    have hs' := Nat.lt_of_lt_of_le hs (hw₀.trans hw₁).evolves.size
    refine .bind (adoptRef_promises hs' (hpacked w₁ (.refl hw₁.orderly))) fun r w₂ hw₂ hr => ?_
    refine allot_promises fun w₃ g p g' hw₃ hg hf => ?_
    unfold Wire.addTable at hf
    split at hf
    · rename_i hkind
      cases hf
      refine ⟨(hw₃.typed.guests s g hg).addTable fun r' hr' => ?_,
        (hw₃.orderly.rooted s g hg).addTable (.ofType ?_ (hr w₃ hw₃).rooted), ?_⟩
      · obtain rfl := (Array.mem_replicate.mp hr').2
        exact ⟨hkind, ((hr w₃ hw₃).value hg).within⟩
      · rw [← hkind]
        cases r <;> rfl
      · simp [Guest.Store.declaredType?]
    · cases hf

theorem size_steady (s : Nat) (h : Handle) : (size s h : Act κ σ Nat).Steady :=
  .bind (context_steady s) fun _ _ => .bind (at_promises s h) fun _ _ _ _ => .pure fun _ _ => trivial

theorem get_steady (s : Nat) (h : Handle) (index : Nat) :
    (get s h index : Act κ σ (Option Val)).Steady := by
  refine .bind (context_steady s) fun _ w => ?_
  refine .bind (at_promises s h) fun p w₁ hw₁ hfound => ?_
  split
  · exact .pure fun _ _ => trivial
  · rename_i r hr
    obtain ⟨hthere, hrooted⟩ := hfound w₁ (.refl hw₁.orderly)
    have hin : w₁.In s fun g => (Guest.Value.ref r).Fits g.funcs.size p.2.type.element :=
      ⟨hthere.1, fun g hg => (hthere.2 g hg).2 r (Array.mem_of_getElem? hr)⟩
    refine .bind (expose_promises (hin.fits (hrooted.get? hr))) fun res w₂ hw₂ hres => ?_
    cases res with
    | error fault => exact .pure fun _ _ => trivial
    | ok packed =>
      refine (releasePacked_steady packed).promisesEnsuring ?_
      exact .bind (unpack_promises (hres w₂ (.refl hw₂.orderly) packed rfl)) fun _ _ _ _ =>
        .pure fun _ _ => trivial

/-- A table is replaced by one with elements of its own and a reference of its kind. -/
theorem put_promises {i : Nat} {x x' : Guest.Table} {r : Guest.Ref}
    (hfound : (w.In s fun g => Found i g x) ∧ x.Rooted (w.Keeps s))
    (hr : w.Fits s (.ref r) x.type.element) (hx' : x.Within [r] x') :
    (onGuest s fun g => ((), g.putTable i x') : Act κ σ Unit).Promises (fun _ _ => True) w := by
  obtain ⟨hfound, hrooted⟩ := hfound
  refine onGuest_promises fun w' g hw' hg => ⟨⟨?_, ?_⟩, fun _ _ _ => trivial⟩
  · obtain ⟨⟨y, hy, ht⟩, hx⟩ := (hfound.lead hw' fun g g' he h => h.lead g g' he).2 g hg
    refine (hw'.typed.guests s g hg).putTable hy (hx'.type.trans ht.symm) fun r' hr' => ?_
    rw [ht]
    -- An element was there before, or it is the one that was put.
    rcases hx'.elements r' hr' with hr' | hr'
    · exact hx r' hr'
    · obtain rfl := List.mem_singleton.mp hr'
      exact (hr.lead hw').value hg
  · refine (hw'.orderly.rooted s g hg).putTable i ⟨hx'.type ▸ hrooted.kind, fun r' hr' => ?_⟩
    rcases hx'.elements r' hr' with hr' | hr'
    · exact (hrooted.elements r' hr').mono (hw'.evolves.kept s)
    · obtain rfl := List.mem_singleton.mp hr'
      exact (hr.lead hw').rooted

theorem set_steady (s : Nat) (h : Handle) (index : Nat) (v : Val) :
    (set s h index v : Act κ σ Unit).Steady := by
  refine .bind (context_steady s) fun _ w => ?_
  refine .bind (at_promises s h) fun p w₁ hw₁ hfound => ?_
  refine .guard fun hkind => ?_
  refine .bind (pack_promises s v) fun packed w₂ hw₂ hpacked => ?_
  refine (releasePacked_steady packed).promisesEnsuring ?_
  have hs := Nat.lt_of_lt_of_le (hfound w₁ (.refl hw₁.orderly)).1.1 hw₂.evolves.size
  refine .bind (adoptRef_promises hs (hpacked w₂ (.refl hw₂.orderly))) fun r w₃ hw₃ hr => ?_
  split
  · exact .fail
  · rename_i x' hset
    -- The kinds have been compared by the operation.
    refine put_promises (hfound w₃ (hw₂.trans hw₃)) ?_ (Guest.Table.within_of_set? hset)
    exact not_not.mp hkind ▸ hr w₃ (.refl hw₃.orderly)

theorem grow_steady (s : Nat) (h : Handle) (delta : Nat) (init : Val) :
    (grow s h delta init : Act κ σ Nat).Steady := by
  refine .bind (context_steady s) fun _ w => ?_
  refine .bind (at_promises s h) fun p w₁ hw₁ hfound => ?_
  refine .guard fun hkind => ?_
  refine .bind (pack_promises s init) fun packed w₂ hw₂ hpacked => ?_
  refine (releasePacked_steady packed).promisesEnsuring ?_
  have hs := Nat.lt_of_lt_of_le (hfound w₁ (.refl hw₁.orderly)).1.1 hw₂.evolves.size
  refine .bind (adoptRef_promises hs (hpacked w₂ (.refl hw₂.orderly))) fun r w₃ hw₃ hr => ?_
  split
  · exact .fail
  · rename_i x' hgrow
    refine .bind (put_promises (hfound w₃ (hw₂.trans hw₃)) ?_ (Guest.Table.within_of_grow? hgrow))
      fun _ _ _ _ => .pure fun _ _ => trivial
    exact not_not.mp hkind ▸ hr w₃ (.refl hw₃.orderly)

end Table

theorem Item.type_steady (s : Nat) (item : Item) : (Item.type s item : Act κ σ ItemType).Steady :=
  .bind (context_steady s) fun _ => .bind (guest_steady s) fun _ => .bind (place_steady s _) fun _ =>
    .bind .orAbort fun _ => .pure

/-! ## Instances -/

theorem handOut_steady (s : Nat) (place : Guest.Place) :
    (handOut s place : Act κ σ (Option Item)).Steady := by
  refine .bind (.make fun w hw => ?_) fun o => .bind .orAbort fun p => ?_
  · unfold World.newExport
    split
    · exact .refl hw
    · rename_i type htype
      obtain ⟨g, hg, htype⟩ := Option.bind_eq_some_iff.mp htype
      have hitem : (Target.item s place).Declared w :=
        World.In.of_guest? hg (Option.isSome_iff_exists.mpr ⟨type, htype⟩)
      refine World.newHandle_leads hw s ?_
      -- The host has no view of a shared memory, and a handle without a view stands for nothing.
      unfold exportTarget
      split
      · split
        · trivial
        · exact hitem
      · exact hitem
  · obtain ⟨h, target⟩ := p
    dsimp only
    split
    · exact .pure
    · exact .bind (releaseHandle_steady h) fun _ => .pure

theorem handOutAll_steady (s : Nat) (exports : List (String × Guest.Place)) :
    (handOutAll s exports : Act κ σ (List (String × Item))).Steady := by
  induction exports with
  | nil => exact .pure
  | cons e exports ih =>
    refine .bind (handOut_steady s e.2) fun item => .bind ih fun items => ?_
    cases item <;> exact .pure

namespace Instance

theorem at_steady (s : Nat) (i : Handle) : (at_ s i : Act κ σ Guest.Instance).Steady := by
  refine .bind (check_steady s i) fun c => ?_
  split
  · exact .bind (hand_steady s _) fun _ => .bind (guest_steady s) fun _ => .orAbort
  · exact .abort

theorem checkAll_steady (s : Nat) (items : List Item) :
    (checkAll s items : Act κ σ Unit).Steady := by
  induction items with
  | nil => exact .pure
  | cons item items ih => exact .bind (check_steady s _) fun _ => ih

/-- Items of a store are there, each at its place. -/
theorem places_promises (s : Nat) (items : List Item) : (places s items : Act κ σ _).Promises
    (fun ps w' => ps.length = items.length ∧
      ∀ p ∈ ps, w'.In s fun g => (g.declaredType? p).isSome) w := by
  induction items generalizing w with
  | nil => exact .pure fun _ _ => ⟨rfl, fun _ h => by cases h⟩
  | cons item items ih =>
    refine .bind (place_promises s _) fun p w₁ _ hp => .bind ih fun ps w₂ hw₂ hps => ?_
    refine .pure fun w₃ hw₃ => ⟨congrArg Nat.succ (hps w₃ hw₃).1, fun q hq => ?_⟩
    rcases List.mem_cons.mp hq with rfl | hq
    · exact hp w₃ (hw₂.trans hw₃)
    · exact (hps w₃ hw₃).2 q hq

theorem getExport_steady (s : Nat) (i : Handle) (name : String) :
    (getExport s i name : Act κ σ (Option Item)).Steady := by
  refine .bind (context_steady s) fun _ => .bind (at_steady s i) fun inst => ?_
  split
  · exact .pure
  · exact handOut_steady s _

theorem getFunc_steady (s : Nat) (i : Handle) (name : String) :
    (getFunc s i name : Act κ σ (Option Handle)).Steady := by
  refine .bind (getExport_steady s i name) fun o => ?_
  split
  · exact .pure
  · exact .bind (releaseHandle_steady _) fun _ => .pure
  · exact .pure

theorem exports_steady (s : Nat) (i : Handle) :
    (exports s i : Act κ σ (List (String × Item))).Steady := by
  rw [exports_eq]
  exact .bind (context_steady s) fun _ => .bind (at_steady s i) fun _ => handOutAll_steady s _

/-- The start function of a linked instance, if there is one, is there and takes nothing. -/
def Startable (w : World κ σ) (s : Nat) (started : Guest.Started) : Prop :=
  ∀ place, started.start = some place → ∃ type : Signature, type.params = [] ∧
    w.HasFuncOf s place type

/-- An instance of a module is there. -/
def Made (w : World κ σ) (s n : Nat) (code : Wasm.Module) : Prop :=
  w.In s fun g => ∃ i, g.instances[n]? = some i ∧ i.module = code

omit [Keeper κ σ] in
theorem Made.lead {n : Nat} {code : Wasm.Module} (h : Made w s n code) (hw : w.Leads w') :
    Made w' s n code := by
  refine World.In.lead h hw fun g g' he => ?_
  rintro ⟨i, hi, rfl⟩
  obtain ⟨i', hi', halike⟩ := he.evolves.instances n i hi
  exact ⟨i', hi', halike.module⟩

omit [Keeper κ σ] in
theorem Made.lt {n : Nat} {code : Wasm.Module} (h : Made w s n code) :
    w.In s fun g => n < g.instances.size := by
  refine ⟨h.1, fun g hg => ?_⟩
  obtain ⟨i, hi, -⟩ := h.2 g hg
  exact (Array.getElem?_eq_some_iff.mp hi).1

/-- The engine links an instance of a module that was checked. -/
theorem link_promises {code : Wasm.Module} {places : List Guest.Place}
    (hvalid : ∃ features, code.isValid features = true) (hlength : places.length = code.imports.size)
    (hplaces : ∀ p ∈ places, w.In s fun g => (g.declaredType? p).isSome) (bulk : Bool) :
    (onGuest s fun g => Guest.instantiate g bulk code places : Act κ σ _).Promises
      (fun res w' => ∀ started, res = .ok started →
        Made w' s started.instance_ code ∧ Startable w' s started) w := by
  have htables : ∀ t ∈ code.tables, t.element.isReference = true := by
    obtain ⟨features, hvalid⟩ := hvalid
    exact (Wasm.Module.valid_of_isValid hvalid).tables
  refine onGuest_promises fun w' g hw' hg => ?_
  have hthere : ∀ p ∈ places, (g.declaredType? p).isSome := fun p hp =>
    ((hplaces p hp).lead hw' fun _ _ he h => he.evolves.isSome_declaredType? h).2 g hg
  obtain ⟨hlead, hlinked⟩ := Guest.instantiate_leads (hw'.typed.guests s g hg) hvalid hthere hlength bulk
  refine ⟨⟨hlead, Guest.instantiate_rooted (hw'.orderly.rooted s g hg) bulk htables places⟩,
    fun _ w'' hw'' started hstarted => ?_⟩
  obtain ⟨hmade, hstart⟩ := hlinked started hstarted
  have hguest := World.guestAt_setGuest hg (Guest.instantiate g bulk code places).2
  refine ⟨Made.lead (w := w'.setGuest s _) (.of_guest? hguest hmade) hw'', fun place hplace => ?_⟩
  obtain ⟨f, hf, hparams⟩ := hstart place hplace
  exact ⟨f.type, hparams, (World.HasFuncOf.of_guest? hguest hf).lead hw''⟩

section Starting

variable {host : Runner κ σ} (hhost : Steady host)

include hhost

/-- A start function takes nothing. -/
theorem callStart_promises {started : Guest.Started} (h : Startable w s started) :
    (callStart host s started).Promises (fun _ _ => True) w := by
  unfold callStart
  cases hstart : started.start with
  | none => exact .pure fun _ _ => trivial
  | some place =>
    obtain ⟨type, hparams, hplace⟩ := h place hstart
    have hargs : List.Forall₂ (w.Fits s) [] type.params := hparams ▸ .nil
    exact .bind (callPlace_promises hhost hplace hargs _) fun _ _ _ _ => .pure fun _ _ => trivial

/-- An instance is made of a module that was checked. -/
theorem create_steady (s module : Nat) (imports : List Item) :
    (create host s module imports : Act κ σ Handle).Steady := by
  refine .bind (context_steady s) fun _ => .bind .world fun v => ?_
  refine .bind .orAbort fun cell => .bind .orAbort fun store w => ?_
  refine .guard fun _ => .guard fun hcount => ?_
  refine (checkAll_steady s imports).first fun _ w₁ _ => ?_
  refine .bind (places_promises s imports) fun places w₂ hw₂ hplaces => ?_
  -- The number of imports has been compared with that of the module.
  have hlength := (hplaces w₂ (.refl hw₂.orderly)).1.trans (not_not.mp hcount)
  refine .bind (link_promises cell.compiled.valid hlength
    (fun p hp => (hplaces w₂ (.refl hw₂.orderly)).2 p hp) _) fun res w₃ hw₃ hres => ?_
  cases res with
  | error failure => exact raise_promises s failure
  | ok started =>
    obtain ⟨hmade, hstart⟩ := hres w₃ (.refl hw₃.orderly) started rfl
    refine .bind (callStart_promises hhost hstart) fun res w₄ hw₄ _ => ?_
    cases res with
    | error failure => exact raise_promises s failure
    | ok u =>
      refine .make fun w hw _ _ => ⟨World.newHandle_leads hw.orderly s ?_, fun _ _ => trivial⟩
      exact (hmade.lead (hw₄.trans hw)).lt

end Starting

end Instance

theorem Caller.getExport_steady (c : Caller) (name : String) :
    (c.getExport name : Act κ σ (Option Item)).Steady := by
  refine .bind (context_steady c.store) fun _ => .bind (guest_steady c.store) fun g => ?_
  split
  · exact .pure
  · split
    · exact .pure
    · exact handOut_steady _ _

/-! ## Linkers -/

namespace Linker

theorem take_steady (l : Nat) (choose : Definitions → Except Error (List Item)) :
    (take l choose : Act κ σ (List Item)).Steady :=
  .bind (.makeAside fun w => w.takeItems_aside l choose) fun _ => .bind .orAbort fun _ => .ofExcept

theorem get?_steady (l : Nat) (module name : String) :
    (get? l module name : Act κ σ (Option Item)).Steady := .bind (take_steady l _) fun _ => .pure

theorem allowShadowing_steady (l : Nat) (allow : Bool) :
    (allowShadowing l allow : Act κ σ Unit).Steady := .updateAside fun _ => .of_eq rfl rfl rfl rfl

theorem define_steady (l : Nat) (module name : String) (item : Item) :
    (define l module name item : Act κ σ Unit).Steady := by
  refine .bind (.makeAside fun w => w.define_aside l module name item) fun o => ?_
  refine .bind .orAbort fun p => .bind (releaseItems_steady p.2) fun _ => ?_
  split
  · exact .fail
  · exact .pure

theorem defineAll_steady (l : Nat) (module : String) (items : List (String × Item)) :
    (defineAll l module items : Act κ σ Unit).Steady := by
  induction items with
  | nil => exact .pure
  | cons item items ih =>
    exact .bind (.onUnwind (releaseItems_steady _) (define_steady l module _ _)) fun _ => ih

theorem defineFunc_steady (s l : Nat) (module name : String) (type : Signature) (code : κ)
    (captures : List Capture) :
    (defineFunc s l module name type code captures : Act κ σ Unit).Steady :=
  .bind (Func.create_steady s type code captures) fun _ => define_steady l module name _

theorem defineInstance_steady (s l : Nat) (module : String) (i : Handle) :
    (defineInstance s l module i : Act κ σ Unit).Steady :=
  .bind (Instance.exports_steady s i) fun _ => defineAll_steady l module _

theorem getDefault_steady (s l : Nat) (module : String) (idle : κ) :
    (getDefault s l module idle : Act κ σ Handle).Steady := by
  refine .bind (take_steady l _) fun items => ?_
  cases items with
  | nil => exact Func.create_steady s _ idle []
  | cons item items => exact .pure

variable {host : Runner κ σ} (hhost : Steady host)

include hhost

theorem instantiate_steady (s l module : Nat) :
    (instantiate host s l module : Act κ σ Handle).Steady := by
  refine .bind .world fun v => .bind .orAbort fun m => .bind (take_steady l _) fun items => ?_
  exact .ensuring (releaseItems_steady items) (Instance.create_steady hhost s module items)

theorem defineModule_steady (s l : Nat) (name : String) (module : Nat) :
    (defineModule host s l name module : Act κ σ Unit).Steady :=
  .bind (instantiate_steady hhost s l module) fun i =>
    .ensuring (releaseHandle_steady i) (defineInstance_steady s l name i)

end Linker

/-! ## Engines, stores and logs -/

theorem Engine.create_steady (config : EngineConfig) : (Engine.create config : Act κ σ Nat).Steady :=
  .bind .ofExcept fun _ => .makeAside fun _ => .of_eq rfl rfl rfl rfl

theorem Engine.incrementEpoch_steady (e : Nat) : (Engine.incrementEpoch e : Act κ σ Unit).Steady :=
  .updateAside fun _ => .of_eq rfl rfl rfl rfl

namespace Store

theorem countsFuel_steady (s : Nat) : (countsFuel s : Act κ σ Bool).Steady :=
  .bind (.bind .world fun _ => .pure) fun _ => .pure

theorem setFuel_steady (s fuel : Nat) : (setFuel s fuel : Act κ σ Unit).Steady := by
  refine .bind (context_steady s) fun _ => .bind (countsFuel_steady s) fun counts => ?_
  refine .guard (onGuest_steady (fun _ hg => ?_) fun _ _ hr => hr.of_items rfl rfl)
  exact .of_items hg rfl rfl rfl rfl rfl

theorem fuel_steady (s : Nat) : (fuel s : Act κ σ Nat).Steady := by
  refine .bind (context_steady s) fun _ => .bind (countsFuel_steady s) fun counts => ?_
  exact .guard (.bind (guest_steady s) fun _ => .pure)

theorem setDeadline_steady (s ticks : Nat) : (setDeadline s ticks : Act κ σ Unit).Steady :=
  .bind (context_steady s) fun _ => .bind (epoch_steady s) fun _ =>
    onGuest_steady (fun _ hg => .of_items hg rfl rfl rfl rfl rfl) fun _ _ hr => hr.of_items rfl rfl

theorem create_steady (engine : Nat) : (create engine : Act κ σ Nat).Steady :=
  .make fun _ hw => World.newStore_leads hw engine

theorem createWith_steady (engine : Nat) (limits : ExecutionConfig) :
    (createWith engine limits : Act κ σ Nat).Steady := by
  refine .bind .world fun v => .bind .ofExcept fun _ => .bind (create_steady engine) fun s => ?_
  refine .onUnwind (deleteStore_steady s) ?_
  cases limits.fuel with
  | none => cases limits.epochDeadline with
    | none => exact .pure
    | some n => exact .bind (setDeadline_steady s _) fun _ => .pure
  | some n => cases limits.epochDeadline with
    | none => exact .bind (setFuel_steady s _) fun _ => .pure
    | some n => exact .bind (setFuel_steady s _) fun _ => .bind (setDeadline_steady s _) fun _ => .pure

end Store

theorem logLine_steady (sink : Nat) (c : Caller) (level ptr len : BitVec 32) :
    (logLine sink c level ptr len : Act κ σ Unit).Steady := by
  unfold logLine
  split
  · exact .pure
  · refine .bind (Caller.getExport_steady c _) fun item => ?_
    cases item with
    | none => exact .pure
    | some item =>
      refine .ensuring (releaseHandle_steady item.handle) ?_
      split
      · exact .pure
      · refine .bind (Memory.withData_steady _ _ _) fun line => ?_
        cases line with
        | none => exact .pure
        | some line => exact .updateAside fun w => .of_eq rfl rfl rfl rfl

end WasmHost.Host
