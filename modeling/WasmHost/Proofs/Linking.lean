import WasmHost.Proofs.Operations

/-!
# What closures, exports and definitions leave

Making a function takes over what its closure keeps alive, and keeps it even if the function is
refused only until the closure is finalised. Exports are handed out with shares of their own, and a
linker takes over the shares of what it defines.

A closure is registered before its function is made, since the function must have the key; and the
engine may refuse the type of the function afterwards. In between, there is a closure that no
function has. If it were forgotten there, it would stay in the registry for ever, and with it
everything it keeps alive. So the request that makes a function has its own token for such closures,
and `Func.register_leaves` says that it has as many of them afterwards as before, *both* if the
function was made and if it was refused.

A linker keeps shares of the items that are defined in it, so that they stay when whoever defined
them lets go of them. If a definition is refused, the item comes back and is released; if it takes
the place of another one, that one is. What a linker hands out, to instantiate a module or as a
default, comes with shares of its own.
-/

namespace WasmHost.Host

open Act

variable {κ σ α : Type} [Keeper κ σ] {L rest : Ledger κ} {Q : Outcome α → Ledger κ → Prop} {s : Nat}

/-! ## Functions -/

namespace Func

/-- A closure becomes a function, or is finalised if its type is refused. -/
theorem register_leaves {known pins : List (Pin κ)} {p : Option Payload}
    (hs : .tenure s known p ∈ L) (raw : Wire.RawSignature) (type : Signature) (code : κ)
    (captures : List Capture) :
    (register s raw type code captures : Act κ σ Handle).Leaves
      (.making pins ::ₘ (Ledger.owns (captures.map Capture.share) + L))
      (fun h => .own (.handle h (.item .func)) ::ₘ .making pins ::ₘ L) (.making pins ::ₘ L) := by
  refine Safe.make (fun _ => rfl) fun T w h hpos => ?_
  have hstore := hpos _ (((Ledger.has_of_tenure hs).add _).cons _)
  -- From this step to the next there is a closure without a function, and the token knows of it.
  refine ⟨.making ((w.register s type code captures).1 :: pins) ::ₘ L,
    by simp [Ledger.Alike.refl], ?_, ?_⟩
  · exact ((h.cast (by simp [add_assoc])).register hstore type code).cast
      (Multiset.cons_add _ _ _).symm
  · have hr : (w.register s type code captures).1.2.store = s := rfl
    generalize (w.register s type code captures).1 = k at hr
    obtain ⟨key, r⟩ := k
    dsimp only
    split
    · exact Leaves.bind (finalize_leaves (key, r) pins) fun _ => Leaves.fail rfl
    · rename_i type _
      refine Safe.make (fun w => ?_) fun T w h _ => ?_
      · unfold World.newHostFunction
        split <;> rfl
      · obtain ⟨a, ha, h⟩ := (h.cast (Multiset.cons_add _ _ _)).newHostFunction
          (Multiset.mem_add.mpr (.inl hs)) hr type
        refine ⟨.own (.handle a (.item .func)) ::ₘ .making pins ::ₘ L,
          by simp [Ledger.Alike.refl], h.cast (by simp), ?_⟩
        rw [ha]
        exact Leaves.pure rfl

theorem create_leaves {known pins : List (Pin κ)} {p : Option Payload}
    (hs : .tenure s known p ∈ L) (type : Signature) (code : κ) (captures : List Capture) :
    (create s type code captures : Act κ σ Handle).Leaves
      (.making pins ::ₘ (Ledger.owns (captures.map Capture.share) + L))
      (fun h => .own (.handle h (.item .func)) ::ₘ .making pins ::ₘ L) (.making pins ::ₘ L) :=
  Leaves.bind (context_leaves s) fun _ => register_leaves hs _ type code captures

theorem typeAt_leaves (place : Nat) :
    (typeAt s place : Act κ σ Signature).Leaves L (fun _ => L) L :=
  Leaves.bind (guest_leaves s) fun _ => Leaves.pure rfl

end Func

/-- An object that is closed is reclaimed at once, or loses a share. -/
theorem close_leaves {h : Handle} {sort : HandleSort} :
    (close s h : Act κ σ Unit).Leaves (.own (.handle h sort) ::ₘ L) (fun _ => L) L := by
  refine Leaves.bind (context_leaves s) fun _ => ?_
  refine Leaves.bind (Leaves.onUnwind (check_leaves (Ledger.has_own (.handle h sort) _))
    (releaseHandle_leaves h sort)) fun _ => ?_
  · refine Leaves.bind (M := fun o => o.elim (.own (.handle h sort)) (fun s => .own (.store s)) ::ₘ L)
      ?_ fun o => ?_
    · refine Leaves.make (by simp) (fun o => ?_) fun _ _ h _ => ?_
      · cases o <;> simp [Ledger.Alike.refl]
      · exact (h.cast (Multiset.cons_add _ _ _)).reclaimSole.cast (Multiset.cons_add _ _ _).symm
    · -- What is left is a share of the object, or, if it has been reclaimed, the object's share of
      -- its store.
      cases o with
      | none => exact releaseHandle_leaves h sort
      | some owner => exact releaseStore_leaves owner

/-! ## Exports -/

/-- The shares of items that are handed out. -/
def Item.sharesAll (items : List Item) : List Share := items.map (·.wrapper.share)

theorem handOut_leaves (place : Guest.Place) :
    (handOut s place : Act κ σ (Option Item)).Leaves L
      (fun i => Ledger.owns (Item.sharesAll i.toList) + L) rest := by
  refine Leaves.bind (M := fun o => Ledger.owns (Sound.exported o) + L) ?_ fun o => ?_
  · refine Leaves.make (fun w => ?_) (by simp [Ledger.Alike.refl]) fun _ _ h _ => ?_
    · unfold World.newExport
      split <;> rfl
    · exact (h.newExport s place).cast (add_assoc _ _ _).symm
  · refine Leaves.expect fun x hx => ?_
    obtain ⟨h, target⟩ := x
    rw [hx]
    cases target with
    | item t p => exact Leaves.pure rfl
    | _ => exact Leaves.bind (releaseHandle_leaves h _) fun _ => Leaves.pure (zero_add _).symm

theorem handOutAll_leaves (exports : List (String × Guest.Place)) :
    (handOutAll s exports : Act κ σ (List (String × Item))).Leaves L
      (fun items => Ledger.owns (Item.sharesAll (items.map (·.2))) + L) rest := by
  induction exports generalizing L with
  | nil => exact Leaves.pure (by simp [Item.sharesAll])
  | cons e exports ih =>
    refine Leaves.bind (handOut_leaves e.2) fun item => ?_
    refine Leaves.bind ih fun items => ?_
    cases item with
    | none => exact Leaves.pure (by simp [Item.sharesAll])
    | some item => exact Leaves.pure (by simp [Item.sharesAll])

namespace Instance

theorem at_leaves {i : Handle} (hi : L.Has (.handle i .instance_)) :
    (at_ s i : Act κ σ Guest.Instance).Leaves L (fun _ => L) L := by
  refine check_safe hi (fun c hc ht => ?_) rfl
  obtain ⟨_, target, _, _⟩ := c
  cases target with
  | instance_ t n =>
    exact hand_safe ht (Leaves.bind (guest_leaves s) fun g => Leaves.orAbort fun _ _ => rfl)
  | _ => cases hc

theorem checkAll_leaves {items : List Item} (hi : ∀ x ∈ Item.sharesAll items, L.Has x) :
    (checkAll s items : Act κ σ Unit).Leaves L (fun _ => L) L := by
  induction items with
  | nil => exact Leaves.pure rfl
  | cons item items ih =>
    have hx : L.Has (.handle item.handle (.item item.kind)) := hi _ (List.mem_cons_self ..)
    exact Leaves.bind (check_leaves hx) fun _ => ih fun x hx => hi x (List.mem_cons_of_mem _ hx)

theorem places_leaves {items : List Item} (hi : ∀ x ∈ Item.sharesAll items, L.Has x) :
    (places s items : Act κ σ (List Guest.Place)).Leaves L (fun _ => L) L := by
  induction items with
  | nil => exact Leaves.pure rfl
  | cons item items ih =>
    have hx : L.Has (.handle item.handle (.item item.kind)) := hi _ (List.mem_cons_self ..)
    refine place_safe hx (fun p _ => ?_) rfl
    exact Leaves.bind (ih fun x hx => hi x (List.mem_cons_of_mem _ hx)) fun _ => Leaves.pure rfl

variable {i : Handle}

theorem getExport_leaves (hi : L.Has (.handle i .instance_)) (name : String) :
    (getExport s i name : Act κ σ (Option Item)).Leaves L
      (fun i => Ledger.owns (Item.sharesAll i.toList) + L) L := by
  refine Leaves.bind (context_leaves s) fun _ => Leaves.bind (at_leaves hi) fun g => ?_
  split
  · exact Leaves.pure (zero_add _).symm
  · exact handOut_leaves _

theorem getFunc_leaves (hi : L.Has (.handle i .instance_)) (name : String) :
    (getFunc s i name : Act κ σ (Option Handle)).Leaves L
      (fun h => Ledger.owns (h.toList.map fun h => .handle h (.item .func)) + L) L := by
  refine Leaves.bind (getExport_leaves hi name) fun item => ?_
  split
  · exact Leaves.pure rfl
  · rename_i item _
    exact Leaves.bind (releaseHandle_leaves item.handle (.item item.kind)) fun _ =>
      Leaves.pure (zero_add _).symm
  · exact Leaves.pure rfl

theorem exports_leaves (hi : L.Has (.handle i .instance_)) :
    (exports s i : Act κ σ (List (String × Item))).Leaves L
      (fun items => Ledger.owns (Item.sharesAll (items.map (·.2))) + L) L := by
  rw [exports_eq]
  exact Leaves.bind (context_leaves s) fun _ => Leaves.bind (at_leaves hi) fun g =>
    handOutAll_leaves g.exports

end Instance

theorem Caller.getExport_leaves (c : Caller) (name : String) :
    (c.getExport name : Act κ σ (Option Item)).Leaves L
      (fun i => Ledger.owns (Item.sharesAll i.toList) + L) L := by
  refine Leaves.bind (context_leaves c.store) fun _ => ?_
  refine Leaves.bind (guest_leaves c.store) fun g => ?_
  split
  · exact Leaves.pure (zero_add _).symm
  · split
    · exact Leaves.pure (zero_add _).symm
    · exact handOut_leaves _

/-! ## Linkers -/

namespace Linker

variable {l : Nat}

theorem define_leaves (hl : L.Has (.linker l)) (module name : String) (item : Item) :
    (define l module name item : Act κ σ Unit).Leaves (.own item.wrapper.share ::ₘ L)
      (fun _ => L) L := by
  refine Safe.make (fun w => ?_) fun T w h hpos => ?_
  · unfold World.define
    -- The item may have been refused, in which case it is the one that is left over.
    split
    · rfl
    · simp only
      split <;> rfl
  · obtain ⟨defined, left, hout, h⟩ := (h.cast (Multiset.cons_add _ _ _)).define
      (hpos _ (hl.cons _)) module name
    refine ⟨_, by simp [Ledger.Alike.refl], h.cast (add_assoc _ _ _).symm, ?_⟩
    refine Leaves.expect fun r hr => ?_
    obtain rfl : (defined, left) = r := by simpa [hout] using hr
    refine Leaves.bind (releaseItems_leaves left) fun _ => ?_
    split
    · exact Leaves.fail rfl
    · exact Leaves.pure rfl

theorem defineAll_leaves (hl : L.Has (.linker l)) (module : String)
    (items : List (String × Item)) :
    (defineAll l module items : Act κ σ Unit).Leaves
      (Ledger.owns (Item.sharesAll (items.map (·.2))) + L) (fun _ => L) L := by
  induction items with
  | nil => exact Leaves.pure (by simp [Item.sharesAll])
  | cons d items ih =>
    refine Leaves.bind (Leaves.onUnwind ((define_leaves (hl.add _) module d.1 d.2).cast ?_)
      (releaseItems_leaves (items.map (·.2)))) fun _ => ih
    simp [Item.sharesAll]

omit [Keeper κ σ] in
theorem run_take_ok {w : World κ σ} {l : Nat} {c : LinkerCell} (hc : w.linkers[l]? = some c)
    {choose : Definitions → Except Error (List Item)}
    {items : List Item} (h : choose c.definitions = .ok items) :
    (take l choose).run w = (.value items, w.retainItems items) := by
  have hmake : w.takeItems l choose = (some (.ok items), w.retainItems items) := by
    simp [World.takeItems, hc, h]
  exact run_bind_value (run_make (f := (·.takeItems l choose)) hmake)

omit [Keeper κ σ] in
theorem run_take_error {w : World κ σ} {l : Nat} {c : LinkerCell} (hc : w.linkers[l]? = some c)
    {choose : Definitions → Except Error (List Item)}
    {e : Error} (h : choose c.definitions = .error e) : (take l choose).run w = (.failure e, w) := by
  have hmake : w.takeItems l choose = (some (.error e), w) := by
    simp [World.takeItems, hc, h]
  exact run_bind_value (run_make (f := (·.takeItems l choose)) hmake)

/-- What a linker's definitions choose comes with shares of its own. -/
theorem take_meets (hl : L.Has (.linker l)) {choose : Definitions → Except Error (List Item)}
    (hchoose : ∀ defs items, choose defs = .ok items → ∀ i ∈ items, i ∈ defs.map (·.2)) :
    (take l choose : Act κ σ (List Item)).Meets L (fun items N => (∃ defs, choose defs = .ok items) ∧
      N = Ledger.owns (Item.sharesAll items) + L) L := by
  refine Safe.make (fun w => ?_) fun T w h hpos => ?_
  · unfold World.takeItems
    split
    · rfl
    · rfl
    · simp
  · obtain ⟨defs, hout, h⟩ := h.takeItems (hpos _ hl) hchoose
    refine ⟨_, by simp [Ledger.Alike.refl], h.cast (add_assoc _ _ _).symm, ?_⟩
    rw [hout]
    -- If nothing can be chosen then nothing has been retained.
    cases hr : choose defs with
    | error e =>
      have : (Ledger.owns (((Except.error e : Except Error (List Item)).toOption.getD []).map
        (·.wrapper.share)) + L) = L := by simp [Except.toOption]
      rw [this]
      exact Meets.fail rfl
    | ok items => exact Meets.pure ⟨⟨defs, hr⟩, rfl⟩

/-- The item of a pair is one of the definitions. -/
theorem mem_of_get? {defs : Definitions} {module name : String} {item : Item}
    (h : Definitions.get? defs module name = some item) : item ∈ defs.map (·.2) := by
  obtain ⟨d, hd, rfl⟩ := Option.map_eq_some_iff.mp h
  exact List.mem_map_of_mem (List.mem_of_find?_eq_some hd)

theorem get?_leaves (hl : L.Has (.linker l)) (module name : String) :
    (get? l module name : Act κ σ (Option Item)).Leaves L
      (fun i => Ledger.owns (Item.sharesAll i.toList) + L) L := by
  refine Meets.bind (take_meets hl fun defs items h i hi => ?_) fun items N hN => ?_
  · cases h
    exact mem_of_get? (Option.mem_toList.mp hi)
  · obtain ⟨⟨defs, h⟩, rfl⟩ := hN
    cases h
    exact Leaves.pure (by cases Definitions.get? defs module name <;> rfl)

/-- The imports of a module are found among the definitions. -/
theorem resolve_mem {defs : Definitions} (imports : List ImportType) {items : List Item}
    (h : Definitions.resolve defs imports = .ok items) : ∀ i ∈ items, i ∈ defs.map (·.2) := by
  induction imports generalizing items with
  | nil =>
    cases h
    simp
  | cons i imports ih =>
    unfold Definitions.resolve at h
    split at h
    · cases h
    · rename_i item hitem
      cases hrest : Definitions.resolve defs imports with
      | error e => simp [hrest, Except.map] at h
      | ok rest =>
        obtain rfl : item :: rest = items := by simpa [hrest, Except.map] using h
        intro j hj
        rcases List.mem_cons.mp hj with rfl | hj
        · exact mem_of_get? hitem
        · exact ih hrest j hj

theorem defineFunc_leaves {known pins : List (Pin κ)} {p : Option Payload}
    (hs : .tenure s known p ∈ L) (hl : L.Has (.linker l)) (module name : String)
    (type : Signature) (code : κ) (captures : List Capture) :
    (defineFunc s l module name type code captures : Act κ σ Unit).Leaves
      (.making pins ::ₘ (Ledger.owns (captures.map Capture.share) + L))
      (fun _ => .making pins ::ₘ L) (.making pins ::ₘ L) :=
  Leaves.bind (Func.create_leaves hs type code captures) fun h =>
    define_leaves (hl.cons _) module name ⟨.func, h⟩

theorem defineInstance_leaves {i : Handle} (hl : L.Has (.linker l))
    (hi : L.Has (.handle i .instance_)) (module : String) :
    (defineInstance s l module i : Act κ σ Unit).Leaves L (fun _ => L) L :=
  Leaves.bind (Instance.exports_leaves hi) fun items => defineAll_leaves hl module items

/-- The default of a module is a function that is defined in the linker, or one that does nothing
and is made for the purpose. -/
theorem getDefault_leaves {known pins : List (Pin κ)} {p : Option Payload}
    (hs : .tenure s known p ∈ L) (hl : L.Has (.linker l)) (module : String) (idle : κ) :
    (getDefault s l module idle : Act κ σ Handle).Leaves (.making pins ::ₘ L)
      (fun h => .own (.handle h (.item .func)) ::ₘ .making pins ::ₘ L) (.making pins ::ₘ L) := by
  refine Meets.bind (take_meets (hl.cons _) fun defs items h i hi => ?_) fun items N hN => ?_
  · -- Whatever is chosen is an item of one of the definitions.
    unfold chooseDefault at h
    split at h
    · rename_i name h' hd
      cases h
      obtain rfl : i = ⟨.func, h'⟩ := by simpa using hi
      obtain ⟨_, -, hname⟩ := List.exists_of_findSome?_eq_some hd
      obtain ⟨item, hitem, heq⟩ := Option.map_eq_some_iff.mp hname
      cases heq
      exact mem_of_get? hitem
    · cases h
    · cases h
      cases hi
  · obtain ⟨⟨defs, h⟩, rfl⟩ := hN
    unfold chooseDefault at h
    split at h
    · cases h
      exact Leaves.pure rfl
    · cases h
    · cases h
      exact (Func.create_leaves hs _ idle []).cast (by simp [Item.sharesAll])

end Linker

end WasmHost.Host
