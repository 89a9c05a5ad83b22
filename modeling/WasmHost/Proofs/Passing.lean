import WasmHost.Proofs.Releasing

/-!
# What passing values leaves

Values pass between host and guest without a share being lost. Packing takes a share of its own for
each host object, unpacking one for each reference, and what the engine keeps is the store's.

Here shares are most easily lost, for a value has no share of its own while it is on its way as a
number. A packed value does: whoever packs a host object makes an origin of it, and holds a share of
that until the packed value is released. The engine then copies what it wants to keep. So passing a
value always comes in three parts (packing it, letting the other side adopt or unpack it, and
releasing what was packed), and in no part is anything handed over that the next one relies on. It
would be cheaper to hand it over; but an error in the middle would then have to know how far it had
come.

A value that is packed must be there, and so must the store it is packed for: hence the assumptions
that the ledger *has* the shares of a value, and where something is unpacked, the store. That a
handle which is shared can be looked up, and stands for something of its own store, is used again
and again (`cell_safe`, `check_safe`, `place_safe`).
-/

namespace WasmHost.Host

/-- The share that a packed value holds. -/
def Packed.shares {t : Nat} : Packed t → List Share
  | .externref (some g) => [.origin g]
  | _ => []

/-- The shares that packed values hold. -/
def Packed.sharesAll {t : Nat} (ps : List (Packed t)) : List Share := ps.flatMap shares

@[simp] theorem Packed.sharesAll_nil {t : Nat} : sharesAll ([] : List (Packed t)) = [] := rfl

@[simp] theorem Packed.sharesAll_cons {t : Nat} (p : Packed t) (ps : List (Packed t)) :
    sharesAll (p :: ps) = p.shares ++ sharesAll ps := by simp [sharesAll]

/-- The shares of what there is, if it is there. -/
def Share.ofExcept {ε α : Type} (shares : α → List Share) : Except ε α → List Share
  | .ok a => shares a
  | .error _ => []

variable {κ σ α : Type} [Keeper κ σ] {L rest : Ledger κ} {Q : Outcome α → Ledger κ → Prop}

namespace Act

/-! ## Releasing packed values -/

theorem releasePacked_leaves {t : Nat} (p : Packed t) :
    (releasePacked p : Act κ σ Unit).Leaves (Ledger.owns p.shares + L) (fun _ => L) rest := by
  rcases p with _ | _ | _ | _ | _ | (_ | g)
  case externref.some => exact releaseOrigin_leaves g
  all_goals exact Leaves.pure (zero_add _)

theorem releasePackedAll_leaves {t : Nat} (ps : List (Packed t)) :
    (releasePackedAll ps : Act κ σ Unit).Leaves (Ledger.owns (Packed.sharesAll ps) + L)
      (fun _ => L) rest := by
  induction ps with
  | nil => exact Leaves.pure (by simp)
  | cons p ps ih =>
    exact (Leaves.bind (releasePacked_leaves p) fun _ => ih).cast
      (by simp [add_assoc])

/-! ## Handles -/

/-- A handle that something shares is there, and what it stands for belongs to its store. -/
theorem cell_safe {h : Handle} {sort : HandleSort} {k : HandleCell → Act κ σ α}
    (hx : L.Has (.handle h sort))
    (hk : ∀ c, c.target.sort = sort → c.target.store = c.store → (k c).Safe Q L) :
    (cell h >>= k).Safe Q L := by
  refine Safe.bind (Safe.world fun T w hs hpos => ?_)
  obtain ⟨c, hc, hsort, hshares⟩ := World.exists_handle (hpos _ hx)
  have hne : c.shares ≠ 0 := by omega
  simp only [hc, hne, if_false]
  exact Safe.done fun _ => hk c hsort (hs.queued.paired _ _ hc)

theorem check_safe {s : Nat} {h : Handle} {sort : HandleSort} {k : HandleCell → Act κ σ α}
    (hx : L.Has (.handle h sort))
    (hk : ∀ c, c.target.sort = sort → c.target.store = s → (k c).Safe Q L)
    (hp : Q (.panic (.text foreignMessage)) L) : (check s h >>= k).Safe Q L := by
  refine Safe.bind (cell_safe hx fun c hc ht => ?_)
  split
  · rename_i hs
    exact Safe.done fun _ => hk c hc (ht.trans hs)
  · exact Safe.done fun _ => Safe.done fun _ => hp

/-- What belongs to a store may be handed over to be used in it. -/
theorem hand_safe {s t : Nat} {k : Unit → Act κ σ α} (ht : t = s) (hk : (k ()).Safe Q L) :
    (hand s t >>= k).Safe Q L := by
  subst ht
  rw [hand, if_pos rfl]
  exact hk

theorem place_safe {s : Nat} {h : Handle} {kind : ItemKind} {k : Guest.Place → Act κ σ α}
    (hx : L.Has (.handle h (.item kind))) (hk : ∀ p, p.kind = kind → (k p).Safe Q L)
    (hp : Q (.panic (.text foreignMessage)) L) : (place s h >>= k).Safe Q L := by
  refine Safe.bind (check_safe hx (fun c hc ht => ?_) (Safe.done fun _ => hp))
  obtain ⟨_, target, _, _⟩ := c
  cases target with
  | item t p =>
    refine hand_safe ht (Safe.done fun _ => hk p ?_)
    simpa [Target.sort] using hc
  | _ => simp [Target.sort] at hc

theorem funcPlace_leaves {s : Nat} {h : Handle} (hx : L.Has (.handle h (.item .func))) :
    (funcPlace s h : Act κ σ Nat).Leaves L (fun _ => L) L := by
  refine place_safe hx (fun p hp => ?_) rfl
  obtain ⟨i, rfl⟩ := Guest.Place.exists_func hp
  exact Leaves.pure rfl

theorem check_leaves {s : Nat} {h : Handle} {sort : HandleSort} (hx : L.Has (.handle h sort)) :
    (check s h : Act κ σ HandleCell).Leaves L (fun _ => L) L := by
  refine cell_safe hx fun c _ _ => ?_
  split
  · exact Leaves.pure rfl
  · exact Leaves.panic rfl

/-! ## Guest parts -/

theorem guest_leaves (s : Nat) : (guest s : Act κ σ Guest.Store).Leaves L (fun _ => L) rest :=
  Leaves.world fun _ _ _ _ => Leaves.orAbort fun _ _ => rfl

theorem onGuest_leaves {s : Nat} {f : Guest.Store → α × Guest.Store}
    (hf : ∀ g : Guest.Store, g.Extends (f g).2) :
    (onGuest s f : Act κ σ α).Leaves L (fun _ => L) rest := by
  refine Leaves.bind (M := fun _ => L) ?_ fun _ => Leaves.orAbort fun _ _ => rfl
  refine Leaves.make (fun w => ?_) (fun _ => .refl L) fun _ _ h _ => h.onGuest hf
  unfold World.onGuest
  split <;> rfl

/-- A change of a guest part that keeps its shape. -/
theorem onGuest_leaves' {s : Nat} {f : Guest.Store → α × Guest.Store}
    (hf : ∀ g : Guest.Store, (f g).2.shape = g.shape) :
    (onGuest s f : Act κ σ α).Leaves L (fun _ => L) rest :=
  onGuest_leaves fun g => .of_shape (hf g)

theorem epoch_leaves (s : Nat) : (epoch s : Act κ σ Nat).Leaves L (fun _ => L) rest :=
  Leaves.world fun _ _ _ _ => Leaves.pure rfl

end Act

open Act

/-! ## Packing -/

theorem pack_leaves {s : Nat} {v : Val} (hv : ∀ x ∈ v.shares, L.Has x) :
    (pack s v : Act κ σ (Packed s)).Leaves L (fun p => Ledger.owns p.shares + L) L := by
  rcases v with _ | _ | _ | _ | (_ | h) | (_ | o)
  case funcref.some =>
    have hx : L.Has (.handle h (.item .func)) := hv _ (by simp [Val.shares, Val.capture?]; rfl)
    exact Leaves.bind (funcPlace_leaves hx) fun _ => Leaves.pure (zero_add _).symm
  case externref.some =>
    have hx : L.Has (.object o) := hv _ (by simp [Val.shares, Val.capture?, Capture.share])
    refine Leaves.bind (M := fun g => .own (.origin g) ::ₘ L) ?_ fun _ => Leaves.pure rfl
    refine Leaves.make (fun _ => rfl) (by simp [Ledger.Alike.refl]) fun _ _ h hpos => ?_
    exact (h.newOrigin (hpos _ hx)).cast (Multiset.cons_add _ _ _).symm
  all_goals exact Leaves.pure (zero_add _).symm

theorem packAll_leaves {s : Nat} {vs : List Val} (hv : ∀ v ∈ vs, ∀ x ∈ v.shares, L.Has x) :
    (packAll s vs : Act κ σ (List (Packed s))).Leaves L
      (fun ps => Ledger.owns (Packed.sharesAll ps) + L) L := by
  induction vs generalizing L with
  | nil => exact Leaves.pure (by simp)
  | cons v vs ih =>
    refine Leaves.bind (pack_leaves (hv v (by simp))) fun p => ?_
    refine Leaves.bind (Leaves.onUnwind (ih fun u hu x hx => ?_) (releasePacked_leaves p))
      fun ps => Leaves.pure ?_
    · exact (hv u (by simp [hu]) x hx).add _
    · simp only [Packed.sharesAll_cons, Ledger.owns_append]
      ac_rfl

theorem unpack_leaves {s : Nat} {p : Packed s} (hs : L.Has (.store s))
    (hp : ∀ x ∈ p.shares, L.Has x) :
    (unpack s p : Act κ σ Val).Leaves L (fun v => Ledger.owns v.shares + L) rest := by
  rcases p with _ | _ | _ | _ | (_ | i) | (_ | g)
  case funcref.some =>
    refine Leaves.bind (M := fun h => .own (.handle h (.item .func)) ::ₘ L) ?_
      fun _ => Leaves.pure rfl
    refine Leaves.make (fun _ => rfl) (by simp [Ledger.Alike.refl]) fun _ w h hpos => ?_
    have hpresent : (Target.item s (.func i)).Present w.stores := fun _ _ => trivial
    exact (h.newHandle (hpos _ hs) rfl hpresent).cast (Multiset.cons_add _ _ _).symm
  case externref.some =>
    refine Leaves.bind (M := fun o => Ledger.owns (o.map Share.object).toList + L) ?_ fun o => ?_
    · refine Leaves.make (fun w => ?_) (by simp [Ledger.Alike.refl]) fun _ _ h hpos => ?_
      · unfold World.retainObjectOf
        split <;> rfl
      · obtain ⟨o, ho, h⟩ := h.retainObjectOf (hpos _ (hp (.origin g) (by simp [Packed.shares])))
        rw [ho]
        exact h.cast (by simp)
    · cases o <;> exact Leaves.pure rfl
  all_goals exact Leaves.pure (zero_add _).symm

theorem unpackAll_leaves {s : Nat} {ps : List (Packed s)} (hs : L.Has (.store s))
    (hp : ∀ x ∈ Packed.sharesAll ps, L.Has x) :
    (unpackAll s ps : Act κ σ (List Val)).Leaves L
      (fun vs => Ledger.owns (Val.sharesAll vs) + L) rest := by
  induction ps generalizing L with
  | nil => exact Leaves.pure (by simp)
  | cons p ps ih =>
    refine Leaves.bind (unpack_leaves hs fun x hx => hp x (List.mem_append_left _ hx)) fun v => ?_
    refine Leaves.bind (ih (hs.add _) fun x hx => ?_) fun vs => Leaves.pure ?_
    · exact (hp x (List.mem_append_right _ hx)).add _
    · simp only [Val.sharesAll_cons, Ledger.owns_append]
      ac_rfl

/-! ## The engine's side -/

section Adopt

variable {s : Nat} {known : List (Pin κ)} {q : Option Payload}

theorem adopt_leaves {p : Packed s} (hs : .tenure s known q ∈ L) (hp : ∀ x ∈ p.shares, L.Has x) :
    (adopt s p : Act κ σ Guest.Value).Leaves L (fun _ => L) rest := by
  rcases p with _ | _ | _ | _ | (_ | i) | (_ | g)
  case funcref.some => exact hand_safe rfl (Leaves.pure rfl)
  case externref.some =>
    refine Leaves.bind (M := fun _ => L) ?_ fun _ => Leaves.pure rfl
    refine Leaves.update (fun _ => rfl) (.refl L) fun _ _ h hpos => ?_
    exact h.hold (Multiset.mem_add.mpr (.inl hs)) (hpos _ (hp (.origin g) (by simp [Packed.shares])))
  all_goals exact Leaves.pure rfl

theorem adoptAll_leaves {ps : List (Packed s)} (hs : .tenure s known q ∈ L)
    (hp : ∀ x ∈ Packed.sharesAll ps, L.Has x) :
    (adoptAll s ps : Act κ σ (List Guest.Value)).Leaves L (fun _ => L) rest := by
  induction ps with
  | nil => exact Leaves.pure rfl
  | cons p ps ih =>
    refine Leaves.bind (adopt_leaves hs fun x hx => hp x (List.mem_append_left _ hx)) fun v => ?_
    exact Leaves.bind (ih fun x hx => hp x (List.mem_append_right _ hx)) fun vs => Leaves.pure rfl

end Adopt

theorem expose_leaves (s : Nat) (v : Guest.Value) :
    (expose s v : Act κ σ (Except EngineFault (Packed s))).Leaves L
      (fun r => Ledger.owns (Share.ofExcept Packed.shares r) + L) rest := by
  rcases v with _ | _ | _ | _ | _ | (_ | (_ | g))
  case ref.object.some =>
    refine Leaves.bind (M := fun b => Ledger.owns (if b then [.origin g] else []) + L) ?_
      fun b => ?_
    · refine Leaves.make (fun w => ?_) (by simp [Ledger.Alike.refl]) fun _ _ h _ => ?_
      · unfold World.copyHeld
        split <;> rfl
      · exact (h.copyHeld s g).cast (add_assoc _ _ _).symm
    · cases b with
      | true => exact Leaves.pure rfl
      | false => exact Leaves.stuck
  all_goals exact Leaves.pure (zero_add _).symm

theorem exposeAll_leaves (s : Nat) (vs : List Guest.Value) :
    (exposeAll s vs : Act κ σ (Except EngineFault (List (Packed s)))).Leaves L
      (fun r => Ledger.owns (Share.ofExcept Packed.sharesAll r) + L) rest := by
  induction vs generalizing L with
  | nil => exact Leaves.pure (by simp [Share.ofExcept])
  | cons v vs ih =>
    refine Leaves.bind (expose_leaves s v) fun r => ?_
    cases r with
    | error e => exact Leaves.pure rfl
    | ok p =>
      refine Leaves.bind ih fun r => ?_
      cases r with
      | error e =>
        refine Leaves.bind ((releasePacked_leaves p).cast ?_) fun _ => Leaves.pure rfl
        simp [Share.ofExcept]
      | ok ps =>
        refine Leaves.pure ?_
        simp only [Share.ofExcept, Packed.sharesAll_cons, Ledger.owns_append]
        ac_rfl

end WasmHost.Host
