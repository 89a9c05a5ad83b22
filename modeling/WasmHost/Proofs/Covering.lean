import WasmHost.Proofs.Effects
import WasmHost.Proofs.Logic

/-!
# No step uses what is gone

Taking one from a count that is zero leaves zero, so a world does not show whether something has been
released once too often, and nothing in it shows whether an object that is gone has been looked at.
But a step that keeps to a ledger does so in every world that agrees with the ledger. If it used an
object that is gone, or released a share that nobody holds, it would do the same in a world that
differs from this one only in cells that the ledger does not speak of, and there the accounts would not
come out right. So what a step uses is there, and what it releases is held: its effect is *covered*.

The obvious way would be to follow every operation and to show that what it looks at has been
retained by somebody. The logic of ledgers has done this already: no operation has a contract
without holding what it uses. But a contract does not *say* so. It says that the accounts come out
right afterwards, and in natural numbers they come out right also when one is taken from zero in a
cell that nobody counts in.

Instead of proving everything a second time, with stronger contracts, this module gets the missing
half from the contracts themselves. They hold in every world that agrees with a ledger, so they may
be applied in worlds that nobody reaches. For each way of using something that is gone there is a
world that gives it away:

* An object that is gone gets captures that no object can have, and comes back to life
  (`lives_of_modify`).
* An origin without copies becomes one of an object that does not exist (`standing_of_hold`).
* An origin without copies becomes one of a new object, and somebody else holds the copy that is
  dismissed (`standing_of_dismiss`); likewise for a clone (`held_of_dismissObject`).

In each of them the accounts are right before the step and wrong after it, which the contract
excludes.
-/

namespace WasmHost.Host

variable {κ σ β : Type}

/-! ## Covered effects

`IsOf` quantifies over all worlds. A step whose effect depended on the cells that are to be
exchanged could not be caught in this way; steps are shown to be of this form in `Effects`. -/

namespace World

variable (w : World κ σ)

/-- A host object is there. -/
def lives (o : ObjectId) : Bool := (w.objects[o]?).any fun c => !c.gone

/-- A host object has been dropped. -/
def dropped (o : ObjectId) : Bool := (w.objects[o]?).any (·.gone)

/-- An origin has copies. -/
def standing (g : Nat) : Bool := (w.origins[g]?).any (0 < ·.copies)

/-- An origin has been released. -/
def released (g : Nat) : Bool := (w.origins[g]?).any (·.copies = 0)

end World

namespace Effect

/-- A step has an effect and no other, whatever the world is that it is taken in. -/
def IsOf (e : Effect) (f : World κ σ → β × World κ σ) : Prop := ∀ w, (e.apply w).Apart (f w).2

/-- An effect uses only host objects and origins that are there, and lets go only of clones and copies
that there are. -/
def Covered (w : World κ σ) : Effect → Prop
  | retainObject o | newOrigin o => w.lives o = true
  | dismissObject o => 0 < w.recorded (.object o)
  | retainObjectOf g | hold _ g | dismissOrigin g => w.standing g = true
  | copyHeld s g => (w.stores[s]?).any (·.held.contains g) = true → w.standing g = true
  | _ => True

end Effect

/-! ## What effects change

Only the two arrays matter, since the worlds in question differ in nothing else. -/

namespace World

variable (w : World κ σ)

theorem reduceObject_objects (o : ObjectId) (f : ObjectCell → ObjectCell) :
    (w.reduceObject o f).2.objects = w.objects.modify o f := by
  unfold reduceObject
  split
  · rename_i hc
    refine Array.ext_getElem? fun j => ?_
    by_cases hj : j = o
    · subst hj
      simp [Array.getElem?_modify, hc]
    · simp [Array.getElem?_modify, Ne.symm hj]
  · rename_i c hc
    have hi := (Array.getElem?_eq_some_iff.mp hc).1
    refine Array.ext_getElem? fun j => ?_
    by_cases hj : j = o
    · subst hj
      rw [getElem?_modify_self _ hc]
      simp [hi]
    · simp [Array.getElem?_modify, Ne.symm hj]

theorem retainObjectOf_objects {g : Nat} {d : OriginCell} (hd : w.origins[g]? = some d) :
    (w.retainObjectOf g).2.objects =
      w.objects.modify d.object fun c => { c with clones := c.clones + 1 } := by
  simp only [retainObjectOf, hd, retainObject]

theorem dismissOrigin_origins (g : Nat) : (w.dismissOrigin g).2.origins =
    w.origins.modify g fun c => { c with copies := c.copies - 1 } := by
  unfold dismissOrigin
  split
  · rename_i hc
    refine Array.ext_getElem? fun j => ?_
    by_cases hj : j = g
    · subst hj
      simp [Array.getElem?_modify, hc]
    · simp [Array.getElem?_modify, Ne.symm hj]
  · dsimp only
    split
    · unfold reduceObject
      split <;> rfl
    · rfl

end World

/-! ## Other worlds with the same accounts

A step may name an object or an origin beyond the end of its array. Cells that are gone are added
until there is one, which the accounts do not notice. -/

section Pad

variable {α : Type} (a : Array α) (n : Nat) {x : α}

theorem elim_pad {f : α → Nat} (hf : f x = 0) (i : Nat) :
    ((a ++ Array.replicate n x)[i]?).elim 0 f = (a[i]?).elim 0 f := by
  rw [Array.getElem?_append]
  split
  · rfl
  · rename_i hi
    rw [Array.getElem?_replicate, Array.getElem?_eq_none (Nat.le_of_not_lt hi)]
    split <;> simp [hf]

theorem any_pad {p : α → Bool} (hp : p x = false) (i : Nat) :
    ((a ++ Array.replicate n x)[i]?).any p = (a[i]?).any p := by
  rw [Array.getElem?_append]
  split
  · rfl
  · rename_i hi
    rw [Array.getElem?_replicate, Array.getElem?_eq_none (Nat.le_of_not_lt hi)]
    split <;> simp [hp]

theorem exists_pad {i : Nat} (hi : i < n) : ∃ y, (a ++ Array.replicate n x)[i]? = some y :=
  ⟨_, Array.getElem?_eq_getElem (by simp; omega)⟩

end Pad

/-- Host objects that are gone and origins without copies are added to a world. -/
def World.pad (w : World κ σ) (n : Nat) : World κ σ :=
  { w with
    objects := w.objects ++ Array.replicate n default
    origins := w.origins ++ Array.replicate n default }

namespace World

variable (w : World κ σ) (n : Nat)

theorem recorded_pad (x : Share) : (w.pad n).recorded x = w.recorded x := by
  cases x with
  | object o => exact elim_pad w.objects n (f := (·.clones)) rfl o
  | tie o => exact elim_pad w.objects n (f := (·.origins)) rfl o
  | origin g => exact elim_pad w.origins n (f := (·.copies)) rfl g
  | _ => rfl

theorem lives_pad (o : ObjectId) : (w.pad n).lives o = w.lives o := any_pad w.objects n rfl o

theorem standing_pad (g : Nat) : (w.pad n).standing g = w.standing g := any_pad w.origins n rfl g

end World

/-- Captures that no host object can have: nothing has two sorts. -/
def clashing : List Wrapper := [⟨0, .unsupported⟩, ⟨0, .instance_⟩]

namespace Balanced

variable {S : Multiset Share} {w : World κ σ}

theorem pad (h : Balanced S w) (n : Nat) : Balanced S (w.pad n) := by
  have hobjects := total_pad w.objects n (x := default) (f := World.objectRefs) fun _ => rfl
  have horigins := total_pad w.origins n (x := default) (f := World.originRefs) fun _ => rfl
  have hr : (w.pad n).refs = w.refs := by simp [World.pad, World.refs, hobjects, horigins]
  intro x
  rw [w.recorded_pad, hr, h x]

theorem pushObject (h : Balanced S w) {c : ObjectCell} (hclones : c.clones = 0)
    (horigins : c.origins = 0) : Balanced S { w with objects := w.objects.push c } := by
  intro x
  rw [World.recorded_objects _ _ _ (getElem?_push_of_ne _ _)]
  have hx := h x
  have hgone : c.gone = true := by simp [ObjectCell.gone, hclones, horigins]
  simp only [World.refs, total_push, World.objectRefs, hgone, if_true, add_zero] at hx ⊢
  by_cases ho : x = .object w.objects.size
  · subst ho
    simpa [World.recorded, hclones] using hx
  by_cases ht : x = .tie w.objects.size
  · subst ht
    simpa [World.recorded, horigins] using hx
  · rw [if_neg ho, if_neg ht]
    exact hx

/-- The cell of a host object is replaced; somebody holds the clones that it has more. What the cell
refers to must be the same, and for one that is gone this is nothing, whatever its captures are. -/
theorem setObject (h : Balanced S w) {o : ObjectId} {c c' : ObjectCell} {n : Nat}
    (hc : w.objects[o]? = some c) (hr : World.objectRefs o c' = World.objectRefs o c)
    (horigins : c'.origins = c.origins) (hclones : c'.clones = c.clones + n) :
    Balanced (Multiset.replicate n (.object o) + S)
      { w with objects := w.objects.modify o fun _ => c' } := by
  have ht := total_modify World.objectRefs (fun _ => c') hc
  rw [hr, add_left_inj] at ht
  refine h.transfer (A := 0) (B := 0) (D := 0) (U := Multiset.replicate n (.object o)) ?_
    (fun x => ?_) (by simp [add_comm])
  · simp only [World.refs, ht]
  · rw [World.recorded_objects _ _ o (getElem?_modify_of_ne _ _), getElem?_modify_self _ hc,
      Multiset.count_replicate]
    by_cases ho : x = .object o
    · simp [ho, World.recorded, hc, hclones]
    by_cases htie : x = .tie o
    · simp [htie, World.recorded, hc, horigins]
    · simp [ho, htie, Ne.symm ho]

/-- An origin without copies becomes one of another host object. -/
theorem setOrigin (h : Balanced S w) {g : Nat} {d : OriginCell} (hd : w.origins[g]? = some d)
    (hcopies : d.copies = 0) (o : ObjectId) :
    Balanced S { w with origins := w.origins.modify g fun _ => ⟨o, 0⟩ } := by
  have ht := total_modify World.originRefs (fun _ => ⟨o, 0⟩) hd
  simp [World.originRefs, hcopies] at ht
  intro x
  rw [World.recorded_origins _ _ g (getElem?_modify_of_ne _ _), getElem?_modify_self _ hd]
  have hx := h x
  simp only [World.refs, ht] at hx ⊢
  by_cases hg : x = .origin g
  · subst hg
    simpa [World.recorded, hd, hcopies] using hx
  · rw [if_neg hg]
    exact hx

/-- An origin without copies becomes one of a new host object, and somebody holds its copy. -/
theorem reviveOrigin (h : Balanced S w) {g : Nat} {d : OriginCell} (hd : w.origins[g]? = some d)
    (hcopies : d.copies = 0) :
    Balanced (.origin g ::ₘ S)
      { w with
        objects := w.objects.push { (default : ObjectCell) with origins := 1 }
        origins := w.origins.modify g fun _ => ⟨w.objects.size, 1⟩ } := by
  have ht := total_modify World.originRefs (fun _ => ⟨w.objects.size, 1⟩) hd
  simp [World.originRefs, hcopies] at ht
  refine h.transfer (A := 0) (B := {.tie w.objects.size}) (D := 0)
    (U := {.tie w.objects.size, .origin g}) ?_ (fun x => ?_) ?_
  · have hnew : World.objectRefs w.objects.size { (default : ObjectCell) with origins := 1 } = 0 :=
      rfl
    simp only [World.refs, total_push, hnew, ht]
    ext x
    simp
    omega
  · rw [World.recorded_origins { w with
      objects := w.objects.push { (default : ObjectCell) with origins := 1 } } _ g
        (getElem?_modify_of_ne _ _), getElem?_modify_self _ hd,
      World.recorded_objects _ _ _ (getElem?_push_of_ne _ _)]
    by_cases hg : x = .origin g
    · simp [hg, World.recorded, hd, hcopies]
    by_cases htie : x = .tie w.objects.size
    · simp [htie, World.recorded]
    by_cases ho : x = .object w.objects.size
    · subst ho
      simp [World.recorded]
      rfl
    · simp [hg, htie, ho]
  · simp only [← Multiset.singleton_add, Multiset.insert_eq_cons]
    ac_rfl

/-! ### What accounts exclude

The contradictions to be come to: what accounts that are right do not admit. -/

theorem gone_of_clashing (h : Balanced S w) {o : ObjectId} {c : ObjectCell}
    (hc : w.objects[o]? = some c) (hclash : c.captures = clashing) : c.gone = true := by
  by_contra hgone
  have hrefs : ∀ x ∈ clashing, 0 < w.recorded x.share := by
    intro x hx
    refine h.pos_of_mem_refs ?_
    have hmem : x.share ∈ total w.objects World.objectRefs :=
      mem_total.mpr ⟨o, c, hc, by
        rw [World.objectRefs, if_neg hgone, hclash]
        exact Multiset.mem_coe.mpr (List.mem_map_of_mem hx)⟩
    simp [World.refs, hmem]
  -- Both captures are of one handle, and its cell has one sort.
  obtain ⟨d, hd, hsort, -⟩ := World.exists_handle (hrefs ⟨0, .unsupported⟩ (by simp [clashing]))
  obtain ⟨d', hd', hsort', -⟩ := World.exists_handle (hrefs ⟨0, .instance_⟩ (by simp [clashing]))
  obtain rfl : d = d' := Option.some.inj (hd.symm.trans hd')
  rw [hsort] at hsort'
  cases hsort'

theorem object_of_origin (h : Balanced S w) {g : Nat} {d : OriginCell}
    (hd : w.origins[g]? = some d) (hpos : 0 < d.copies) : w.lives d.object = true := by
  have hmem : Share.tie d.object ∈ total w.origins World.originRefs :=
    mem_total.mpr ⟨g, d, hd, by simp [World.originRefs, hpos]⟩
  obtain ⟨c, hc, hties⟩ := elim_pos.mp (h.pos_of_mem_refs (w := w) (x := .tie d.object)
    (by simp [World.refs, hmem]))
  simp [World.lives, hc, ObjectCell.gone]
  omega

end Balanced

/-! ## Steps that keep to a ledger

In `KeepsTo` the rest `R` is arbitrary, and this is what makes it possible to add to it. -/

section Steps

variable [Keeper κ σ] {f : World κ σ → β × World κ σ} {e : Effect} {L R : Ledger κ} {w : World κ σ}

/-- Host objects and origins are replaced, and the accounts still come out right with shares that
somebody holds. -/
theorem Invariant.recast (hw : Invariant L w) {objects : Array ObjectCell}
    {origins : Array OriginCell} (xs : List Share)
    (hb : Balanced (xs + (L + Keeper.kept w.user).shares) { w with objects, origins }) :
    Invariant (Ledger.owns xs + L) { w with objects, origins } := by
  have hsound : Sound (Ledger.owns xs + (L + Keeper.kept w.user)) { w with objects, origins } :=
    .leave hb hw.sound.queued hw.sound.hosted hw.sound.engines hw.sound.blameless
  refine ⟨hsound.cast (add_assoc _ _ _).symm, fun i x => ?_, ?_⟩
  · simpa using hw.lent.loans i x
  · simpa using hw.lent.making

theorem Invariant.pad (hw : Invariant L w) (n : Nat) : Invariant L (w.pad n) := by
  have h := hw.recast [] ((hw.sound.balanced.pad n).cast (zero_add _).symm)
  rwa [Ledger.owns_nil, zero_add] at h

/-- A step keeps to a ledger, whatever else is held. -/
def KeepsTo (f : World κ σ → β × World κ σ) (L : Ledger κ) : Prop :=
  ∀ R w, Invariant (R + L) w → ∃ L', Invariant (R + L') (f w).2

namespace KeepsTo

/-- In a world with other host objects and origins, a step with an effect leaves accounts that come out
right, and what somebody else holds. -/
theorem elsewhere (hf : KeepsTo f L) (he : e.IsOf f) (hw : Invariant (R + L) w)
    {objects : Array ObjectCell} {origins : Array OriginCell} (xs : List Share)
    (hb : Balanced (xs + (R + L + Keeper.kept w.user).shares) { w with objects, origins }) :
    ∃ (w' : World κ σ) (S : Multiset Share), Balanced (xs + S) w' ∧
      w'.objects = (e.apply { w with objects, origins }).objects ∧
      w'.origins = (e.apply { w with objects, origins }).origins := by
  have hw' := hw.recast xs hb
  -- What somebody else holds is part of everything that the step has to leave alone.
  rw [← add_assoc] at hw'
  obtain ⟨L', h⟩ := hf _ _ hw'
  refine ⟨_, (R + L' + Keeper.kept (f { w with objects, origins }).2.user).shares,
    h.sound.balanced.cast ?_, (he _).objects, (he _).origins⟩
  simp only [Ledger.shares_add, Ledger.shares_owns, add_assoc]

/-- With captures that no host object can have, an object is gone after the step as well. -/
theorem gone_elsewhere (hf : KeepsTo f L) (he : e.IsOf f) (hw : Invariant (R + L) w)
    {objects : Array ObjectCell} {origins : Array OriginCell}
    (hb : Balanced (R + L + Keeper.kept w.user).shares { w with objects, origins }) {o : ObjectId}
    {c : ObjectCell} (hc : (e.apply { w with objects, origins }).objects[o]? = some c)
    (hclash : c.captures = clashing) : c.gone = true := by
  obtain ⟨w', S, hb', hobjects, -⟩ := hf.elsewhere he hw [] (hb.cast (zero_add _).symm)
  exact hb'.gone_of_clashing (hobjects ▸ hc) hclash

/-- What a step brings to life was there before. -/
theorem lives_of_modify (hf : KeepsTo f L) (he : e.IsOf f) (hw : Invariant (R + L) w) {o : ObjectId}
    {g : ObjectCell → ObjectCell} (happly : ∀ w : World κ σ, (e.apply w).objects = w.objects.modify o g)
    (hcaptures : ∀ c, (g c).captures = c.captures) (hlives : ∀ c, (g c).gone = false) :
    w.lives o = true := by
  rw [← w.lives_pad (o + 1)]
  have hw' := hw.pad (o + 1)
  obtain ⟨c, hc⟩ : ∃ c, (w.pad (o + 1)).objects[o]? = some c := exists_pad _ _ (Nat.lt_succ_self o)
  by_contra hgone
  have hgone : c.gone = true := by simpa [World.lives, hc] using hgone
  have hr : World.objectRefs o { c with captures := clashing } = World.objectRefs o c := by
    have hgone' : ({ c with captures := clashing } : ObjectCell).gone = true := hgone
    rw [World.objectRefs, World.objectRefs, if_pos hgone', if_pos hgone]
  -- If the object is gone, the world may as well have one with captures that cannot be.
  have hb := hw'.sound.balanced.setObject (n := 0) hc hr rfl rfl
  have hbad := hf.gone_elsewhere he hw' (hb.cast (zero_add _)) (o := o)
    (c := g { c with captures := clashing })
    (by rw [happly]; exact getElem?_modify_self _ (getElem?_modify_self _ hc))
    ((hcaptures _).trans rfl)
  rw [hlives] at hbad
  cases hbad

/-- Whatever an effect needs to be there is there. -/
theorem standing_of (hw : Invariant (R + L) w) (g : Nat)
    (h : ∀ w : World κ σ, Invariant (R + L) w → ∀ d, w.origins[g]? = some d → d.copies ≠ 0) :
    w.standing g = true := by
  rw [← w.standing_pad (g + 1)]
  obtain ⟨d, hd⟩ : ∃ d, (w.pad (g + 1)).origins[g]? = some d := exists_pad _ _ (Nat.lt_succ_self g)
  have hpos := h _ (hw.pad (g + 1)) d hd
  simp [World.standing, hd]
  omega

theorem standing_of_retainObjectOf (hf : KeepsTo f L) {g : Nat}
    (he : (Effect.retainObjectOf g).IsOf f) (hw : Invariant (R + L) w) : w.standing g = true := by
  refine standing_of hw g fun w hw d hd hzero => ?_
  -- The origin becomes one of an object that cannot come to life.
  have hb := (hw.sound.balanced.setOrigin hd hzero w.objects.size).pushObject
    (c := { (default : ObjectCell) with captures := clashing }) rfl rfl
  have hbad := hf.gone_elsewhere he hw hb (o := w.objects.size)
    (c := { (default : ObjectCell) with captures := clashing, clones := 1 }) ?_ rfl
  · cases hbad
  · rw [Effect.apply, World.retainObjectOf_objects _ (getElem?_modify_self _ hd)]
    exact getElem?_modify_self (fun c : ObjectCell => { c with clones := c.clones + 1 })
      Array.getElem?_push_size

theorem standing_of_hold (hf : KeepsTo f L) {s g : Nat} (he : (Effect.hold s g).IsOf f)
    (hw : Invariant (R + L) w) : w.standing g = true := by
  refine standing_of hw g fun w hw d hd hzero => ?_
  -- The origin becomes one of an object that does not exist.
  have hb := hw.sound.balanced.setOrigin hd hzero w.objects.size
  obtain ⟨w', S, hb', hobjects, horigins⟩ := hf.elsewhere he hw [] (hb.cast (zero_add _).symm)
  have hcell : w'.origins[g]? = some ⟨w.objects.size, 1⟩ := by
    rw [horigins]
    exact getElem?_modify_self (fun c => { c with copies := c.copies + 1 }) (getElem?_modify_self _ hd)
  have hbad := hb'.object_of_origin hcell Nat.one_pos
  simp [World.lives, hobjects, Effect.apply, World.hold, World.retainOrigin, World.modifyStore] at hbad

theorem standing_of_dismiss (hf : KeepsTo f L) {g : Nat} (he : (Effect.dismissOrigin g).IsOf f)
    (hw : Invariant (R + L) w) : w.standing g = true := by
  refine standing_of hw g fun w hw d hd hzero => ?_
  -- Somebody else holds the only copy.
  have hb := hw.sound.balanced.reviveOrigin hd hzero
  obtain ⟨w', S, hb', -, horigins⟩ := hf.elsewhere he hw [.origin g]
    (hb.cast (Multiset.singleton_add _ _).symm)
  have hpos := hb'.pos (x := .origin g) (by simp)
  have hcell : w'.origins[g]? = some ⟨w.objects.size, 0⟩ := by
    rw [horigins, Effect.apply, World.dismissOrigin_origins]
    exact getElem?_modify_self (fun c => { c with copies := c.copies - 1 }) (getElem?_modify_self _ hd)
  simp [World.recorded, hcell] at hpos

theorem held_of_dismissObject (hf : KeepsTo f L) {o : ObjectId} (he : (Effect.dismissObject o).IsOf f)
    (hw : Invariant (R + L) w) : 0 < w.recorded (.object o) := by
  rw [← w.recorded_pad (o + 1)]
  have hw' := hw.pad (o + 1)
  obtain ⟨c, hc⟩ : ∃ c, (w.pad (o + 1)).objects[o]? = some c := exists_pad _ _ (Nat.lt_succ_self o)
  by_contra hnone
  have hnone : c.clones = 0 := by simpa [World.recorded, hc] using hnone
  -- Somebody else holds the only clone.
  have hr : World.objectRefs o { c with clones := 1, captures := if c.gone then [] else c.captures } =
      World.objectRefs o c := by
    have hlives : ({ c with clones := 1, captures := if c.gone then [] else c.captures } :
        ObjectCell).gone = false := by simp [ObjectCell.gone]
    rw [World.objectRefs, World.objectRefs, hlives]
    cases c.gone <;> rfl
  have hb := hw'.sound.balanced.setObject (n := 1) hc hr rfl (by simp [hnone])
  obtain ⟨w', S, hb', hobjects, -⟩ := hf.elsewhere he hw' [.object o] (hb.cast (by simp))
  have hpos := hb'.pos (x := .object o) (by simp)
  have hcell : ((w'.objects[o]?).map (·.clones)) = some 0 := by
    rw [hobjects, Effect.apply, World.dismissObject, World.reduceObject_objects]
    simp [Array.getElem?_modify, hc]
  obtain ⟨c', hc', hpos⟩ := elim_pos.mp hpos
  simp [hc'] at hcell
  omega

/-- The effect of a step that keeps to a ledger is covered. -/
theorem covered (hf : KeepsTo f L) (he : e.IsOf f) (hw : Invariant (R + L) w) : e.Covered w := by
  cases e with
  | retainObject o =>
    exact hf.lives_of_modify he hw (g := fun c => { c with clones := c.clones + 1 }) (fun _ => rfl)
      (fun _ => rfl) fun _ => by simp [ObjectCell.gone]
  | newOrigin o =>
    exact hf.lives_of_modify he hw (g := fun c => { c with origins := c.origins + 1 }) (fun _ => rfl)
      (fun _ => rfl) fun _ => by simp [ObjectCell.gone]
  | dismissObject o => exact hf.held_of_dismissObject he hw
  | retainObjectOf g => exact hf.standing_of_retainObjectOf he hw
  | hold s g => exact hf.standing_of_hold he hw
  | dismissOrigin g => exact hf.standing_of_dismiss he hw
  | copyHeld s g =>
    -- A store that holds an origin is counted among its copies, so here the accounts of this world
    -- will do.
    intro hany
    obtain ⟨c, hc, hmem⟩ := (Option.any_eq_true _ _).mp hany
    have hheld : Share.origin g ∈ total w.stores World.storeRefs :=
      mem_total.mpr ⟨s, c, hc, by simp [World.storeRefs, List.contains_iff_mem.mp hmem]⟩
    obtain ⟨d, hd, hpos⟩ := elim_pos.mp
      (hw.sound.balanced.pos_of_mem_refs (x := .origin g) (by simp [World.refs, hheld]))
    simp [World.standing, hd, hpos]
  | _ => trivial

end KeepsTo

end Steps

end WasmHost.Host
