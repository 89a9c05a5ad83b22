import WasmHost.Proofs.TypedRuns

/-!
# Actions that spare the stores

On its way to the engine a value is packed, and the engine takes a copy. Both only touch the accounts of
host objects, and worlds that differ in nothing else are *alike*. `Act.Harmless` says that an action
does no more than that, and `Act.Sparing` that it does no more unless it gives its value.

An operation that is refused has often done something already. It has drained the queue, and it has
packed the value that it was about to set, which makes an origin of a host object and adds to its
count. The value is released again, but not everything is as before: the origin stays where it was
made, without copies. So a world is not the same after a refusal, and `Alike` says up to what it is:
origins, how many of them refer to an object, and the copies that stores hold.

To be alike is not a way of saying less than was meant. Whatever a guest or the host could notice is
compared, and what is left out is bookkeeping whose sums are kept by the invariant.

There is one way in which bookkeeping could be noticed. If the last count of an object goes, the
object goes, and its finalizer runs. This is excluded because the host has a clone of what it
passes, as long as it passes it (`Backs`).
-/

namespace WasmHost.Host

open Act

variable {κ σ α β : Type}

/-! ## Worlds that are alike

Cells are compared without the counts that may differ, by `bare`. -/

/-- A store, apart from the copies of origins that its guest part holds. -/
def StoreCell.bare (c : StoreCell) : StoreCell := { c with held := [] }

/-- A host object, apart from how many origins refer to it. -/
def ObjectCell.bare (c : ObjectCell) : ObjectCell := { c with origins := 0 }

namespace World

/-- Worlds differ at most in what passing host objects to the engine leaves behind: origins, and copies
of them that stores hold. -/
structure Alike (w w' : World κ σ) : Prop where
  rest : ∃ stores objects origins, w' = { w with stores, objects, origins }
  stores : ∀ t : Nat, (w'.stores[t]?).map StoreCell.bare = (w.stores[t]?).map StoreCell.bare
  objects : ∀ o : Nat, (w'.objects[o]?).map ObjectCell.bare = (w.objects[o]?).map ObjectCell.bare
  origins : ∀ (g : Nat) c, w.origins[g]? = some c →
    ∃ c', w'.origins[g]? = some c' ∧ c'.object = c.object

variable {w w' w'' : World κ σ}

namespace Alike

theorem refl (w : World κ σ) : w.Alike w :=
  ⟨⟨_, _, _, rfl⟩, fun _ => rfl, fun _ => rfl, fun _ c h => ⟨c, h, rfl⟩⟩

theorem trans (h : w.Alike w') (h' : w'.Alike w'') : w.Alike w'' where
  rest := by
    obtain ⟨stores, objects, origins, rfl⟩ := h.rest
    obtain ⟨stores', objects', origins', rfl⟩ := h'.rest
    exact ⟨_, _, _, rfl⟩
  stores t := (h'.stores t).trans (h.stores t)
  objects o := (h'.objects o).trans (h.objects o)
  origins g c hc := by
    obtain ⟨c', hc', ho⟩ := h.origins g c hc
    obtain ⟨c'', hc'', ho'⟩ := h'.origins g c' hc'
    exact ⟨c'', hc'', ho'.trans ho⟩

theorem guests (h : w.Alike w') (t : Nat) : w'.guest? t = w.guest? t := by
  have hbare : ∀ o : Option StoreCell, o.bind (·.guest) = (o.map StoreCell.bare).bind (·.guest) := by
    intro o
    cases o <;> rfl
  rw [guest?, guest?, hbare, h.stores t, ← hbare]

theorem registry (h : w.Alike w') : w'.registry = w.registry := by
  obtain ⟨stores, objects, origins, rfl⟩ := h.rest
  rfl

theorem functions (h : w.Alike w') : w'.chronicle.functions = w.chronicle.functions := by
  obtain ⟨stores, objects, origins, rfl⟩ := h.rest
  rfl

end Alike

/-! ### Accounts of host objects -/

/-- The counts of an object change, apart from that of its clones. -/
theorem modifyObject_bare (objects : Array ObjectCell) (o : ObjectId) (f : Nat → Nat) (i : Nat) :
    ((objects.modify o fun c => { c with origins := f c.origins })[i]?).map ObjectCell.bare =
      (objects[i]?).map ObjectCell.bare := by
  rw [Array.getElem?_modify]
  split
  · cases objects[i]? <;> rfl
  · rfl

/-- The copies of an origin are counted anew. -/
theorem recount_alike (w : World κ σ) (g : Nat) (f : Nat → Nat) :
    w.Alike { w with origins := w.origins.modify g fun c => { c with copies := f c.copies } } where
  rest := ⟨_, _, _, rfl⟩
  stores _ := rfl
  objects _ := rfl
  origins i c hc := by
    by_cases hg : g = i
    · exact ⟨{ c with copies := f c.copies }, by simp [Array.getElem?_modify, hg, hc], rfl⟩
    · exact ⟨c, by simp [Array.getElem?_modify, hg, hc], rfl⟩

theorem newOrigin_alike (w : World κ σ) (o : ObjectId) : w.Alike (w.newOrigin o).2 where
  rest := ⟨_, _, _, rfl⟩
  stores _ := rfl
  objects := modifyObject_bare w.objects o (· + 1)
  origins g c hc := ⟨c, by
    have hlt := (Array.getElem?_eq_some_iff.mp hc).1
    simpa [newOrigin, Array.getElem?_push, Nat.ne_of_lt hlt] using hc, rfl⟩

theorem hold_alike (w : World κ σ) (s g : Nat) : w.Alike (w.hold s g) := by
  refine (recount_alike w g (· + 1)).trans ⟨⟨_, _, _, rfl⟩, fun t => ?_, fun _ => rfl,
    fun _ c h => ⟨c, h, rfl⟩⟩
  show ((w.stores.modify s fun c => { c with held := c.held ++ [g] })[t]?).map _ = _
  rw [Array.getElem?_modify]
  split
  · cases w.stores[t]? <;> rfl
  · rfl

/-- A host object that the host has clones of does not go. -/
theorem reduceObject_alike (w : World κ σ) {o : ObjectId} {c : ObjectCell}
    (hc : w.objects[o]? = some c) (hpos : 0 < c.clones) :
    ∃ w', w.reduceObject o (fun c => { c with origins := c.origins - 1 }) = ([], w') ∧
      w.Alike w' := by
  have hstay : ObjectCell.gone { c with origins := c.origins - 1 } = false := by
    simp only [ObjectCell.gone, beq_eq_false_iff_ne]
    omega
  refine ⟨{ w with objects := w.objects.setIfInBounds o { c with origins := c.origins - 1 } }, ?_,
    ⟨_, _, _, rfl⟩, fun _ => rfl, fun i => ?_, fun _ c h => ⟨c, h, rfl⟩⟩
  · simp only [reduceObject, hc, hstay, Bool.false_and]
    rfl
  · show ((w.objects.setIfInBounds o _)[i]?).map _ = _
    rw [Array.getElem?_setIfInBounds]
    split
    · rename_i hi
      subst hi
      rw [if_pos (Array.getElem?_eq_some_iff.mp hc).1, hc]
      rfl
    · rfl

/-! ### Values that are backed

An argument that is a host object is a clone that the host has lent for the operation. -/

/-- The host has clones of a host object. -/
def HasClones (w : World κ σ) (o : ObjectId) : Prop := ∃ c, w.objects[o]? = some c ∧ 0 < c.clones

/-- The host has clones of what a value refers to, if that is a host object. -/
def Backs (w : World κ σ) (v : Val) : Prop := ∀ o, v = .externref (some o) → w.HasClones o

/-- The same for a value that is packed. -/
def BacksPacked (w : World κ σ) {t : Nat} (p : Packed t) : Prop :=
  ∀ g, p = .externref (some g) → ∃ c, w.origins[g]? = some c ∧ w.HasClones c.object

theorem HasClones.alike {o : ObjectId} (h : w.HasClones o) (hw : w.Alike w') : w'.HasClones o := by
  obtain ⟨c, hc, hpos⟩ := h
  have hbare := hw.objects o
  rw [hc] at hbare
  obtain ⟨c', hc', heq⟩ := Option.map_eq_some_iff.mp hbare
  have hclones : c'.bare.clones = c.bare.clones := congrArg _ heq
  exact ⟨c', hc', hpos.trans_eq hclones.symm⟩

theorem Backs.alike {v : Val} (h : w.Backs v) (hw : w.Alike w') : w'.Backs v :=
  fun o ho => (h o ho).alike hw

theorem BacksPacked.alike {t : Nat} {p : Packed t} (h : w.BacksPacked p) (hw : w.Alike w') :
    w'.BacksPacked p := by
  intro g hg
  obtain ⟨c, hc, hclones⟩ := h g hg
  obtain ⟨c', hc', ho⟩ := hw.origins g c hc
  exact ⟨c', hc', ho ▸ hclones.alike hw⟩

/-- The last copy of an origin may go, but not the object that is backed. -/
theorem dismissOrigin_alike {g : Nat} {c : OriginCell} (hc : w.origins[g]? = some c)
    (h : w.HasClones c.object) : ∃ w', w.dismissOrigin g = ([], w') ∧ w.Alike w' := by
  have hcount := recount_alike w g (· - 1)
  obtain ⟨d, hd, hpos⟩ := h
  obtain ⟨w', hreduce, hw'⟩ := reduceObject_alike
    { w with origins := w.origins.modify g fun c => { c with copies := c.copies - 1 } } hd hpos
  by_cases hlast : c.copies = 1
  · exact ⟨w', by simpa [dismissOrigin, hc, hlast] using hreduce, hcount.trans hw'⟩
  · exact ⟨_, by simp [dismissOrigin, hc, hlast], hcount⟩

end World

/-! ## Harmless actions

`Harmless` is for the steps before an operation takes effect, which may give their value; `Sparing`
for an operation as a whole, of which it is asked only when it fails. So what leads to a sparing
action is harmless, and the action at the end is sparing (`Sparing.bind`). -/

/-- An action ended with an error or a panic. -/
def Outcome.Unwinds : Outcome α → Prop
  | failure _ | panic _ => True
  | _ => False

/-- Run from a world, an action leaves one that is alike. -/
def Act.Harmless (m : Act κ σ α) (w : World κ σ) : Prop :=
  (m.run w).1.ends = true → w.Alike (m.run w).2

/-- Run from a world, an action leaves one that is alike, unless it gives its value. -/
def Act.Sparing (m : Act κ σ α) (w : World κ σ) : Prop :=
  (m.run w).1.Unwinds → w.Alike (m.run w).2

namespace Act.Harmless

variable {m : Act κ σ α} {w w' : World κ σ}

theorem of_looking (hm : m.Looking) : m.Harmless w := by
  intro hends
  rcases hm w with ⟨f, hf⟩ | hsame
  · rw [hf] at hends
    cases hends
  · rw [hsame]
    exact .refl w

theorem pure {a : α} : (Pure.pure a : Act κ σ α).Harmless w := of_looking .pure

theorem fail {e : Error} : (Act.fail e : Act κ σ α).Harmless w := fun _ => .refl w

/-- The world after an action that gave a value. -/
theorem run_value {a : α} (hm : m.Harmless w) (h : m.run w = (.value a, w')) : w.Alike w' := by
  unfold Harmless at hm
  rw [h] at hm
  exact hm rfl

theorem bind {k : α → Act κ σ β} (hm : m.Harmless w)
    (hk : ∀ a w₁, m.run w = (.value a, w₁) → (k a).Harmless w₁) : (m >>= k).Harmless w := by
  show ((m.after (·.go k)).run w).1.ends = true → w.Alike ((m.after (·.go k)).run w).2
  unfold Harmless at hm
  rw [run_after]
  rcases hr : m.run w with ⟨o, w₁⟩
  rw [hr] at hm
  cases o with
  | value a => exact fun h => (hm rfl).trans (hk a w₁ hr h)
  | failure e => exact fun _ => hm rfl
  | panic p => exact fun _ => hm rfl
  | _ => exact fun h => by cases h

/-- What is done about an error or a panic is harmless as well. It is done in a world that is alike
to the first one, and so it may be assumed of every such world. -/
theorem unwinding {cleanup : Act κ σ Unit} (hc : ∀ w₁, w.Alike w₁ →
    ∃ w₂, cleanup.run w₁ = (.value (), w₂) ∧ w₁.Alike w₂) (hm : m.Harmless w) :
    (Act.onUnwind cleanup m).Harmless w := by
  unfold Harmless at hm ⊢
  rw [Act.onUnwind, run_after]
  rcases hr : m.run w with ⟨o, w₁⟩
  rw [hr] at hm
  have hunwound (ho : o.ends = true) :
      w.Alike ((cleanup.after (·.go fun _ => .done o) : Act κ σ α).run w₁).2 := by
    obtain ⟨w₂, hcleanup, hw₂⟩ := hc w₁ (hm ho)
    have hend := run_bind_value (k := fun _ => (.done o : Act κ σ α)) hcleanup
    exact (congrArg (w.Alike ·.2) hend).mpr ((hm ho).trans hw₂)
  cases o with
  | value a => exact hm
  | failure e => exact fun _ => hunwound rfl
  | panic p => exact fun _ => hunwound rfl
  | _ => exact hm

end Act.Harmless

namespace Act.Sparing

variable {m : Act κ σ α} {w w' : World κ σ}

theorem of_harmless (hm : m.Harmless w) : m.Sparing w := by
  intro h
  refine hm ?_
  cases hr : (m.run w).1 <;> simp [Outcome.Unwinds, hr, Outcome.ends] at h ⊢

theorem fail {e : Error} : (Act.fail e : Act κ σ α).Sparing w := .of_harmless .fail

/-- What always gives a value has nothing to undo. -/
theorem of_value {a : α} (h : m.run w = (.value a, w')) : m.Sparing w := by
  unfold Sparing
  rw [h]
  exact False.elim

theorem bind {k : α → Act κ σ β} (hm : m.Harmless w)
    (hk : ∀ a w₁, m.run w = (.value a, w₁) → (k a).Sparing w₁) : (m >>= k).Sparing w := by
  show ((m.after (·.go k)).run w).1.Unwinds → w.Alike ((m.after (·.go k)).run w).2
  unfold Harmless at hm
  rw [run_after]
  rcases hr : m.run w with ⟨o, w₁⟩
  rw [hr] at hm
  cases o with
  | value a => exact fun h => (hm rfl).trans (hk a w₁ hr h)
  | failure e => exact fun _ => hm rfl
  | panic p => exact fun _ => hm rfl
  | _ => exact False.elim

/-- What follows something that only looks. -/
theorem looking {k : α → Act κ σ β} (hm : m.Looking)
    (hk : ∀ a, m.run w = (.value a, w) → (k a).Sparing w) : (m >>= k).Sparing w := by
  refine bind (.of_looking hm) fun a w₁ hr => ?_
  obtain rfl := hm.run_value hr
  exact hk a hr

/-- Something is checked before. -/
theorem guard {c : Prop} {_ : Decidable c} {e : Error} {k : Unit → Act κ σ α}
    (hk : (k ()).Sparing w) : (if c then (Act.fail e >>= k) else k ()).Sparing w := by
  split
  · exact fun _ => .refl w
  · exact hk

/-- A value is made of what an action gives. -/
theorem last {k : α → β} (hm : m.Sparing w) :
    (m >>= fun a => (Pure.pure (k a) : Act κ σ β)).Sparing w := by
  show ((m.after (·.go _)).run w).1.Unwinds → w.Alike ((m.after (·.go _)).run w).2
  unfold Sparing at hm
  rw [run_after]
  rcases hr : m.run w with ⟨o, w₁⟩
  rw [hr] at hm
  cases o with
  | failure e => exact hm
  | panic p => exact hm
  | _ => exact False.elim

theorem onGuest (s : Nat) (f : Guest.Store → α × Guest.Store) :
    (Act.onGuest s f : Act κ σ α).Sparing w := by
  intro h
  cases hg : w.guest? s with
  | none =>
    have hout : w.onGuest s f = (none, w) := by simp [World.onGuest, hg]
    unfold Act.onGuest at h
    rw [run_bind_value (run_make hout)] at h
    exact h.elim
  | some g =>
    rw [run_onGuest hg f] at h
    exact h.elim

end Act.Sparing

/-! ## Packing and adopting

The steps that a value takes on its way, and the way back, if there is one. -/

theorem pack_harmless (s : Nat) (v : Val) (w : World κ σ) :
    (pack s v : Act κ σ (Packed s)).Harmless w := by
  cases v with
  | funcref h =>
    cases h with
    | none => exact .pure
    | some h => exact .bind (.of_looking (funcPlace_looking s h)) fun _ _ _ => .pure
  | externref o =>
    cases o with
    | none => exact .pure
    | some o => exact fun _ => w.newOrigin_alike o
  | _ => exact .pure

theorem pack_backs {s : Nat} {v : Val} {w w' : World κ σ} {p : Packed s}
    (h : (pack s v : Act κ σ (Packed s)).run w = (.value p, w')) (hv : w.Backs v) :
    w'.BacksPacked p := by
  rintro g rfl
  cases v with
  | funcref h' =>
    cases h' with
    | none => cases h
    | some a =>
      obtain ⟨place, w₁, -, hpack⟩ := run_bind_eq_value h
      cases hpack
  | externref o =>
    cases o with
    | none => cases h
    | some o =>
      cases h
      exact ⟨⟨o, 1⟩, by simp, (hv o rfl).alike (w.newOrigin_alike o)⟩
  | _ => cases h

theorem adopt_harmless (s : Nat) {t : Nat} (p : Packed t) (w : World κ σ) :
    (adopt s p : Act κ σ Guest.Value).Harmless w := by
  cases p with
  | funcref i =>
    cases i with
    | none => exact .pure
    | some i =>
      refine .bind (.of_looking ?_) fun _ _ _ => .pure
      unfold hand
      split
      · exact .pure
      · exact .abort
  | externref g =>
    cases g with
    | none => exact .pure
    | some g => exact fun _ => w.hold_alike s g
  | _ => exact .pure

theorem Table.adoptRef_harmless (s : Nat) {t : Nat} (p : Packed t) (w : World κ σ) :
    (Table.adoptRef s p : Act κ σ Guest.Ref).Harmless w := by
  refine .bind (adopt_harmless s p w) fun v _ _ => ?_
  cases v with
  | ref r => exact .pure
  | _ => exact .fail

/-- Releasing a value that is backed releases nothing else. -/
theorem releasePacked_alike {t : Nat} {p : Packed t} {w : World κ σ} (hp : w.BacksPacked p) :
    ∃ w', (releasePacked p : Act κ σ Unit).run w = (.value (), w') ∧ w.Alike w' := by
  cases p with
  | externref g =>
    cases g with
    | none => exact ⟨w, rfl, .refl w⟩
    | some g =>
      obtain ⟨c, hc, hclones⟩ := hp g rfl
      obtain ⟨w', hdismiss, hw'⟩ := World.dismissOrigin_alike hc hclones
      refine ⟨w', ?_, hw'⟩
      exact run_bind_value (k := releaseWrappers) (run_make (f := (·.dismissOrigin g)) hdismiss)
  | _ => exact ⟨w, rfl, .refl w⟩

/-- A value is packed for something that is sparing, and released in the end. -/
theorem Act.Sparing.packing {s : Nat} {v : Val} {w : World κ σ} {m : Packed s → Act κ σ α}
    (hv : w.Backs v) (hm : ∀ p w', (m p).Sparing w') :
    (pack s v >>= fun p => ensuring (releasePacked p) (m p)).Sparing w := by
  refine .bind (pack_harmless s v w) fun p w₁ hpack => ?_
  have hp := pack_backs hpack hv
  have hm : (m p).Sparing w₁ := hm p w₁
  unfold Sparing at hm ⊢
  rcases hr : (m p).run w₁ with ⟨o, w₂⟩
  rw [hr] at hm
  have hunwound (ho : o.ends = true) (hu : o.Unwinds) :
      w₁.Alike ((ensuring (releasePacked p) (m p)).run w₁).2 := by
    obtain ⟨w₃, hrelease, hw₃⟩ := releasePacked_alike (hp.alike (hm hu))
    rw [run_ensuring ho hr hrelease]
    exact (hm hu).trans hw₃
  cases o with
  | value a =>
    obtain ⟨u, w₃, hrelease, -⟩ := releasePacked_settling p w₂
    rw [run_ensuring rfl hr hrelease]
    exact False.elim
  | failure e => exact fun _ => hunwound rfl trivial
  | panic q => exact fun _ => hunwound rfl trivial
  | _ =>
    rw [ensuring, run_after, hr]
    exact False.elim

/-- Values are packed in order, and those before one that is refused are released again. -/
theorem packAll_harmless {s : Nat} {vs : List Val} {w : World κ σ} (hvs : ∀ v ∈ vs, w.Backs v) :
    (packAll s vs : Act κ σ (List (Packed s))).Harmless w := by
  induction vs generalizing w with
  | nil => exact .pure
  | cons v vs ih =>
    refine .bind (pack_harmless s v w) fun p w₁ hpack => ?_
    have hw₁ := (pack_harmless s v w).run_value hpack
    have hp := pack_backs hpack (hvs v (List.mem_cons_self ..))
    have hrest : (packAll s vs : Act κ σ (List (Packed s))).Harmless w₁ :=
      ih fun u hu => (hvs u (List.mem_cons_of_mem _ hu)).alike hw₁
    -- What has been packed is released if one of the rest is refused.
    refine .bind (.unwinding (fun w₂ hw₂ => ?_) hrest) fun ps _ _ => .pure
    exact releasePacked_alike (hp.alike hw₂)

end WasmHost.Host
