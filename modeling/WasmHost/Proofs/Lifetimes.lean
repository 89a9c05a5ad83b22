import WasmHost.Proofs.Covering
import WasmHost.Proofs.Collecting
import WasmHost.Proofs.Holdings

/-!
# The lifetime of host objects

A host object lives as long as anything refers to it: clones in the pool, in closures and in the hands of
threads, and origins, which stores and threads have copies of. Each time an object is passed to an engine
it gets an origin of its own, and loses it when the last copy goes. Threads may fail or panic wherever
they can, values may be overwritten, and collectors may let go of any copy at any time: an object is
dropped once and an origin is released once, exactly when there is nothing left that refers to it.

An object is dropped as the last of several numbers reaches zero, and the program keeps these
numbers itself, one at a time, in different places. That they are right at the end of each step is
known from the ledgers, where every reference has somebody who holds it (`Invariant.counted`). But
this says nothing about how often an object was dropped. A world in which an object had come back
and gone again would be counted right, too. Hence a second argument, which is about steps and not
about worlds: what is gone stays gone, and what is new is not gone (`Settles`). From it follows by
induction that a cell passes from being there to being gone as often as it is gone in the end, which
is once or never (`passages_add`).

Objects count their origins, and origins count their copies. The first of these numbers is not in
any ledger, because nobody holds an origin as such. `Tied` is the invariant that relates them: an
object has as many ties as it has origins with copies. It is preserved by a step only together with
the knowledge that the step is covered. An origin whose copies are used up must not be retained.

What is not shown is that an object is dropped soon. Nothing is dropped while a store holds a copy,
and a collector may keep it for as long as the store lives.
-/

namespace WasmHost.Host

variable {κ σ : Type}

/-! ## What does not come back

Both arrays are treated alike here. A cell may change in any way, as long as the property in
question is kept; a new cell must not have it. -/

/-- Where something has come to be the case of a cell it stays so, and it is not so of new cells. -/
structure Settles {α : Type} (p : α → Bool) (a a' : Array α) : Prop where
  stays : ∀ i : Nat, (a[i]?).any p = true → (a'[i]?).any p = true
  fresh : ∀ i : Nat, (a'[i]?).any p = true → ∃ x, a[i]? = some x

namespace Settles

variable {α : Type} {p : α → Bool} {a : Array α}

/-- Where nothing happens, nothing comes back. -/
theorem refl (a : Array α) : Settles p a a :=
  ⟨fun _ h => h, fun _ h => let ⟨x, hx, _⟩ := (Option.any_eq_true _ _).mp h; ⟨x, hx⟩⟩

/-- A cell is changed, and has the property afterwards if it had it before. -/
theorem modify {i : Nat} {f : α → α} (hf : ∀ x, a[i]? = some x → p x = true → p (f x) = true) :
    Settles p a (a.modify i f) where
  stays j h := by
    obtain ⟨x, hx, hp⟩ := (Option.any_eq_true _ _).mp h
    rw [Array.getElem?_modify]
    split
    · rename_i hj
      subst hj
      simp [hx, hf x hx hp]
    · exact h
  fresh j h := by
    obtain ⟨x, hx, -⟩ := (Option.any_eq_true _ _).mp h
    have hj := (Array.getElem?_eq_some_iff.mp hx).1
    exact ⟨_, Array.getElem?_eq_getElem (by simpa using hj)⟩

/-- A new cell comes at the end, and does not have the property. -/
theorem push {x : α} (hx : p x = false) : Settles p a (a.push x) where
  stays j h := by
    obtain ⟨y, hy, -⟩ := (Option.any_eq_true _ _).mp h
    rwa [getElem?_push_of_ne _ _ _ (Nat.ne_of_lt (Array.getElem?_eq_some_iff.mp hy).1)]
  fresh j h := by
    by_cases hj : j = a.size
    · subst hj
      simp [hx] at h
    · rw [getElem?_push_of_ne _ _ _ hj] at h
      exact (refl a).fresh j h

end Settles

/-! ## Ties

The sum goes over all origins, of which only those with copies that stand for the object count. So a
change of an origin matters to one object, and only if its copies come to nothing or begin. There is
one lemma for each of the ways in which the two arrays are changed. -/

/-- A host object has as many ties as origins of it have copies. -/
def Tied (objects : Array ObjectCell) (origins : Array OriginCell) : Prop :=
  ∀ o, (objects[o]?).elim 0 (·.origins) = total origins (World.standsFor o)

namespace Tied

variable {objects : Array ObjectCell} {origins : Array OriginCell} {g : Nat} {d : OriginCell}

/-- An object may be changed in everything but its number of ties. -/
theorem modifyObject (h : Tied objects origins) {i : Nat} {f : ObjectCell → ObjectCell}
    (hf : ∀ c, (f c).origins = c.origins) : Tied (objects.modify i f) origins := by
  intro o
  rw [← h o, Array.getElem?_modify]
  split
  · cases objects[o]? <;> simp [hf]
  · rfl

/-- A new object has no ties, and no origin stands for it. -/
theorem pushObject (h : Tied objects origins) {c : ObjectCell} (hc : c.origins = 0) :
    Tied (objects.push c) origins := by
  intro o
  rw [← h o]
  by_cases ho : o = objects.size
  · simp [ho, hc]
  · rw [getElem?_push_of_ne _ _ _ ho]

/-- An origin that has copies gets more or fewer of them, but keeps some. -/
theorem modifyOrigin (h : Tied objects origins) (hd : origins[g]? = some d) (hpos : 0 < d.copies)
    {f : Nat → Nat} (hf : 0 < f d.copies) :
    Tied objects (origins.modify g fun c => { c with copies := f c.copies }) := by
  intro o
  have ht := total_modify (World.standsFor o) (fun c => { c with copies := f c.copies }) hd
  have hsame : World.standsFor o g { d with copies := f d.copies } = World.standsFor o g d := by
    simp [World.standsFor, hpos, hf]
  rw [h o]
  rw [hsame, add_left_inj] at ht
  exact ht.symm

/-- A new origin has a copy, and its object gets a tie: both sides are greater by one. -/
theorem newOrigin (h : Tied objects origins) {o : ObjectId} {c : ObjectCell}
    (hc : objects[o]? = some c) : Tied
      (objects.modify o fun c => { c with origins := c.origins + 1 }) (origins.push ⟨o, 1⟩) := by
  intro o'
  have h' := h o'
  rw [total_push, ← h']
  by_cases ho : o' = o
  · subst ho
    simp [getElem?_modify_self _ hc, hc, World.standsFor]
  · simp [getElem?_modify_of_ne _ _ _ ho, World.standsFor, Ne.symm ho]

/-- The last copy of an origin goes, and its object loses a tie: both sides are less by one. -/
theorem releaseOrigin (h : Tied objects origins) (hd : origins[g]? = some d) (hlast : d.copies = 1) :
    Tied (objects.modify d.object fun c => { c with origins := c.origins - 1 })
      (origins.modify g fun c => { c with copies := c.copies - 1 }) := by
  intro o
  have ht := total_modify (World.standsFor o) (fun c => { c with copies := c.copies - 1 }) hd
  have h' := h o
  by_cases ho : o = d.object
  · subst ho
    -- The object counts this origin, so one less is what is left of the others.
    obtain ⟨r, hr⟩ := exists_total_eq (World.standsFor d.object) hd
    simp [World.standsFor, hlast] at ht hr
    obtain ⟨c, hc, hpos⟩ := elim_pos.mp (show 0 < (objects[d.object]?).elim 0 (·.origins) by omega)
    simp [hc] at h'
    simp [getElem?_modify_self _ hc]
    omega
  · simp [World.standsFor, Ne.symm ho] at ht
    simp [getElem?_modify_of_ne _ _ _ ho, h', ht]

end Tied

/-! ## Steps

The effects that matter here are few, and each of them changes one cell of an array or adds one.
What they require is just what an effect that is covered has: whatever is retained is there, and
whatever is released is held. -/

namespace World

variable {w w' : World κ σ}

/-- What is gone stays gone, nothing begins as gone, and ties still agree with origins. -/
structure Ages (w w' : World κ σ) : Prop where
  objects : Settles (·.gone) w.objects w'.objects
  origins : Settles (·.copies = 0) w.origins w'.origins
  tied : Tied w.objects w.origins → Tied w'.objects w'.origins

namespace Ages

theorem of_eq (hobjects : w'.objects = w.objects) (horigins : w'.origins = w.origins) : w.Ages w' where
  objects := hobjects ▸ .refl _
  origins := horigins ▸ .refl _
  tied h := by rwa [hobjects, horigins]

theorem apart {w'' : World κ σ} (h : w.Ages w') (h' : w'.Apart w'') : w.Ages w'' where
  objects := h'.objects ▸ h.objects
  origins := h'.origins ▸ h.origins
  tied ht := by
    rw [h'.objects, h'.origins]
    exact h.tied ht

theorem retainObject {o : ObjectId} (ho : w.lives o = true) : w.Ages (w.retainObject o) where
  objects := .modify (i := o) (f := fun c : ObjectCell => { c with clones := c.clones + 1 })
    fun c hc hgone => by simp [lives, hc, hgone] at ho
  origins := .refl _
  tied h := h.modifyObject fun _ => rfl

theorem retainOrigin {g : Nat} (hg : w.standing g = true) : w.Ages (w.retainOrigin g) where
  objects := .refl _
  origins := .modify (i := g) (f := fun c : OriginCell => { c with copies := c.copies + 1 })
    fun d hd hzero => by
      simp [standing, hd] at hg hzero
      omega
  tied h := by
    obtain ⟨d, hd, hpos⟩ := (Option.any_eq_true _ _).mp hg
    exact h.modifyOrigin (f := (· + 1)) hd (by simpa using hpos) (Nat.succ_pos _)

theorem dismissObject (o : ObjectId) : w.Ages (w.dismissObject o).2 := by
  have horigins : (w.dismissObject o).2.origins = w.origins := by
    unfold World.dismissObject reduceObject
    split <;> rfl
  refine ⟨?_, horigins ▸ .refl _, fun h => ?_⟩
  · rw [World.dismissObject, reduceObject_objects]
    refine .modify fun c _ hgone => ?_
    simp [ObjectCell.gone] at hgone ⊢
    omega
  · rw [horigins, World.dismissObject, reduceObject_objects]
    exact h.modifyObject fun _ => rfl

theorem dismissOrigin {g : Nat} (hg : w.standing g = true) : w.Ages (w.dismissOrigin g).2 := by
  obtain ⟨d, hd, hpos⟩ := (Option.any_eq_true _ _).mp hg
  have hpos : 0 < d.copies := by simpa using hpos
  have hobjects : (w.dismissOrigin g).2.objects = if d.copies = 1 then
      w.objects.modify d.object fun c => { c with origins := c.origins - 1 } else w.objects := by
    simp only [World.dismissOrigin, hd]
    split
    · exact reduceObject_objects _ _ _
    · rfl
  refine ⟨?_, ?_, fun h => ?_⟩
  · rw [hobjects]
    split
    · refine .modify fun c _ hgone => ?_
      simp [ObjectCell.gone] at hgone ⊢
      omega
    · exact .refl _
  · rw [dismissOrigin_origins]
    exact .modify fun c _ hzero => by simp_all
  · -- The last copy takes the tie along; any other leaves it.
    rw [hobjects, dismissOrigin_origins]
    split
    · rename_i hlast
      exact h.releaseOrigin hd hlast
    · exact h.modifyOrigin (f := (· - 1)) hd hpos (by omega)

theorem newOrigin {o : ObjectId} (ho : w.lives o = true) : w.Ages (w.newOrigin o).2 where
  objects := .modify (i := o) (f := fun c : ObjectCell => { c with origins := c.origins + 1 })
    fun c hc hgone => by simp [lives, hc, hgone] at ho
  origins := .push (x := (⟨o, 1⟩ : OriginCell)) rfl
  tied h := by
    obtain ⟨c, hc, -⟩ := (Option.any_eq_true _ _).mp ho
    exact h.newOrigin hc

theorem newObject (data : HostData) (captures : List Wrapper) :
    w.Ages (w.newObject data captures).2 where
  objects := .push (x := (⟨data, captures, 1, 0⟩ : ObjectCell)) rfl
  origins := .refl _
  tied h := h.pushObject rfl

end Ages

end World

/-- A step with an effect that is covered brings nothing back. By cases on the effect. Those that
are not mentioned touch neither of the two arrays. -/
theorem Effect.Covered.ages {S : Multiset Share} {w : World κ σ} {e : Effect} (he : e.Covered w)
    (hb : Balanced S w) : w.Ages (e.apply w) := by
  cases e with
  | retainObject o => exact .retainObject he
  | retainObjectOf g =>
    obtain ⟨d, hd, hpos⟩ := (Option.any_eq_true _ _).mp he
    -- The object is there because the origin refers to it.
    have hlives := hb.object_of_origin hd (by simpa using hpos)
    simp only [apply, World.retainObjectOf, hd]
    exact .retainObject hlives
  | dismissObject o => exact .dismissObject o
  | newOrigin o => exact .newOrigin he
  | hold s g => exact (World.Ages.retainOrigin he).apart (.of_eq rfl rfl rfl rfl)
  | copyHeld s g =>
    simp only [apply, World.copyHeld]
    split
    · rename_i hany
      exact .retainOrigin (he hany)
    · exact .of_eq rfl rfl
  | dismissOrigin g => exact .dismissOrigin he
  | newObject data captures => exact .newObject data captures
  | define l module name item =>
    refine .of_eq ?_ ?_ <;> simp only [apply, World.define] <;> split <;> try rfl
    all_goals split <;> rfl
  | _ => exact .of_eq rfl rfl

/-! ## Runs

Two things are needed of a thread: that it uses only what it holds (`Safe`), and that each step of
it is an effect (`Confined`). Neither has anything to do with lifetimes. -/

namespace Threads

variable {κ : Type} {t : Threads κ}

/-- A step of a thread uses only what is there, and lets go only of what is held. This is read off
from the invariant: the thread has its share, and others have theirs, whatever they are. -/
theorem Safe.covered (h : t.Safe) {i : Nat} {β : Type}
    {f : World (Code κ) Pool → β × World (Code κ) Pool} {next : β → Job κ Unit}
    (hi : t.rest[i]? = some (.step f next)) {e : Effect} (he : e.IsOf f) : e.Covered t.world := by
  obtain ⟨Ls, hthreads, hinv⟩ := h
  obtain ⟨L, R, hsafe, hR, -⟩ := exists_apart hthreads hi
  have hkeeps : KeepsTo f L := fun R w hw =>
    let ⟨L', hw', _⟩ := hsafe R w hw
    ⟨L', hw'⟩
  exact hkeeps.covered he (hR ▸ hinv)

/-- A step of a thread is a step that ages, whichever thread it is. -/
theorem Safe.ages (h : t.Safe) (hc : t.Confined) (i : Nat) : t.world.Ages (t.step i).world := by
  obtain ⟨Ls, -, hinv⟩ := id h
  unfold Threads.step
  split
  · rename_i β f next hi
    obtain ⟨⟨e, -, he⟩, -⟩ := hc _ (List.mem_of_getElem? hi)
    exact ((h.covered hi he).ages hinv.sound.balanced).apart (he t.world)
  · exact .of_eq rfl rfl

/-- How many steps lead from a world in which one thing is the case to one in which another is. That
an object is dropped once is said with this number: it counts the steps in which the object was
there before and is not there after. -/
def passages (p q : World (Code κ) Pool → Bool) : Threads κ → List Nat → Nat
  | _, [] => 0
  | t, i :: order =>
    (if p t.world && q (t.step i).world then 1 else 0) + passages p q (t.step i) order

/-- What has come to be the case of a cell has come to be so in one step, and what has not, in none.
By induction on the run. For one step it is shown by cases on the cell: it is not there yet, and
then it cannot have the property after the step; or it is, and has the property already, or may get
it. -/
theorem Safe.passages_add (h : t.Safe) (hc : t.Confined) (order : List Nat) {α : Type}
    {a : World (Code κ) Pool → Array α} {p q : α → Bool} (hq : ∀ x, q x = !p x)
    (hsettles : ∀ w w' : World (Code κ) Pool, w.Ages w' → Settles p (a w) (a w')) (j : Nat) :
    t.passages (fun w => ((a w)[j]?).any q) (fun w => ((a w)[j]?).any p) order +
        (if ((a t.world)[j]?).any p then 1 else 0) =
      if ((a (t.run order).world)[j]?).any p then 1 else 0 := by
  induction order generalizing t with
  | nil => exact Nat.zero_add _
  | cons i order ih =>
    refine Eq.trans ?_ (ih (h.step i) (hc.step i).1)
    have hstep := hsettles _ _ (h.ages hc i)
    have hstays := hstep.stays j
    have hfresh := hstep.fresh j
    -- It is left to show for one step: what is so after it was so before, or has come to be so in it.
    rw [passages, add_right_comm, add_comm, add_left_cancel_iff]
    cases hcell : (a t.world)[j]? with
    | none =>
      have hnone : ((a (t.step i).world)[j]?).any p = false := by
        by_contra hany
        obtain ⟨x, hx⟩ := hfresh (by simpa using hany)
        rw [hcell] at hx
        cases hx
      simp [hnone]
    | some x =>
      rw [hcell] at hstays
      cases hp : p x with
      | true => simp [hq, hp, hstays (by simp [hp])]
      | false => simp [hq, hp]

/-- The ties are right at all times if they are right at the beginning. -/
theorem Safe.tied (h : t.Safe) (hc : t.Confined) (order : List Nat)
    (ht : Tied t.world.objects t.world.origins) :
    Tied (t.run order).world.objects (t.run order).world.origins := by
  induction order generalizing t with
  | nil => exact ht
  | cons i order ih => exact ih (h.step i) (hc.step i).1 ((h.ages hc i).tied ht)

end Threads

/-! ## Every world that an embedder reaches

The statements are made for the shares that somebody holds. The shares are given by a ledger for
each thread while they run, and there are none when all threads are over. -/

/-- Host objects and origins are counted right, with what somebody has in hands. -/
structure World.Counted (w : World (Code κ) Pool) (hands : Multiset Share) : Prop where
  /-- The clones of a host object are those in the pool, in closures and in hands. -/
  clones : ∀ (o : ObjectId) c, w.objects[o]? = some c →
    c.clones = w.clonesHeld o + hands.count (.object o)
  /-- An object counts each of its origins until it is released. -/
  origins : ∀ (o : ObjectId) c, w.objects[o]? = some c → c.origins = w.standingFor o
  /-- The copies of an origin are those that stores hold and those in hands. -/
  copies : ∀ (g : Nat) d, w.origins[g]? = some d →
    d.copies = w.copiesHeld g + hands.count (.origin g)
  /-- An object is there as long as there is a clone of it, or an origin of it with copies. -/
  lives : ∀ o < w.objects.size, w.lives o = true ↔
    0 < w.clonesHeld o + hands.count (.object o) ∨
      ∃ (g : Nat) (d : OriginCell), w.origins[g]? = some d ∧ d.object = o ∧ 0 < d.copies

namespace World

/-- Nobody has a copy of an origin: no thread, and no store that is not deleted. -/
structure Unheld (w : World (Code κ) Pool) (hands : Multiset Share) (g : Nat) : Prop where
  threads : .origin g ∉ hands
  stores : ∀ (s : Nat) c, w.stores[s]? = some c → c.guest.isSome → g ∉ c.held

/-- Nobody refers to a host object: there are no clones of it, and nobody has copies of its origins. -/
structure Unreferenced (w : World (Code κ) Pool) (hands : Multiset Share) (o : ObjectId) : Prop where
  threads : .object o ∉ hands
  clones : w.clonesHeld o = 0
  origins : ∀ (g : Nat) d, w.origins[g]? = some d → d.object = o → w.Unheld hands g

end World

/-- In a run, host objects have been kept as long as they were needed, and no longer. -/
structure Threads.Accounts (t : Threads κ) (order : List Nat) (hands : Multiset Share) : Prop where
  counted : (t.run order).world.Counted hands
  /-- Each origin that nobody has a copy of has been released once. -/
  origins : ∀ g < (t.run order).world.origins.size, (t.run order).world.Unheld hands g →
    t.passages (·.standing g) (·.released g) order = 1
  /-- Each object that nobody refers to has been dropped once. -/
  objects : ∀ o < (t.run order).world.objects.size, (t.run order).world.Unreferenced hands o →
    t.passages (·.lives o) (·.dropped o) order = 1

/-- In a run, nothing is dropped or released too early, too late, or again. -/
structure Threads.KeepsObjects (t : Threads κ) (order : List Nat) : Prop where
  /-- The accounts are right, with what each thread has in hands by its ledger. -/
  accounts : ∃ Ls, (t.run order).Kept Ls ∧ t.Accounts order (Ledger.shares (List.sum Ls))
  /-- When the threads are over, nothing is in hands. -/
  finished : (t.run order).Over → t.Accounts order 0
  /-- What a thread does next uses only objects and origins that are there, and lets go only of clones
  and copies that there are. -/
  covered : ∀ (i : Nat) (β : Type) (f : World (Code κ) Pool → β × World (Code κ) Pool) next,
    (t.run order).rest[i]? = some (.step f next) →
    (∃ e : Effect, e.IsOf f) ∧ ∀ e : Effect, e.IsOf f → e.Covered (t.run order).world
  /-- An object that is not there any more was dropped once, and any other never. -/
  dropped : ∀ o, t.passages (·.lives o) (·.dropped o) order =
    if (t.run order).world.dropped o then 1 else 0
  /-- An origin without copies was released once, and any other never. -/
  released : ∀ g, t.passages (·.standing g) (·.released g) order =
    if (t.run order).world.released g then 1 else 0

namespace Invariant

variable {L : Ledger (Code κ)} {w : World (Code κ) Pool}

/-- The sums of the ledger are taken apart into those of the statement. That an object lives as long
as anything refers to it is then only a matter of numbers. -/
theorem counted (hw : Invariant L w) (ht : Tied w.objects w.origins) :
    w.Counted (Ledger.shares L) := by
  have hbalanced : ∀ x, w.recorded x = w.references x + L.shares.count x := fun x => by
    have hx := hw.sound.balanced x
    rw [Ledger.shares_add, Multiset.count_add] at hx
    rw [hx, World.references, add_right_comm, add_assoc]
  have hclones : ∀ (o : ObjectId) c, w.objects[o]? = some c →
      c.clones = w.clonesHeld o + L.shares.count (.object o) := fun o c hc => by
    simpa [World.recorded, hc, w.references_object] using hbalanced (.object o)
  have horigins : ∀ (o : ObjectId) c, w.objects[o]? = some c → c.origins = w.standingFor o :=
    fun o c hc => by simpa [hc, World.standingFor] using ht o
  refine ⟨hclones, horigins, fun g d hd => ?_, fun o ho => ?_⟩
  · simpa [World.recorded, hd, w.references_origin] using hbalanced (.origin g)
  · obtain ⟨c, hc⟩ : ∃ c, w.objects[o]? = some c := ⟨_, Array.getElem?_eq_getElem ho⟩
    rw [← w.standingFor_pos, ← hclones o c hc, ← horigins o c hc]
    simp [World.lives, hc, ObjectCell.gone]
    omega

/-- If nobody holds a copy then the number of copies is zero, since it is the number of copies that
are held. A store that has been deleted holds nothing. -/
theorem released_of_unheld (hw : Invariant L w) (hc : w.Counted (Ledger.shares L)) {g : Nat}
    (hg : w.Unheld (Ledger.shares L) g) {d : OriginCell} (hd : w.origins[g]? = some d) :
    d.copies = 0 := by
  have hheld : w.copiesHeld g = 0 := by
    refine Nat.eq_zero_of_not_pos fun hpos => ?_
    obtain ⟨s, c, hc, hcount⟩ := total_pos.mp hpos
    have hmem := List.count_pos_iff.mp hcount
    cases hguest : c.guest with
    | none =>
      rw [(hw.sound.hosted.vacant s c hc hguest).2] at hmem
      cases hmem
    | some _ => exact hg.stores s c hc (by simp [hguest]) hmem
  rw [hc.copies g d hd, hheld, Multiset.count_eq_zero_of_notMem hg.threads]

/-- All origins of the object are released by the lemma above, so nothing is left that it could live
for. -/
theorem dropped_of_unreferenced (hw : Invariant L w) (hc : w.Counted (Ledger.shares L))
    {o : ObjectId} (ho : o < w.objects.size) (h : w.Unreferenced (Ledger.shares L) o) :
    w.dropped o = true := by
  have hlives := (hc.lives o ho).not.mpr (by
    rintro (hpos | ⟨g, d, hd, hobject, hpos⟩)
    · rw [h.clones, Multiset.count_eq_zero_of_notMem h.threads] at hpos
      exact Nat.lt_irrefl _ hpos
    · exact Nat.ne_of_gt hpos (hw.released_of_unheld hc (h.origins g d hd hobject) hd))
  simpa [World.lives, World.dropped, Array.getElem?_eq_getElem ho] using hlives

end Invariant

namespace Threads

variable {κ : Type} {t : Threads κ}

/-- It begins with a world that has no objects and no origins. Hence all of them were new at some
time, and were there then. -/
theorem Safe.keepsObjects (h : t.Safe) (hc : t.Confined) (hobjects : t.world.objects = #[])
    (horigins : t.world.origins = #[]) (order : List Nat) : t.KeepsObjects order := by
  have htied := h.tied hc order (by simp [Tied, hobjects, horigins])
  have hdropped : ∀ o, t.passages (·.lives o) (·.dropped o) order =
      if (t.run order).world.dropped o then 1 else 0 := fun o => by
    have hpassages := h.passages_add hc order (a := (·.objects)) (p := (·.gone))
      (q := fun c => !c.gone) (fun _ => rfl) (fun _ _ hages => hages.objects) o
    -- At the beginning there is no object that could have been dropped.
    rw [hobjects] at hpassages
    exact hpassages
  have hreleased : ∀ g, t.passages (·.standing g) (·.released g) order =
      if (t.run order).world.released g then 1 else 0 := fun g => by
    have hpassages := h.passages_add hc order (a := (·.origins)) (p := (·.copies = 0))
      (q := (0 < ·.copies)) (fun d => by simp [Nat.pos_iff_ne_zero])
      (fun _ _ hages => hages.origins) g
    rw [horigins] at hpassages
    exact hpassages
  have haccounts : ∀ L, Invariant L (t.run order).world → t.Accounts order (Ledger.shares L) :=
    fun L hw => by
      have hcounted := hw.counted htied
      refine ⟨hcounted, fun g hg hunheld => ?_, fun o ho hnone => ?_⟩
      · have hd := Array.getElem?_eq_getElem hg
        have hreturned : (t.run order).world.released g = true := by
          rw [World.released, hd]
          simpa using hw.released_of_unheld hcounted hunheld hd
        rw [hreleased, if_pos hreturned]
      · rw [hdropped, if_pos (hw.dropped_of_unreferenced hcounted ho hnone)]
  have hsafe := h.run order
  obtain ⟨Ls, hkept⟩ := id hsafe
  refine ⟨⟨Ls, hkept, haccounts _ hkept.invariant⟩, fun hover => haccounts 0 (hsafe.over hover),
    fun i β f next hi => ⟨?_, fun e he => hsafe.covered hi he⟩, hdropped, hreleased⟩
  obtain ⟨⟨e, -, he⟩, -⟩ := hc.run order _ (List.mem_of_getElem? hi)
  exact ⟨e, he⟩

end Threads

/-- Whatever the programs of an embedder do with host objects, in whatever order their threads take
their steps, and whenever collectors let go of copies that stores hold: objects and origins are counted
right, nothing is used or let go of that is not there, each origin is released once, and each object is
dropped once, when there is nothing left that refers to it. -/
theorem Embedder.objects_kept {κ : Type} (embedder : Embedder κ) (depth : Nat)
    (programs : List (Program κ Unit)) (collections : List (List (Nat × Nat))) (order : List Nat) :
    (embedder.startCollected depth programs collections).KeepsObjects order :=
  (embedder.safe_startCollected depth programs collections).keepsObjects
    (embedder.confined_startCollected depth programs collections) rfl rfl order

end WasmHost.Host
