import WasmHost.Proofs.Effects
import WasmHost.Proofs.Senses

/-!
# Linkers as maps

To its user a linker is a *book*: a map from pairs of names to items, with a switch. While the switch
is off, a pair that has an item keeps it. Each operation on a linker offers items under names of a
module, and the book records them one after the other, up to the first name that is taken. So an item
is found under a pair after any sequence of operations if it is what the last successful definition of
that pair gave it.

What an operation offers may take long to find out: exports are handed out, and an instance may be made
and run first. None of that changes the book, as long as the closures that run meanwhile leave the
linker to the operation. This is what it means to operate on a linker: nobody else has it then.

The list of definitions that a linker keeps is not what is of interest. In which order it has them,
and whether a definition is replaced in its place or appended, cannot be seen from outside. So the
book is the abstraction, and `get?_put` is what ties it to the list.

The module is in three parts. The first is about books alone and has no worlds in it; the third says
how a lookup is carried out. The second has to show that the book of one linker is the business of
no one but those who operate on it. For this the list of effects is used: only two of them, defining
and allowing to shadow, change what a linker defines, and they name the linker.
-/

namespace WasmHost.Host

open Act

variable {κ σ α : Type}

/-! ## Books

The two views of a sequence of definitions, as what is recorded of it and as the last one for each
pair, are both needed. Operations record; those who ask look for the last. -/

namespace Definitions

theorem get?_put (defs : Definitions) (module name : String) (item : Item) (m n : String) :
    get? (put defs module name item) m n =
      if m = module ∧ n = name then some item else get? defs m n := by
  induction defs with
  | nil =>
    by_cases h : module = m ∧ name = n
    · obtain ⟨rfl, rfl⟩ := h
      simp [get?, put]
    · have hne : ¬(m = module ∧ n = name) := fun hd => h ⟨hd.1.symm, hd.2.symm⟩
      simp [get?, put, h, hne]
  | cons d rest ih =>
    unfold put
    split
    · rename_i hd
      obtain ⟨rfl, rfl⟩ := hd
      by_cases h : m = d.1.1 ∧ n = d.1.2
      · simp [get?, h]
      · have hne : ¬(d.1.1 = m ∧ d.1.2 = n) := fun hd => h ⟨hd.1.symm, hd.2.symm⟩
        simp [get?, h, hne]
    · rename_i hd
      by_cases h : d.1.1 = m ∧ d.1.2 = n
      · obtain ⟨rfl, rfl⟩ := h
        simp [get?, hd]
      · have hcons : ∀ defs : Definitions, get? (d :: defs) m n = get? defs m n := fun defs => by
          simp [get?, h]
        rw [hcons, hcons]
        exact ih

end Definitions

/-- A map from pairs of names to items, and whether the item of a pair may be replaced. -/
@[ext] structure Book where
  items : String → String → Option Item
  shadowing : Bool

namespace Book

/-- The item of one pair is replaced, or added. -/
def put (b : Book) (module name : String) (item : Item) : Book :=
  { b with items := fun m n => if m = module ∧ n = name then some item else b.items m n }

/-- A pair has an item, which may not be replaced. -/
def taken (b : Book) (module name : String) : Bool := !b.shadowing && (b.items module name).isSome

/-- Definitions are recorded in order, up to the first whose pair is taken by then. It gives those that
were recorded, and that pair. -/
def record (b : Book) : Definitions → Definitions × Option (String × String)
  | [] => ([], none)
  | d :: rest =>
    if b.taken d.1.1 d.1.2 then ([], some d.1)
    else
      let (recorded, clash) := (b.put d.1.1 d.1.2 d.2).record rest
      (d :: recorded, clash)

/-- A book with some more definitions. -/
def putAll (b : Book) (defs : Definitions) : Book := defs.foldl (fun b d => b.put d.1.1 d.1.2 d.2) b

variable {b : Book} {d : (String × String) × Item} {rest : Definitions}

theorem record_taken (h : b.taken d.1.1 d.1.2) : b.record (d :: rest) = ([], some d.1) := by
  simp [record, h]

theorem record_untaken (h : ¬ b.taken d.1.1 d.1.2) :
    b.record (d :: rest) = (d :: ((b.put d.1.1 d.1.2 d.2).record rest).1,
      ((b.put d.1.1 d.1.2 d.2).record rest).2) := by
  simp [record, h]

/-- No pair of several definitions is taken when it is its turn. -/
def Admits (b : Book) : Definitions → Prop
  | [] => True
  | d :: rest => b.taken d.1.1 d.1.2 = false ∧ (b.put d.1.1 d.1.2 d.2).Admits rest

/-- What is recorded is all that was offered, or what comes before the first pair that is taken by
then. -/
theorem record_cases (b : Book) (defs : Definitions) :
    (b.record defs = (defs, none) ∧ b.Admits defs) ∨
    ∃ recorded d rest, b.record defs = (recorded, some d.1) ∧ b.Admits recorded ∧
      defs = recorded ++ d :: rest ∧ (b.putAll recorded).taken d.1.1 d.1.2 = true := by
  -- The first definition that is refused is refused by the book that those before it have left.
  induction defs generalizing b with
  | nil => exact .inl ⟨rfl, trivial⟩
  | cons d defs ih =>
    by_cases h : b.taken d.1.1 d.1.2
    · exact .inr ⟨[], d, defs, record_taken h, trivial, rfl, h⟩
    · have hfree := Bool.not_eq_true _ ▸ h
      rw [record_untaken h]
      rcases ih (b.put d.1.1 d.1.2 d.2) with ⟨hr, ha⟩ | ⟨recorded, d', rest, hr, ha, heq, ht⟩
      · exact .inl ⟨by rw [hr], hfree, ha⟩
      · exact .inr ⟨d :: recorded, d', rest, by rw [hr], ⟨hfree, ha⟩, by rw [heq]; rfl, ht⟩

@[simp] theorem shadowing_putAll (b : Book) (defs : Definitions) :
    (b.putAll defs).shadowing = b.shadowing := by
  induction defs generalizing b with
  | nil => rfl
  | cons d defs ih => exact ih (b.put d.1.1 d.1.2 d.2)

/-- What was defined while nothing may be shadowed stays, whatever else is recorded. By induction on
what is offered. -/
theorem items_record (hoff : b.shadowing = false) {m n : String} {item : Item}
    (h : b.items m n = some item) (defs : Definitions) :
    (b.putAll (b.record defs).1).items m n = some item := by
  induction defs generalizing b with
  | nil => exact h
  | cons d defs ih =>
    by_cases ht : b.taken d.1.1 d.1.2
    · rw [record_taken ht]
      exact h
    · rw [record_untaken ht]
      refine ih (b := b.put d.1.1 d.1.2 d.2) hoff ?_
      -- Only another pair can have been recorded: this one is taken.
      have hne : ¬(m = d.1.1 ∧ n = d.1.2) := by
        rintro ⟨rfl, rfl⟩
        simp [taken, hoff, h] at ht
      simpa [put, hne] using h

/-- The item of the last of several definitions of a pair. -/
def last? (defs : Definitions) (m n : String) : Option Item :=
  (defs.reverse.find? fun d => d.1.1 = m ∧ d.1.2 = n).map (·.2)

theorem last?_append (defs defs' : Definitions) (m n : String) :
    last? (defs ++ defs') m n = (last? defs' m n).or (last? defs m n) := by
  simp only [last?, List.reverse_append, List.find?_append]
  cases List.find? _ defs'.reverse <;> rfl

/-- After several definitions a pair has the item of the last of them that was its own. -/
theorem items_putAll (b : Book) (defs : Definitions) (m n : String) :
    (b.putAll defs).items m n = (last? defs m n).or (b.items m n) := by
  induction defs generalizing b with
  | nil => rfl
  | cons d defs ih =>
    refine (ih (b.put d.1.1 d.1.2 d.2)).trans ?_
    -- The first definition counts only if none of the rest is of the same pair.
    rw [← List.singleton_append, last?_append]
    by_cases h : m = d.1.1 ∧ n = d.1.2
    · simp [put, h, last?]
    · have hne : ¬(d.1.1 = m ∧ d.1.2 = n) := fun hd => h ⟨hd.1.symm, hd.2.symm⟩
      simp [put, h, last?, hne]

end Book

/-- The book that a linker is. -/
def World.book? (w : World κ σ) (l : Nat) : Option Book :=
  (w.linkers[l]?).map fun c => ⟨Definitions.get? c.definitions, c.shadowing⟩

/-- An effect leaves what a linker defines alone. -/
def Effect.SparesLinker (l : Nat) : Effect → Prop
  | define l' .. | allowShadowing l' _ => l' ≠ l
  | _ => True

instance (l : Nat) : Effect.Lenient (Effect.SparesLinker l) where
  routine e he := by cases e <;> first | exact trivial | exact he.elim

namespace World

variable {w w' : World κ σ} {l : Nat} {b : Book}

theorem Apart.book? (h : w.Apart w') (hb : w.book? l = some b) : w'.book? l = some b := by
  obtain ⟨c, hc, rfl⟩ := Option.map_eq_some_iff.mp hb
  obtain ⟨c', hc', hd, hs⟩ := h.linkers l c hc
  simp [World.book?, hc', hd, hs]

theorem linkers_reduceObject (w : World κ σ) (o : ObjectId) (f : ObjectCell → ObjectCell) :
    (w.reduceObject o f).2.linkers = w.linkers := by
  obtain ⟨objects, h⟩ := w.reduceObject_eq o f
  rw [h]

theorem define_of_ne (w : World κ σ) {l' : Nat} (hl : l' ≠ l) (module name : String) (item : Item) :
    (w.define l' module name item).2.book? l = w.book? l := by
  unfold define
  split
  · rfl
  · dsimp only
    split
    · rfl
    · simp [World.book?, getElem?_modify_of_ne _ _ l hl.symm]

theorem book?_apply {e : Effect} (he : e.SparesLinker l) (w : World κ σ) :
    (e.apply w).book? l = w.book? l := by
  have hlinkers : ∀ w' : World κ σ, w'.linkers = w.linkers → w'.book? l = w.book? l := fun w' h => by
    rw [World.book?, World.book?, h]
  cases e with
  | define l' module name item => exact w.define_of_ne he module name item
  | allowShadowing l' allow =>
    simp [Effect.apply, World.book?, getElem?_modify_of_ne _ _ l (Ne.symm he)]
  | retainObjectOf g =>
    refine hlinkers _ ?_
    unfold Effect.apply retainObjectOf
    dsimp only
    split <;> rfl
  | dismissObject o => exact hlinkers _ (w.linkers_reduceObject o _)
  | dismissOrigin g =>
    obtain ⟨objects, origins, h⟩ := w.dismissOrigin_eq g
    exact hlinkers (w.dismissOrigin g).2 (by rw [h])
  | copyHeld s g =>
    refine hlinkers _ ?_
    unfold Effect.apply copyHeld
    dsimp only
    split <;> rfl
  | _ => exact hlinkers _ rfl

end World

/-- What leaves a linker alone does not change its book. -/
theorem Act.Confined.book? {m : Act κ σ α} {l : Nat} (hm : m.Confined (Effect.SparesLinker l))
    {w : World κ σ} {b : Book} (hb : w.book? l = some b) : (m.run w).2.book? l = some b := by
  refine hm.run (R := fun w w' => w.book? l = some b → w'.book? l = some b) (fun _ h => h)
    (fun h h' hb => h' (h hb)) (fun e he w w' h hb => ?_) w hb
  exact h.book? ((World.book?_apply he w).trans hb)

/-! ## Looking definitions up

A lookup hands out a copy of the item, which is retained while the linker is taken. -/

namespace Linker

variable {w : World κ σ} {l : Nat} {c : LinkerCell}

theorem run_get?_eq (hc : w.linkers[l]? = some c) (module name : String) :
    (get? l module name).run w = (.value (Definitions.get? c.definitions module name),
      w.retainItems (Definitions.get? c.definitions module name).toList) := by
  refine (run_bind_value (run_take_ok hc rfl)).trans ?_
  exact Prod.ext (congrArg Outcome.value Option.head?_toList) rfl

end Linker

end WasmHost.Host
