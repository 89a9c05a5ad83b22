import WasmHost.Proofs.Storage

/-!
# What is refused

An operation that is given an object of another store never ends with a value. It panics over the
object, unless one of its earlier checks has failed before; `Act.Refused` says this of the run of an
action, for the errors that those checks may give. Every operation obtains the context of its store
and looks at the objects that it was given before it does anything with one of them.

What has to be excluded is that an object of one store is *used* in another, as if its place were a
place there. The check is in one function, which every operation calls on every object that it is
given; so it would be enough to look at the places where objects are turned into places. But the
order matters as well. If an operation did something first and found out about the object later, it
would have to undo what it had done. So each operation is followed up to the check, and all that
comes before is named: draining the queue of the store, and checks that depend on nothing but the
arguments and the types.

`E` stands for the errors that such earlier checks may give. With an `E` that nothing satisfies,
being refused means to panic (`panics`); with another one it is "panics, or fails with one of
these". The lemmas are stated for any `E` that has what the earlier checks of the operation may
give, and where there are none, for any `E` at all.
-/

namespace WasmHost.Host

open Act

variable {κ σ α β : Type}

/-! ## Being refused

Rules for following an action up to the check. Whatever is done on the way out leaves the refusal as
it is. -/

/-- An end over an object of another store, or because of an earlier error. -/
def Outcome.Refuses (E : Error → Prop) : Outcome α → Prop
  | .panic p => p = .text foreignMessage
  | .failure e => E e
  | _ => False

/-- An action run from a world is refused. -/
def Act.Refused (E : Error → Prop) (m : Act κ σ α) (w : World κ σ) : Prop := (m.run w).1.Refuses E

namespace Act.Refused

variable {E E' : Error → Prop} {m : Act κ σ α} {w w' : World κ σ}

theorem panic : Refused E (Act.panic (.text foreignMessage) : Act κ σ α) w := rfl

theorem fail {e : Error} (h : E e) : Refused E (Act.fail e : Act κ σ α) w := h

theorem mono (h : Refused E m w) (hE : ∀ e, E e → E' e) : Refused E' m w := by
  unfold Refused at h ⊢
  cases hr : (m.run w).1 with
  | failure e => exact hE e (by simpa [Outcome.Refuses, hr] using h)
  | panic p => simpa [Outcome.Refuses, hr] using h
  | _ => simp [Outcome.Refuses, hr] at h

/-- What is refused is not gone on with, and what is done about it leaves it at that. -/
theorem after {k : Outcome α → Act κ σ β} (h : Refused E m w)
    (hk : ∀ o : Outcome α, o.Refuses E → ∀ w, (k o).Refused E w) : Refused E (m.after k) w := by
  unfold Refused
  rw [run_after]
  exact hk _ h _

theorem here {m : Act κ σ β} {k : β → Act κ σ α} (h : Refused E m w) : Refused E (m >>= k) w := by
  refine h.after (k := (·.go k)) fun o ho w => ?_
  cases o with
  | failure e => exact ho
  | panic p => exact ho
  | _ => exact ho.elim

/-- Something is done before. -/
theorem first {m : Act κ σ β} {k : β → Act κ σ α} {b : β} (hm : m.run w = (.value b, w'))
    (hk : Refused E (k b) w') : Refused E (m >>= k) w := by
  unfold Refused
  rw [run_bind_value hm]
  exact hk

/-- The world is looked at before. -/
theorem looking {k : World κ σ → Act κ σ α} (hk : Refused E (k w) w) :
    Refused E (Act.world >>= k) w :=
  first (b := w) rfl hk

/-- What is there is found before. -/
theorem found {o : Option β} {b : β} {k : β → Act κ σ α} (f : Fault) (ho : o = some b)
    (hk : Refused E (k b) w) : Refused E (Act.orAbort f o >>= k) w := by
  subst ho
  exact first (b := b) rfl hk

/-- Something is done afterwards, and gives a value. -/
theorem cleanup {c : Act κ σ Unit} (hc : Settling c) {k : Act κ σ α}
    (hk : ∀ w, Refused E k w) (w : World κ σ) : Refused E (c.after (·.go fun _ => k)) w := by
  obtain ⟨u, w', hrun, -⟩ := hc w
  exact first (m := c) (k := fun _ => k) hrun (hk w')

/-- What is done at the end leaves it at that. -/
theorem released {c : Act κ σ Unit} (hc : Settling c) {k : Outcome α → Act κ σ α} (h : Refused E m w)
    (hk : ∀ o : Outcome α, o.Refuses E → k o = c.after (·.go fun _ => .done o)) :
    Refused E (m.after k) w := by
  refine h.after fun o ho w => ?_
  rw [hk o ho]
  exact cleanup hc (k := .done o) (fun _ => ho) w

theorem ensuring {c : Act κ σ Unit} (hc : Settling c) (h : Refused E m w) :
    Refused E (Act.ensuring c m) w := by
  refine h.released hc fun o ho => ?_
  cases o with
  | failure e => rfl
  | panic p => rfl
  | _ => exact ho.elim

theorem onUnwind {c : Act κ σ Unit} (hc : Settling c) (h : Refused E m w) :
    Refused E (Act.onUnwind c m) w := by
  refine h.released hc fun o ho => ?_
  cases o with
  | failure e => rfl
  | panic p => rfl
  | _ => exact ho.elim

/-- An earlier check, and what comes after it. -/
theorem guard {c : Prop} {_ : Decidable c} {e : Error} {k : Unit → Act κ σ α} (he : E e)
    (hk : Refused E (k ()) w) : Refused E (if c then (Act.fail e >>= k) else k ()) w := by
  split
  · exact here (fail he)
  · exact hk

theorem ofExcept {r : Except Error β} {k : β → Act κ σ α} (he : ∀ e, r = .error e → E e)
    (hk : ∀ b, r = .ok b → Refused E (k b) w) : Refused E (Act.ofExcept r >>= k) w := by
  cases r with
  | error e => exact here (fail (he e rfl))
  | ok b => exact hk b rfl

/-- Where nothing is checked before, there is a panic. -/
theorem panics (h : Refused (fun _ => False) m w) :
    ∃ w', m.run w = (.panic (.text foreignMessage), w') := by
  unfold Refused at h
  cases hr : m.run w with
  | mk o w' =>
    rw [hr] at h
    cases o with
    | panic p => exact ⟨w', by rw [show p = _ from h]⟩
    | _ => exact h.elim

end Act.Refused

/-! ## Objects of other stores -/

/-- A handle is owned, and belongs to another store. -/
def World.Foreign (w : World κ σ) (s : Nat) (h : Handle) : Prop :=
  ∃ c, w.heap.get? h = some c ∧ 0 < c.shares ∧ c.store ≠ s

/-- A value is a function of another store. -/
def World.ForeignVal (w : World κ σ) (s : Nat) (v : Val) : Prop :=
  ∃ h, v = .funcref (some h) ∧ w.Foreign s h

section Conversions

variable {E : Error → Prop} {w : World κ σ} {s : Nat} {h : Handle} {v : Val} {vs : List Val}

theorem check_refused (hf : w.Foreign s h) : (check s h : Act κ σ HandleCell).Refused E w := by
  obtain ⟨c, hc, hpos, hs⟩ := hf
  refine .first (run_cell hc hpos) ?_
  rw [if_neg hs]
  exact .panic

theorem place_refused (hf : w.Foreign s h) : (place s h : Act κ σ Guest.Place).Refused E w :=
  .here (check_refused hf)

theorem funcPlace_refused (hf : w.Foreign s h) : (funcPlace s h : Act κ σ Nat).Refused E w :=
  .here (place_refused hf)

theorem pack_refused (hf : w.ForeignVal s v) : (pack s v : Act κ σ (Packed s)).Refused E w := by
  obtain ⟨h, rfl, hf⟩ := hf
  exact .here (funcPlace_refused hf)

/-- Values are packed in order; those before the first that is refused are released again. -/
theorem packAll_refused (hvs : ∀ v ∈ vs, (∃ x, w.Means s v x) ∨ w.ForeignVal s v)
    (hf : ∃ v ∈ vs, w.ForeignVal s v) : (packAll s vs : Act κ σ (List (Packed s))).Refused E w := by
  induction vs generalizing w with
  | nil => simp at hf
  | cons v vs ih =>
    -- Either this value is the first that is refused, or it is packed, and the first one is among
    -- the rest.
    by_cases hv : w.ForeignVal s v
    · exact .here (pack_refused hv)
    · obtain ⟨x, hx⟩ := (hvs v (List.mem_cons_self ..)).resolve_right hv
      obtain ⟨p, w₁, hrun, -, -, hheap⟩ := run_pack hx
      have hsame : ∀ u, w.ForeignVal s u → w₁.ForeignVal s u := by
        rintro u ⟨h, rfl, hu⟩
        exact ⟨h, rfl, by rwa [World.Foreign, hheap]⟩
      refine .first hrun (.here (.onUnwind (releasePacked_settling p) (ih (fun u hu => ?_) ?_)))
      · exact (hvs u (List.mem_cons_of_mem _ hu)).imp (fun ⟨y, hy⟩ => ⟨y, hy.of_heap hheap⟩) (hsame u)
      · obtain ⟨u, hu, hfu⟩ := hf
        rcases List.mem_cons.mp hu with rfl | hu
        · exact absurd hfu hv
        · exact ⟨u, hu, hsame u hfu⟩

end Conversions

/-! ## Operations on one object

These begin with the context and the check, and nothing is looked at before; so one lemma serves
them all. -/

variable [Keeper κ σ] {E : Error → Prop} {R L : Ledger κ} {w : World κ σ} {s : Nat} {h : Handle}

namespace Invariant

/-- What is owned is an item of the store, or an object of another one. -/
theorem item_cases (hw : Invariant (R + L) w) {kind : ItemKind}
    (hx : L.Has (.handle h (.item kind))) (s : Nat) :
    (∃ p, p.kind = kind ∧ w.ItemHandle s h p) ∨ w.Foreign s h := by
  obtain ⟨c, hc, hsort, hpos⟩ := World.exists_handle (hw.pos hx)
  by_cases hs : c.store = s
  · -- A handle belongs to the store that its target is in.
    have hpair := hw.sound.queued.paired h c hc
    obtain ⟨store, target, shares, number⟩ := c
    subst hs
    cases target with
    | item t p =>
      obtain rfl : t = store := hpair
      exact .inl ⟨p, by simpa [Target.sort] using hsort, _, hc, hpos, rfl, rfl⟩
    | _ => simp [Target.sort] at hsort
  · exact .inr ⟨c, hc, hpos, hs⟩

/-- What refers to something that is owned is a value of the store, or a function of another one. -/
theorem val_cases (hw : Invariant (R + L) w) {v : Val} (hv : ∀ x ∈ v.shares, L.Has x) (s : Nat) :
    (∃ x, w.Means s v x) ∨ w.ForeignVal s v := by
  rcases v with x | x | x | x | (_ | h) | o
  case funcref.some =>
    have hx : L.Has (.handle h (.item .func)) := hv _ (by simp [Val.shares, Val.capture?]; rfl)
    rcases hw.item_cases hx s with ⟨p, hp, hitem⟩ | hf
    · obtain ⟨i, rfl⟩ := Guest.Place.exists_func hp
      exact .inl ⟨_, .func hitem⟩
    · exact .inr ⟨h, rfl, hf⟩
  all_goals exact .inl ⟨_, by constructor⟩

/-- What an own object stands for is there. -/
theorem within (hw : Invariant L w) {p : Guest.Place} (hitem : w.ItemHandle s h p) {g : Guest.Store}
    (hg : w.guest? s = some g) : p.Within g := by
  obtain ⟨c, hc, -, -, htarget⟩ := hitem
  have hpresent := hw.sound.queued.present h c hc
  rw [htarget] at hpresent
  exact hpresent g hg

theorem foreign_drain (hw : Invariant (R + L) w) (hf : w.Foreign s h) : (w.drain s).Foreign s h := by
  obtain ⟨c, hc, hpos, hs⟩ := hf
  exact ⟨c, (hw.sound.drain_spares s).shared h c hc hpos, hpos, hs⟩

/-- Once the context is obtained, an object of another store is refused. -/
theorem context_refused (hw : Invariant (R + L) w) (hf : w.Foreign s h) {m : Act κ σ α}
    (hm : ∀ w' : World κ σ, w'.Foreign s h → m.Refused E w') :
    (context s >>= fun _ => m).Refused E w :=
  .first (run_context s w) (hm _ (hw.foreign_drain hf))

end Invariant

section Objects

variable (hw : Invariant (R + L) w) (hf : w.Foreign s h)

include hw hf

theorem Global.get_refused : (Global.get s h : Act κ σ Val).Refused E w :=
  hw.context_refused hf fun _ hf => .here (.here (place_refused hf))

theorem Global.set_refused (v : Val) : (Global.set s h v : Act κ σ Unit).Refused E w :=
  hw.context_refused hf fun _ hf => .here (.here (place_refused hf))

theorem Memory.pages_refused : (Memory.pages s h : Act κ σ Nat).Refused E w :=
  hw.context_refused hf fun _ hf => .here (.here (place_refused hf))

theorem Memory.size_refused : (Memory.size s h : Act κ σ Nat).Refused E w :=
  hw.context_refused hf fun _ hf => .here (.here (place_refused hf))

theorem Memory.grow_refused (delta : Nat) : (Memory.grow s h delta : Act κ σ Nat).Refused E w :=
  hw.context_refused hf fun _ hf => .here (.here (place_refused hf))

theorem Memory.read_refused (offset len : Nat) :
    (Memory.read s h offset len : Act κ σ (List UInt8)).Refused E w :=
  .here (hw.context_refused hf fun _ hf => .here (.here (place_refused hf)))

theorem Memory.write_refused (offset : Nat) (bytes : List UInt8) :
    (Memory.write s h offset bytes : Act κ σ Unit).Refused E w :=
  hw.context_refused hf fun _ hf => .here (.here (place_refused hf))

theorem Memory.withData_refused (f : Guest.Memory → α × Guest.Memory) :
    (Memory.withData s h f : Act κ σ α).Refused E w :=
  hw.context_refused hf fun _ hf => .here (.here (place_refused hf))

theorem Table.size_refused : (Table.size s h : Act κ σ Nat).Refused E w :=
  hw.context_refused hf fun _ hf => .here (.here (place_refused hf))

theorem Table.get_refused (index : Nat) : (Table.get s h index : Act κ σ (Option Val)).Refused E w :=
  hw.context_refused hf fun _ hf => .here (.here (place_refused hf))

theorem Table.set_refused (index : Nat) (v : Val) :
    (Table.set s h index v : Act κ σ Unit).Refused E w :=
  hw.context_refused hf fun _ hf => .here (.here (place_refused hf))

theorem Table.grow_refused (delta : Nat) (v : Val) :
    (Table.grow s h delta v : Act κ σ Nat).Refused E w :=
  hw.context_refused hf fun _ hf => .here (.here (place_refused hf))

theorem Func.call_refused (host : Runner κ σ) (args : List Val) :
    (Func.call host s h args).Refused E w :=
  hw.context_refused hf fun _ hf => .here (funcPlace_refused hf)

theorem Func.type_refused : (Func.type s h : Act κ σ Signature).Refused E w :=
  hw.context_refused hf fun _ hf => .here (funcPlace_refused hf)

theorem Instance.getExport_refused (name : String) :
    (Instance.getExport s h name : Act κ σ (Option Item)).Refused E w :=
  hw.context_refused hf fun _ hf => .here (.here (check_refused hf))

theorem Instance.getFunc_refused (name : String) :
    (Instance.getFunc s h name : Act κ σ (Option Handle)).Refused E w :=
  .here (Instance.getExport_refused hw hf name)

theorem Instance.exports_refused :
    (Instance.exports s h : Act κ σ (List (String × Item))).Refused E w :=
  hw.context_refused hf fun _ hf => .here (.here (check_refused hf))

theorem Linker.defineInstance_refused (l : Nat) (module : String) :
    (Linker.defineInstance s l module h : Act κ σ Unit).Refused E w :=
  .here (Instance.exports_refused hw hf)

/-- A wrapper is let go of, though it is refused to be closed. -/
theorem close_refused : (close s h : Act κ σ Unit).Refused E w :=
  hw.context_refused hf fun _ hf => .here (.onUnwind (releaseHandle_settling h) (check_refused hf))

/-- Only the guest part is looked at before. -/
theorem Item.type_refused {item : Item} {g : Guest.Store} (hg : w.guest? s = some g)
    (hitem : item.handle = h) :
    (Item.type s item : Act κ σ ItemType).Refused E w := by
  subst hitem
  refine .first (run_context s w) ?_
  refine .first (run_guest (((w.drain_settles s).guests s).trans hg)) ?_
  exact .here (place_refused (hw.foreign_drain hf))

end Objects

/-! ## Operations on values -/

section Values

variable {v : Val} (hw : Invariant (R + L) w) (hf : w.ForeignVal s v)

include hw hf

omit hw in
theorem World.ForeignVal.drain (hw : Invariant (R + L) w) : (w.drain s).ForeignVal s v := by
  obtain ⟨h, rfl, hf⟩ := hf
  exact ⟨h, rfl, hw.foreign_drain hf⟩

/-- The kind of the first value is looked at before. -/
theorem Global.create_refused {type : GlobalType} (he : E (.wrongKind type.content v.kind)) :
    (Global.create s type v : Act κ σ Handle).Refused E w := by
  unfold Global.create
  exact .guard he (.first (run_context s w) (.here (pack_refused (hf.drain hw))))

theorem Table.create_refused {type : TableType} (he : E (.wrongKind type.element v.kind)) :
    (Table.create s type v : Act κ σ Handle).Refused E w := by
  unfold Table.create
  exact .guard he (.first (run_context s w) (.here (pack_refused (hf.drain hw))))

variable {g : Guest.Store} (hg : w.guest? s = some g)

include hg

/-- A constant refuses every value, and a variable those of another kind. -/
theorem Global.set_value_refused {i : Nat} (hitem : w.ItemHandle s h (.global i))
    (hconst : E (.engine .immutableGlobal)) (hkind : ∀ k, E (.wrongKind k v.kind)) :
    (Global.set s h v : Act κ σ Unit).Refused E w := by
  have hat := Global.run_at_drain hw hitem hg (Array.getElem?_eq_getElem (hw.within hitem hg))
  refine .first (run_context s w) (.first hat (.guard hconst (.guard (hkind _) ?_)))
  exact .here (pack_refused (hf.drain hw))

theorem Table.set_value_refused {i : Nat} (hitem : w.ItemHandle s h (.table i))
    (hkind : ∀ k, E (.wrongKind k v.kind)) (index : Nat) :
    (Table.set s h index v : Act κ σ Unit).Refused E w := by
  have hat := Table.run_at_drain hw hitem hg (Array.getElem?_eq_getElem (hw.within hitem hg))
  refine .first (run_context s w) (.first hat (.guard (hkind _) ?_))
  exact .here (pack_refused (hf.drain hw))

theorem Table.grow_value_refused {i : Nat} (hitem : w.ItemHandle s h (.table i))
    (hkind : ∀ k, E (.wrongKind k v.kind)) (delta : Nat) :
    (Table.grow s h delta v : Act κ σ Nat).Refused E w := by
  have hat := Table.run_at_drain hw hitem hg (Array.getElem?_eq_getElem (hw.within hitem hg))
  refine .first (run_context s w) (.first hat (.guard (hkind _) ?_))
  exact .here (pack_refused (hf.drain hw))

end Values

/-- The number and the kinds of arguments are looked at before. -/
theorem Func.call_args_refused (host : Runner κ σ) {g : Guest.Store} {i : Nat} {args : List Val}
    (hw : Invariant (R + L) w) (hg : w.guest? s = some g) (hfunc : w.FuncHandle s h i)
    (hheld : ∀ x ∈ Val.sharesAll args, L.Has x) (hf : ∃ v ∈ args, w.ForeignVal s v)
    (he : ∀ type e, checkParams type args = .error e → E e) :
    (Func.call host s h args).Refused E w := by
  have hdrained := hw.drain s
  have hfind := run_funcPlace (hdrained.2 h _ hfunc)
  have htype : (Func.typeAt s i : Act κ σ Signature).run (w.drain s) = (.value _, w.drain s) :=
    run_bind_value (run_guest (((w.drain_settles s).guests s).trans hg))
  refine .first (run_context s w) (.first hfind (.first htype ?_))
  refine .ofExcept (fun e h => he _ e h) fun _ _ => .here (packAll_refused (fun v hv => ?_) ?_)
  · exact hdrained.1.val_cases (fun x hx => hheld x (List.mem_flatMap.mpr ⟨v, hv, hx⟩)) s
  · exact hf.imp fun v hv => ⟨hv.1, hv.2.drain hw⟩

/-! ## Instances -/

theorem Instance.checkAll_refused {items : List Item} (hw : Invariant (R + L) w)
    (hi : ∀ x ∈ Item.sharesAll items, L.Has x) (hf : ∃ i ∈ items, w.Foreign s i.handle) :
    (Instance.checkAll s items : Act κ σ Unit).Refused E w := by
  induction items with
  | nil => simp at hf
  | cons item items ih =>
    have hx : L.Has (.handle item.handle (.item item.kind)) := hi _ (List.mem_cons_self ..)
    -- Again, this item is refused, or it is passed over and the refusal comes later.
    rcases hw.item_cases hx s with ⟨p, -, c, hc, hpos, hs, -⟩ | hforeign
    · subst hs
      refine .first (run_check hc hpos) (ih (fun x hx => hi x (List.mem_cons_of_mem _ hx)) ?_)
      obtain ⟨i, hi, hforeign⟩ := hf
      rcases List.mem_cons.mp hi with rfl | hi
      · obtain ⟨c', hc', -, hs⟩ := hforeign
        obtain rfl : c = c' := Option.some.inj (hc.symm.trans hc')
        exact absurd rfl hs
      · exact ⟨i, hi, hforeign⟩
    · exact .here (check_refused hforeign)

/-- The engine and the number of imports are looked at before. -/
theorem Instance.create_refused (host : Runner κ σ) {module : Nat} {items : List Item}
    (hw : Invariant (R + L) w) (hs : L.Has (.store s)) (hm : L.Has (.module module))
    (hi : ∀ x ∈ Item.sharesAll items, L.Has x) (hf : ∃ i ∈ items, w.Foreign s i.handle)
    (hengine : E (.engine .foreignEngine)) (hcount : ∀ n, E (.importCount n items.length)) :
    (Instance.create host s module items).Refused E w := by
  have hdrained := (hw.drain s).1
  obtain ⟨cell, hcell, -⟩ := elim_pos.mp (hdrained.pos hm)
  obtain ⟨store, hstore, -⟩ := elim_pos.mp (hdrained.pos hs)
  refine .first (run_context s w) (.looking (.found .stuck hcell (.found .stuck hstore ?_)))
  refine .guard hengine (.guard (hcount _) (.here (checkAll_refused hdrained hi ?_)))
  exact hf.imp fun i h => ⟨h.1, hw.foreign_drain h.2⟩

/-! ## Linkers -/

omit [Keeper κ σ] in
theorem World.Foreign.retainHandle (hf : w.Foreign s h) (a : Handle) :
    (w.retainHandle a).Foreign s h := by
  obtain ⟨c, hc, hpos, hs⟩ := hf
  by_cases ha : h = a
  · exact ⟨{ c with shares := c.shares + 1 }, by simp [World.retainHandle, Slab.get?_modify, ha ▸ hc, ha],
      Nat.succ_pos _, hs⟩
  · exact ⟨c, by simp [World.retainHandle, Slab.get?_modify, ha, hc], hpos, hs⟩

omit [Keeper κ σ] in
theorem World.Foreign.retainItems (hf : w.Foreign s h) (items : List Item) :
    (w.retainItems items).Foreign s h := by
  induction items generalizing w with
  | nil => exact hf
  | cons i items ih => exact ih (hf.retainHandle i.handle)

/-- What the definitions of a linker give for the imports of a module. -/
def World.Resolves (w : World κ σ) (l module : Nat) (items : List Item) : Prop :=
  ∃ c m, w.linkers[l]? = some c ∧ w.modules[module]? = some m ∧
    Definitions.resolve c.definitions m.compiled.imports = .ok items

/-- The imports that a linker finds are refused as if they had been given. -/
theorem Linker.instantiate_refused (host : Runner κ σ) {l module : Nat} {items : List Item}
    (hw : Invariant (R + L) w) (hs : L.Has (.store s)) (hl : L.Has (.linker l))
    (hm : L.Has (.module module)) (hitems : w.Resolves l module items)
    (hf : ∃ i ∈ items, w.Foreign s i.handle) (hengine : E (.engine .foreignEngine))
    (hcount : ∀ n, E (.importCount n items.length)) :
    (Linker.instantiate host s l module).Refused E w := by
  obtain ⟨c, m, hc, hm', hresolve⟩ := hitems
  have htake : (take l (Definitions.resolve · m.compiled.imports) : Act κ σ (List Item)).run w =
      (.value items, w.retainItems items) := run_take_ok hc hresolve
  -- The items that are taken belong to whoever takes them, so they are owned while the instance is
  -- made.
  obtain ⟨N, hw', hN⟩ := Safe.run (take_meets hl fun _ _ h => Linker.resolve_mem _ h) hw
  rw [htake] at hw' hN
  obtain ⟨-, rfl⟩ := hN rfl
  refine .looking (.found .stuck hm' (.first htake (.ensuring ?_ ?_)))
  · exact releaseWrappers_settling _
  · exact Instance.create_refused host hw' (hs.add _) (hm.add _)
      (fun x hx => Ledger.has_owns_add hx _)
      (hf.imp fun i h => ⟨h.1, h.2.retainItems items⟩) hengine hcount

theorem Linker.defineModule_refused (host : Runner κ σ) {l module : Nat} {items : List Item}
    (hw : Invariant (R + L) w) (hs : L.Has (.store s)) (hl : L.Has (.linker l))
    (hm : L.Has (.module module)) (hitems : w.Resolves l module items)
    (hf : ∃ i ∈ items, w.Foreign s i.handle) (hengine : E (.engine .foreignEngine))
    (hcount : ∀ n, E (.importCount n items.length)) (name : String) :
    (Linker.defineModule host s l name module).Refused E w :=
  .here (Linker.instantiate_refused host hw hs hl hm hitems hf hengine hcount)

end WasmHost.Host
