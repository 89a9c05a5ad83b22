import WasmHost.Proofs.Rejections

/-!
# Tables as bounded arrays

For the host a table is an array whose length is bounded. The model is a plain list of what the elements
stand for, with the type of the table (`Table.Edit.applied`); a table shows such a list (`Table.Shows`),
and whatever sequence of edits is asked of it, it gives the answers of the list and shows the list that
comes out (`Table.run_edits`). Indices and increments may be any numbers: none is ever cut off.

There are three views of a table: the array of references that the guest has, the values that the
host gets, and what these stand for. A value that the host has got is a new one each time (a new
handle, or a new clone), so sequences of values could not be compared with anything. What they stand
for can, and this is the array that the model edits.

Two things are said that are easily confused. One is about a single operation and is exact: which of
the outcomes it has, in which order the checks are made, and that nothing is changed unless it
succeeds (`Table.Ends`, `Spares`). The other is about sequences: whatever was tried before, the next
edit behaves as the model has it. The second follows from the first by induction, once it is clear
what an edit leaves behind, namely a table that shows the edited array, and a ledger that is no
different.

Indices are natural numbers. The width of the numbers that are passed to the engine is a matter of
the checks, which come before anything is narrowed; so that nothing is cut off is not an assumption,
but the reason why the statements hold for all numbers.
-/

namespace WasmHost.Guest.Table

/-- One element has been replaced. -/
structure Replaced (t : Table) (index : Nat) (r : Ref) (t' : Table) : Prop where
  type : t'.type = t.type
  size : t'.size = t.size
  element : t'.get? index = some r
  others : ∀ j ≠ index, t'.get? j = t.get? j

/-- Elements have been added at the end, all of them the same reference. -/
structure Grown (t : Table) (delta : Nat) (r : Ref) (t' : Table) : Prop where
  type : t'.type = t.type
  size : t'.size = t.size + delta
  old : ∀ j < t.size, t'.get? j = t.get? j
  new : ∀ j, t.size ≤ j → j < t.size + delta → t'.get? j = some r

variable {t : Table} {index : Nat}

theorem replaced_set (h : index < t.size) (r : Ref) :
    t.Replaced index r { t with elements := t.elements.setIfInBounds index r } where
  type := rfl
  size := Array.size_setIfInBounds
  element := by
    have h : index < t.elements.size := h
    simp [get?, h]
  others j hj := Array.getElem?_setIfInBounds_ne hj.symm

theorem grown_append (t : Table) (delta : Nat) (r : Ref) :
    t.Grown delta r { t with elements := t.elements ++ Array.replicate delta r } where
  type := rfl
  size := by simp [size]
  old j hj := Array.getElem?_append_left hj
  new j hle hlt := by
    have hle : t.elements.size ≤ j := hle
    have hlt : j - t.elements.size < delta := by
      have : j < t.elements.size + delta := hlt
      omega
    simp [get?, Array.getElem?_append_right hle, hlt]

/-- The declared maximum is among the limits of growth. -/
theorem le_of_le_sizeLimit {type : TableType} {n : Nat} (h : n ≤ sizeLimit type) :
    n < Nat.pow 2 32 ∧ ∀ m, type.limits.max = some m → n ≤ m.toNat := by
  obtain ⟨hword, hmax⟩ := Nat.le_min.mp h
  refine ⟨Nat.lt_of_le_of_lt hword (by decide), fun m hm => ?_⟩
  simpa [hm] using hmax

end WasmHost.Guest.Table

namespace WasmHost.Host

open Act

/-! ## The plain array

An edit is the same thing for the model and for the table, with senses or with values in it. -/

/-- The kind of the values that stand for something. -/
def Sense.kind : Sense → Kind
  | .i32 _ => .i32
  | .i64 _ => .i64
  | .f32 _ => .f32
  | .f64 _ => .f64
  | .func _ => .funcref
  | .object _ => .externref

theorem World.Means.kind {κ σ : Type} {w : World κ σ} {s : Nat} {v : Val} {x : Sense}
    (h : w.Means s v x) : v.kind = x.kind := by
  cases h <;> rfl

namespace Table

/-- What is asked of a table: one element to be set, or more elements. `α` is what is put in. -/
inductive Edit (α : Type) where
  | set (index : Nat) (v : α)
  | grow (delta : Nat) (v : α)

namespace Edit

variable {α β : Type}

/-- What is put in. -/
def item : Edit α → α
  | .set _ v => v
  | .grow _ v => v

/-- An edit fits a table of a type and a size. -/
def Fits (type : TableType) (size : Nat) : Edit α → Prop
  | .set index _ => index < size
  | .grow delta _ => size + delta ≤ Guest.Table.sizeLimit type

instance (type : TableType) (size : Nat) : (e : Edit α) → Decidable (e.Fits type size)
  | .set _ _ => inferInstanceAs (Decidable (_ < _))
  | .grow _ _ => inferInstanceAs (Decidable (_ ≤ _))

/-- What is said about an edit that does not fit. -/
def fault : Edit α → EngineFault
  | .set _ _ => .tableIndex
  | .grow delta _ => .growTable delta

/-- What is said about an edit that is made: growth tells the size before. -/
def answer (size : Nat) : Edit α → Option Nat
  | .set _ _ => none
  | .grow _ _ => some size

/-- What an edit makes of an array, once it is known what is put in. -/
def onto (x : β) : Edit α → List β → List β
  | .set index _, xs => xs.set index x
  | .grow delta _, xs => xs ++ List.replicate delta x

/-- An edit of a plain array: the answer, and the array that comes out. -/
def applied (type : TableType) (e : Edit Sense) (xs : List Sense) :
    Except Error (Option Nat) × List Sense :=
  if e.item.kind ≠ type.element then (.error (.wrongKind type.element e.item.kind), xs)
  else if e.Fits type xs.length then (.ok (e.answer xs.length), e.onto e.item xs)
  else (.error (.engine e.fault), xs)

/-- Edits of a plain array, one after the other. -/
def appliedAll (type : TableType) :
    List (Edit Sense) → List Sense → List (Except Error (Option Nat)) × List Sense
  | [], xs => ([], xs)
  | e :: es, xs =>
    let (answer, xs) := e.applied type xs
    let (answers, xs) := appliedAll type es xs
    (answer :: answers, xs)

/-- An edit of a table of a store. -/
def run {κ σ : Type} (s : Nat) (a : Handle) : Edit Val → Act κ σ (Option Nat)
  | .set index v => do
    Table.set s a index v
    return none
  | .grow delta v => do return some (← Table.grow s a delta v)

/-- Edits of a table of a store, one after the other, whether they succeed or not. -/
def runAll {κ σ : Type} (s : Nat) (a : Handle) :
    List (Edit Val) → Act κ σ (List (Except Error (Option Nat)))
  | [] => return []
  | e :: es => do
    let answer ← attempt (e.run s a)
    let answers ← runAll s a es
    return answer :: answers

/-- What an edit stands for. -/
inductive Means {κ σ : Type} (w : World κ σ) (s : Nat) : Edit Val → Edit Sense → Prop
  | set {v : Val} {x : Sense} (index : Nat) (hv : w.Means s v x) : Means w s (.set index v) (.set index x)
  | grow {v : Val} {x : Sense} (delta : Nat) (hv : w.Means s v x) :
      Means w s (.grow delta v) (.grow delta x)

theorem Means.item {κ σ : Type} {w : World κ σ} {s : Nat} {e : Edit Val} {e' : Edit Sense}
    (h : Means w s e e') : w.Means s e.item e'.item := by
  cases h <;> assumption

/-- Arrays that agree still agree after an edit. -/
theorem onto_forall₂ {P : α → β → Prop} {γ : Type} {e : Edit γ} {rs : List α} {xs : List β} {r : α}
    {x : β} (h : List.Forall₂ P rs xs) (hr : P r x) : List.Forall₂ P (e.onto r rs) (e.onto x xs) := by
  cases e with
  | set index v =>
    -- One element is replaced in both, at the same index.
    induction h generalizing index with
    | nil => exact .nil
    | cons hd htl ih =>
      cases index with
      | zero => exact .cons hr htl
      | succ index => exact .cons hd (ih index)
  | grow delta v =>
    refine List.rel_append h ?_
    induction delta with
    | zero => exact .nil
    | succ delta ih => exact .cons hr ih

end Edit

end Table

/-! ## What a table shows

A table of numbers cannot be made, so every element is a reference and stands for a function or an
object. -/

variable {κ σ : Type} {w w' : World κ σ} {s i : Nat} {g : Guest.Store} {a : Handle}
  {table : Guest.Table} {v : Val} {x : Sense}

/-- A handle of a store stands for a table of references. -/
structure World.HasTable (w : World κ σ) (s : Nat) (g : Guest.Store) (a : Handle) (i : Nat)
    (table : Guest.Table) : Prop where
  guest : w.guest? s = some g
  item : w.ItemHandle s a (.table i)
  found : g.tables[i]? = some table
  reference : table.type.element.isReference = true

/-- What is of a kind of references stands for one. -/
theorem Sense.reference (h : x.kind.isReference = true) :
    (∃ i, x = .func i) ∨ ∃ o, x = .object o := by
  cases x with
  | func i => exact .inl ⟨i, rfl⟩
  | object o => exact .inr ⟨o, rfl⟩
  | _ => cases h

/-- What is put into a table of references is a reference. -/
theorem World.HasTable.sense (h : w.HasTable s g a i table) (hkind : v.kind = table.type.element)
    (hv : w.Means s v x) : (∃ i, x = .func i) ∨ ∃ o, x = .object o :=
  Sense.reference (by rw [← hv.kind, hkind]; exact h.reference)

namespace Table

/-- A handle of a store stands for a table of a type, whose elements stand for a plain array. -/
def Shows (w : World κ σ) (s : Nat) (a : Handle) (type : TableType) (xs : List Sense) : Prop :=
  ∃ i g table, w.HasTable s g a i table ∧ table.type = type ∧
    List.Forall₂ (fun r x => w.Holds s (.ref r) x) table.elements.toList xs

/-- What is read of a table is a plain array, and reading changes no guest part. -/
structure Reads (w : World κ σ) (s : Nat) (a : Handle) (xs : List Sense) : Prop where
  size : (size s a : Act κ σ Nat).run w = (.value xs.length, w.drain s)
  inside : ∀ (index : Nat) x, xs[index]? = some x →
    ∃ v w', (get s a index : Act κ σ (Option Val)).run w = (.value (some v), w') ∧
      w'.Means s v x ∧ ∀ t, w'.guest? t = w.guest? t
  outside : ∀ index, xs.length ≤ index →
    (get s a index : Act κ σ (Option Val)).run w = (.value none, w.drain s)

/-- How an operation ends that puts something into a table. What comes first decides: a value of another
kind, a function of another store, and then what the table has no room for. -/
inductive Ends {α : Type} (w : World κ σ) (s : Nat) (type : TableType) (v : Val) (fits : Prop)
    (fault : EngineFault) (answer : α) : Outcome α → Prop
  | wrongKind (hkind : v.kind ≠ type.element) :
      Ends w s type v fits fault answer (.failure (.wrongKind type.element v.kind))
  | foreign (hkind : v.kind = type.element) (hv : w.ForeignVal s v) :
      Ends w s type v fits fault answer (.panic (.text foreignMessage))
  | refused (hkind : v.kind = type.element) (hv : ¬w.ForeignVal s v) (hfits : ¬fits) :
      Ends w s type v fits fault answer (.failure (.engine fault))
  | done (hkind : v.kind = type.element) (hv : ¬w.ForeignVal s v) (hfits : fits) :
      Ends w s type v fits fault answer (.value answer)

/-- One of the cases is there, so that what ends in all of them as it should ends in no other way. -/
theorem Ends.iff_run {α : Type} {type : TableType} {fits : Prop} {fault : EngineFault} {answer : α}
    {m : Act κ σ α} {o : Outcome α}
    (h : ∀ o, Ends w s type v fits fault answer o → ∃ w', m.run w = (o, w')) :
    Ends w s type v fits fault answer o ↔ ∃ w', m.run w = (o, w') := by
  refine ⟨h o, fun ⟨w', hrun⟩ => ?_⟩
  obtain ⟨o', hends⟩ : ∃ o', Ends w s type v fits fault answer o' := by
    by_cases hkind : v.kind = type.element
    · by_cases hv : w.ForeignVal s v
      · exact ⟨_, .foreign hkind hv⟩
      · by_cases hfits : fits
        · exact ⟨_, .done hkind hv hfits⟩
        · exact ⟨_, .refused hkind hv hfits⟩
    · exact ⟨_, .wrongKind hkind⟩
  obtain ⟨w'', hrun'⟩ := h o' hends
  have ho : o' = o := congrArg Prod.fst (hrun'.symm.trans hrun)
  exact ho ▸ hends

theorem Ends.of_value {α : Type} {type : TableType} {fits : Prop} {fault : EngineFault}
    {answer b : α} (h : Ends w s type v fits fault answer (.value b)) :
    b = answer ∧ v.kind = type.element ∧ ¬w.ForeignVal s v ∧ fits := by
  cases h with
  | done hkind hv hfits => exact ⟨rfl, hkind, hv, hfits⟩

section Changes

variable [Keeper κ σ] {R L : Ledger κ} {known : List (Pin κ)} (hw : Invariant (R + L) w)
  (h : w.HasTable s g a i table)

include hw h

/-- A function of another store is refused before the engine sees it. -/
theorem run_offer_foreign {α : Type} (hkind : v.kind = table.type.element) (hv : w.ForeignVal s v)
    (k : Nat → Guest.Table → Guest.Ref → Act κ σ α) :
    ∃ w', (offer s a v k).run w = (.panic (.text foreignMessage), w') := by
  have hat := run_at_drain hw h.item h.guest h.found
  refine Act.Refused.panics (.first (run_context s w) (.first hat ?_))
  simp only [hkind, ne_eq, not_true_eq_false, if_false]
  exact .here (pack_refused (hv.drain hw))

variable (hvals : ∀ y ∈ v.shares, L.Has y)

include hvals

theorem set_ends {index : Nat} {o : Outcome Unit}
    (hends : Ends w s table.type v (index < table.size) .tableIndex () o) :
    ∃ w', (set s a index v : Act κ σ Unit).run w = (o, w') := by
  cases hends with
  | wrongKind hkind =>
    exact ⟨_, run_offer_wrongKind hw h.item h.guest h.found hkind (setElement s index)⟩
  | foreign hkind hv => exact run_offer_foreign hw h hkind hv (setElement s index)
  | refused hkind hv hindex =>
    obtain ⟨x, hx⟩ := (hw.val_cases hvals s).resolve_right hv
    obtain ⟨w', hrun, -⟩ := run_setting_refused hw h.item h.guest h.found hkind (h.sense hkind hx) hx
      hindex
    exact ⟨w', hrun⟩
  | done hkind hv hindex =>
    obtain ⟨x, hx⟩ := (hw.val_cases hvals s).resolve_right hv
    obtain ⟨r, w', hrun, -⟩ := run_setting hw h.item h.guest h.found hkind (h.sense hkind hx) hx hindex
    exact ⟨w', hrun⟩

theorem grow_ends {delta : Nat} {o : Outcome Nat}
    (hends : Ends w s table.type v (table.size + delta ≤ Guest.Table.sizeLimit table.type)
      (.growTable delta) table.size o) :
    ∃ w', (grow s a delta v : Act κ σ Nat).run w = (o, w') := by
  cases hends with
  | wrongKind hkind =>
    exact ⟨_, run_offer_wrongKind hw h.item h.guest h.found hkind (addElements s delta)⟩
  | foreign hkind hv => exact run_offer_foreign hw h hkind hv (addElements s delta)
  | refused hkind hv hdelta =>
    obtain ⟨x, hx⟩ := (hw.val_cases hvals s).resolve_right hv
    obtain ⟨w', hrun, -⟩ := run_growing_refused hw h.item h.guest h.found hkind (h.sense hkind hx) hx
      hdelta
    exact ⟨w', hrun⟩
  | done hkind hv hdelta =>
    obtain ⟨x, hx⟩ := (hw.val_cases hvals s).resolve_right hv
    obtain ⟨r, w', hrun, -⟩ := run_growing hw h.item h.guest h.found hkind (h.sense hkind hx) hx hdelta
    exact ⟨w', hrun⟩

end Changes

/-! ## Edits of a table and of what it shows

One lemma for each way in which an edit may end, then one edit, then any number of them. -/

section Edits

variable [Keeper κ σ] {R L : Ledger κ} {known : List (Pin κ)} {e : Edit Val} {e' : Edit Sense}
  {type : TableType} {xs : List Sense}

namespace Edit

section Run

variable (hw : Invariant (R + L) w) (h : w.HasTable s g a i table) (he : e.Means w s e')

include hw h he

theorem run_wrongKind (hkind : e'.item.kind ≠ table.type.element) :
    (e.run s a : Act κ σ (Option Nat)).run w =
      (.failure (.wrongKind table.type.element e'.item.kind), w.drain s) := by
  rw [← he.item.kind] at hkind ⊢
  cases he with
  | set index hv =>
    exact run_bind_failed (run_offer_wrongKind hw h.item h.guest h.found hkind (setElement s index))
  | grow delta hv =>
    exact run_bind_failed (run_offer_wrongKind hw h.item h.guest h.found hkind (addElements s delta))

theorem run_misfit (hkind : e'.item.kind = table.type.element)
    (hfits : ¬e'.Fits table.type table.size) :
    ∃ w', (e.run s a : Act κ σ (Option Nat)).run w = (.failure (.engine e'.fault), w') ∧
      w.Settles w' := by
  have href : (∃ i, e'.item = .func i) ∨ ∃ o, e'.item = .object o :=
    Sense.reference (hkind ▸ h.reference)
  rw [← he.item.kind] at hkind
  cases he with
  | set index hv =>
    obtain ⟨w', hrun, hw'⟩ := run_setting_refused hw h.item h.guest h.found hkind href hv hfits
    exact ⟨w', run_bind_failed hrun, hw'⟩
  | grow delta hv =>
    obtain ⟨w', hrun, hw'⟩ := run_growing_refused hw h.item h.guest h.found hkind href hv hfits
    exact ⟨w', run_bind_failed hrun, hw'⟩

theorem run_fitting (hkind : e'.item.kind = table.type.element)
    (hfits : e'.Fits table.type table.size) :
    ∃ r table' w', (e.run s a : Act κ σ (Option Nat)).run w = (.value (e'.answer table.size), w') ∧
      table'.type = table.type ∧ table'.elements.toList = e'.onto r table.elements.toList ∧
      w.Stored w' s (g.putTable i table') (.ref r) e'.item := by
  have href : (∃ i, e'.item = .func i) ∨ ∃ o, e'.item = .object o :=
    Sense.reference (hkind ▸ h.reference)
  rw [← he.item.kind] at hkind
  cases he with
  | set index hv =>
    obtain ⟨r, w', hrun, hw'⟩ := run_setting hw h.item h.guest h.found hkind href hv hfits
    refine ⟨r, { table with elements := table.elements.setIfInBounds index r }, w', ?_⟩
    exact ⟨run_bind_value hrun, rfl, Array.toList_setIfInBounds, hw'⟩
  | grow delta hv =>
    obtain ⟨r, w', hrun, hw'⟩ := run_growing hw h.item h.guest h.found hkind href hv hfits
    refine ⟨r, { table with elements := table.elements ++ Array.replicate delta r }, w', ?_⟩
    exact ⟨run_bind_value hrun, rfl, by simp [onto], hw'⟩

end Run

theorem run_leaves (hs : .tenure s known none ∈ L) (hheld : L.Has (.handle a (.item .table)))
    (hvals : ∀ y ∈ e.item.shares, L.Has y) :
    (e.run s a : Act κ σ (Option Nat)).Leaves L (fun _ => L) L := by
  cases e with
  | set index v => exact .bind (set_leaves hs hheld hvals index) fun _ => .pure rfl
  | grow delta v => exact .bind (grow_leaves hs hheld hvals delta) fun _ => .pure rfl

/-- What is asked of the table still stands for the same. -/
theorem Means.still {w' : World κ σ} (hw' : Invariant (R + L) w') (hvals : ∀ y ∈ e.item.shares, L.Has y)
    (he : e.Means w s e') (hw : ∀ a c', w'.heap.get? a = some c' →
      ∃ c, w.heap.get? a = some c ∧ c'.store = c.store ∧ c'.target = c.target) : e.Means w' s e' := by
  cases he with
  | set index hv => exact .set index (hw'.meansStill hvals hv hw)
  | grow delta hv => exact .grow delta (hw'.meansStill hvals hv hw)

end Edit

/-- The table is there, with what it shows, when everything else has settled. -/
theorem Shows.settled (h : Shows w s a type xs) (hw' : Invariant (R + L) w')
    (hheld : L.Has (.handle a (.item .table))) (hsettles : w.Settles w') : Shows w' s a type xs := by
  obtain ⟨i, g, table, htable, htype, helements⟩ := h
  refine ⟨i, g, table, ⟨(hsettles.guests s).trans htable.guest, ?_, htable.found, htable.reference⟩,
    htype, helements.imp fun _ _ h => h.preserved hsettles.toPreserves⟩
  exact hw'.itemHandle hheld htable.item hsettles.handles

variable (hs : .tenure s known none ∈ L) (hheld : L.Has (.handle a (.item .table)))

include hs hheld

/-- A table answers as the plain array does that it shows, and shows the one that comes out. -/
theorem run_edit (hw : Invariant (R + L) w) (h : Shows w s a type xs)
    (hvals : ∀ y ∈ e.item.shares, L.Has y) (he : e.Means w s e') :
    ∃ w', (attempt (e.run s a) : Act κ σ _).run w = (.value (e'.applied type xs).1, w') ∧
      Invariant (R + L) w' ∧ Shows w' s a type (e'.applied type xs).2 ∧
      ∀ b c', w'.heap.get? b = some c' →
        ∃ c, w.heap.get? b = some c ∧ c'.store = c.store ∧ c'.target = c.target := by
  have hleaves : (attempt (e.run s a) : Act κ σ _).Leaves L (fun _ => L) L :=
    Leaves.attempt (Edit.run_leaves hs hheld hvals) fun _ => rfl
  have hshows := h
  obtain ⟨i, g, table, htable, rfl, helements⟩ := h
  have hsize : xs.length = table.size := helements.length_eq.symm
  unfold Edit.applied
  rw [hsize]
  split
  · rename_i hkind
    have hrun := run_attempt_failure (Edit.run_wrongKind hw htable he hkind)
    have hinv := hleaves.run_value hw hrun
    have hsettles := w.drain_settles s
    exact ⟨_, hrun, hinv, hshows.settled hinv hheld hsettles, hsettles.handles⟩
  · rename_i hkind
    have hkind := not_not.mp hkind
    split
    · rename_i hfits
      obtain ⟨r, table', w', hrun, htype, hlist, hstored⟩ := Edit.run_fitting hw htable he hkind hfits
      have hrun := run_attempt_value hrun
      have hinv := hleaves.run_value hw hrun
      refine ⟨w', hrun, hinv, ⟨i, _, table', ⟨hstored.guest, ?_, getElem?_putTable htable.found, ?_⟩,
        htype, ?_⟩, hstored.handles⟩
      · exact hinv.itemHandle hheld htable.item hstored.handles
      · exact htype ▸ htable.reference
      · rw [hlist]
        exact Edit.onto_forall₂ (helements.imp fun _ _ h => h.preserved hstored.kept) hstored.holds
    · rename_i hfits
      obtain ⟨w', hrun, hsettles⟩ := Edit.run_misfit hw htable he hkind hfits
      have hrun := run_attempt_failure hrun
      have hinv := hleaves.run_value hw hrun
      exact ⟨w', hrun, hinv, hshows.settled hinv hheld hsettles, hsettles.handles⟩

/-- Edits are answered as the plain array answers them, and leave a table that shows it. By
induction on the edits. An edit that fails has drained the queue and changed nothing else, so the
table still shows the same. -/
theorem run_edits {es : List (Edit Val)} {es' : List (Edit Sense)} (hw : Invariant (R + L) w)
    (h : Shows w s a type xs)
    (hes : List.Forall₂ (fun e e' => (∀ y ∈ e.item.shares, L.Has y) ∧ e.Means w s e') es es') :
    ∃ w', (Edit.runAll s a es : Act κ σ _).run w = (.value (Edit.appliedAll type es' xs).1, w') ∧
      Invariant (R + L) w' ∧ Shows w' s a type (Edit.appliedAll type es' xs).2 := by
  induction es generalizing w xs es' with
  | nil =>
    cases hes
    exact ⟨w, rfl, hw, h⟩
  | cons e es ih =>
    obtain ⟨e', es', he, hrest, rfl⟩ := List.forall₂_cons_left_iff.mp hes
    obtain ⟨w₁, hrun, hinv, hshows, hhandles⟩ := run_edit hs hheld hw h he.1 he.2
    obtain ⟨w₂, hruns, hinv₂, hshows₂⟩ :=
      ih hinv hshows (hrest.imp fun _ _ h => ⟨h.1, h.2.still hinv h.1 hhandles⟩)
    exact ⟨w₂, (run_bind_value hrun).trans (run_bind_value hruns), hinv₂, hshows₂⟩

/-- An index of `2 ^ 32` is not zero, and an increment of `2 ^ 64` is not none. -/
example : Edit.appliedAll ⟨.externref, ⟨1, some 3⟩⟩
    [.set (2 ^ 32) (.object (some 7)), .grow (2 ^ 64) (.object none), .grow 2 (.object (some 8)),
      .set 1 (.object none)] [.object none] =
    ([.error (.engine .tableIndex), .error (.engine (.growTable (2 ^ 64))), .ok (some 1), .ok none],
      [.object none, .object none, .object (some 8)]) := by rfl

omit hs hheld in
theorem run_size (hw : Invariant (R + L) w) (h : w.HasTable s g a i table) :
    (size s a : Act κ σ Nat).run w = (.value table.size, w.drain s) :=
  (run_bind_value (run_context s w)).trans (run_bind_value (run_at_drain hw h.item h.guest h.found))

omit hs hheld in
/-- There is no element beyond the size. -/
theorem run_get_none {index : Nat} (hw : Invariant (R + L) w) (h : w.HasTable s g a i table)
    (hindex : table.size ≤ index) :
    (get s a index : Act κ σ (Option Val)).run w = (.value none, w.drain s) := by
  have hat := run_at_drain hw h.item h.guest h.found
  have hget : table.get? index = none := Array.getElem?_eq_none hindex
  refine (run_bind_value (run_context s w)).trans ((run_bind_value hat).trans ?_)
  simp only [hget]
  rfl

/-- The value that is got for an element stands for what the element stands for. -/
theorem run_get_element {index : Nat} {r : Guest.Ref} (hw : Invariant (R + L) w)
    (h : w.HasTable s g a i table) (hr : table.get? index = some r) (hx : w.Holds s (.ref r) x) :
    ∃ v w', (get s a index : Act κ σ (Option Val)).run w = (.value (some v), w') ∧ w'.Means s v x ∧
      ∀ t, w'.guest? t = w.guest? t := by
  obtain ⟨v, w', hrun, hyields, hguests⟩ :=
    run_read hw ⟨i, g, table, r, h.item, h.guest, h.found, hr, hx⟩
  have hinv : Invariant (R + (Ledger.owns (Val.sharesAll [v]) + L)) w' :=
    (get_leaves (Ledger.has_of_tenure hs) hheld index).run_value hw hrun
  exact ⟨v, w', hrun, (List.forall₂_cons.mp (hinv.means hyields)).1, hguests⟩

/-- What a table shows is read of it. -/
theorem Shows.reads (hw : Invariant (R + L) w) (h : Shows w s a type xs) : Reads w s a xs := by
  obtain ⟨i, g, table, htable, -, helements⟩ := h
  have hlength : table.size = xs.length := helements.length_eq
  refine ⟨hlength ▸ run_size hw htable, fun index x hx => ?_, fun index hindex => ?_⟩
  · obtain ⟨hlt, rfl⟩ := List.getElem?_eq_some_iff.mp hx
    have hlt' : index < table.elements.toList.length := helements.length_eq ▸ hlt
    have hget : table.get? index = some table.elements.toList[index] := by
      rw [Guest.Table.get?, ← Array.getElem?_toList, List.getElem?_eq_getElem hlt']
    exact run_get_element hs hheld hw htable hget (helements.get hlt' hlt)
  · exact run_get_none hw htable (hlength ▸ hindex)

end Edits

/-- What changing a table does to its store, and nothing else: one element is another reference, -/
theorem set_replaces [Keeper κ σ] {R L : Ledger κ} {index : Nat} (hw : Invariant (R + L) w)
    (h : w.HasTable s g a i table) (hvals : ∀ y ∈ v.shares, L.Has y)
    (hrun : (set s a index v : Act κ σ Unit).run w = (.value (), w')) :
    ∃ x r table', w.Means s v x ∧ table.Replaced index r table' ∧
      w.Stored w' s (g.putTable i table') (.ref r) x := by
  obtain ⟨-, hkind, hv, hindex⟩ :=
    ((Ends.iff_run fun _ => set_ends hw h hvals).mpr ⟨w', hrun⟩).of_value
  obtain ⟨x, hx⟩ := (hw.val_cases hvals s).resolve_right hv
  obtain ⟨r, w'', hrun', hstored⟩ :=
    run_setting hw h.item h.guest h.found hkind (h.sense hkind hx) hx hindex
  obtain rfl : w'' = w' := congrArg Prod.snd (hrun'.symm.trans hrun)
  exact ⟨x, r, _, hx, Guest.Table.replaced_set hindex r, hstored⟩

/-- or there are more elements at its end. -/
theorem grow_adds [Keeper κ σ] {R L : Ledger κ} {delta n : Nat} (hw : Invariant (R + L) w)
    (h : w.HasTable s g a i table) (hvals : ∀ y ∈ v.shares, L.Has y)
    (hrun : (grow s a delta v : Act κ σ Nat).run w = (.value n, w')) :
    n = table.size ∧ v.kind = table.type.element ∧ table.size + delta < Nat.pow 2 32 ∧
      (∀ m, table.type.limits.max = some m → table.size + delta ≤ m.toNat) ∧
      ∃ x r table', w.Means s v x ∧ table.Grown delta r table' ∧
        w.Stored w' s (g.putTable i table') (.ref r) x := by
  obtain ⟨rfl, hkind, hv, hdelta⟩ :=
    ((Ends.iff_run fun _ => grow_ends hw h hvals).mpr ⟨w', hrun⟩).of_value
  obtain ⟨hword, hmax⟩ := Guest.Table.le_of_le_sizeLimit hdelta
  obtain ⟨x, hx⟩ := (hw.val_cases hvals s).resolve_right hv
  obtain ⟨r, w'', hrun', hstored⟩ :=
    run_growing hw h.item h.guest h.found hkind (h.sense hkind hx) hx hdelta
  obtain rfl : w'' = w' := congrArg Prod.snd (hrun'.symm.trans hrun)
  exact ⟨rfl, hkind, hword, hmax, x, r, _, hx, table.grown_append delta r, hstored⟩

end Table

/-! ## Embedders

Whatever a table holds stands for something, as its store keeps what its elements refer to. So every
table shows an array, and the model has something to begin with. -/

variable {L : Ledger (Code κ)} {w : World (Code κ) Pool}

/-- A table of a store that is in use is lent to an operation. -/
structure World.LendsTable (w : World (Code κ) Pool) (s : Nat) (g : Guest.Store) (a : Handle) (i : Nat)
    (table : Guest.Table) : Prop where
  use : w.InUse s g
  lent : w.user.Lends (.wrapper ⟨a, .item .table⟩)
  item : w.ItemHandle s a (.table i)
  found : g.tables[i]? = some table

/-- There are tables of nothing but references. -/
theorem World.LendsTable.hasTable (h : w.LendsTable s g a i table) (hw : w.Orderly) :
    w.HasTable s g a i table where
  guest := h.use.guest
  item := h.item
  found := h.found
  reference := ((hw.rooted s g h.use.guest).tables i table h.found).kind

/-- A reference to something that its store keeps stands for it. -/
theorem Invariant.exists_holds (hw : Invariant L w) (hg : w.guest? s = some g) {r : Guest.Ref}
    (hr : r.Rooted (w.Keeps s)) : ∃ x, w.Holds s (.ref r) x := by
  rcases r with i | (_ | o)
  · exact ⟨_, .func i⟩
  · exact ⟨_, .null⟩
  · obtain ⟨c, hc, hguest⟩ := Option.bind_eq_some_iff.mp hg
    -- A host object is held by the store through an origin, which is counted, and so it is there.
    have hheld : o ∈ c.held := hr.2 c hc (by simp [hguest])
    have hrefs : Share.origin o ∈ total w.stores World.storeRefs :=
      mem_total.mpr ⟨s, c, hc, by simp [World.storeRefs, hheld]⟩
    obtain ⟨d, hd, -⟩ := elim_pos.mp
      (hw.sound.balanced.pos_of_mem_refs (x := .origin o) (by simp [World.refs, hrefs]))
    exact ⟨_, .object hd hc hheld⟩

/-- Whatever a table holds stands for something. -/
theorem Invariant.exists_shows (hw : Invariant L w) (horderly : w.Orderly)
    (h : w.LendsTable s g a i table) :
    ∃ xs, xs.length = table.size ∧ Table.Shows w s a table.type xs := by
  have helements : ∀ r ∈ table.elements.toList, ∃ x, w.Holds s (.ref r) x := fun r hr =>
    hw.exists_holds h.use.guest (((horderly.rooted s g h.use.guest).tables i table h.found).elements r
      (Array.mem_toList_iff.mp hr))
  obtain ⟨xs, hxs⟩ : ∃ xs, List.Forall₂ (fun r x => w.Holds s (.ref r) x) table.elements.toList xs := by
    generalize table.elements.toList = rs at helements
    induction rs with
    | nil => exact ⟨[], .nil⟩
    | cons r rs ih =>
      obtain ⟨x, hx⟩ := helements r (List.mem_cons_self ..)
      obtain ⟨xs, hxs⟩ := ih fun r hr => helements r (List.mem_cons_of_mem _ hr)
      exact ⟨x :: xs, .cons hx hxs⟩
  exact ⟨xs, hxs.length_eq.symm, i, g, table, h.hasTable horderly, rfl, hxs⟩

/-- How the host reads and changes the tables of stores. Indices and increments may be any numbers. -/
structure World.BoundsTables (w : World (Code κ) Pool) : Prop where
  /-- The size of a table is told, -/
  size : ∀ (s i : Nat) (g : Guest.Store) (a : Handle) (table : Guest.Table),
    w.LendsTable s g a i table →
    (Table.size s a : Job κ Nat).run w = (.value table.size, w.drain s)
  /-- an element that there is, is got, -/
  get : ∀ (s i index : Nat) (g : Guest.Store) (a : Handle) (table : Guest.Table),
    w.LendsTable s g a i table → index < table.size →
    ∃ r x v w', table.get? index = some r ∧ w.Holds s (.ref r) x ∧
      (Table.get s a index : Job κ (Option Val)).run w = (.value (some v), w') ∧ w'.Means s v x ∧
      ∀ t, w'.guest? t = w.guest? t
  /-- and at any other index there is none. -/
  getNone : ∀ (s i index : Nat) (g : Guest.Store) (a : Handle) (table : Guest.Table),
    w.LendsTable s g a i table → table.size ≤ index →
    (Table.get s a index : Job κ (Option Val)).run w = (.value none, w.drain s)
  /-- A value of the store is set if it is of the kind of the table and if there is the element, -/
  set : ∀ (s i index : Nat) (g : Guest.Store) (a : Handle) (table : Guest.Table) (v : Val),
    w.LendsTable s g a i table → w.user.LendsVal v → ¬w.ForeignVal s v →
    ((∃ w', (Table.set s a index v : Job κ Unit).run w = (.value (), w')) ↔
      v.kind = table.type.element ∧ index < table.size)
  /-- which changes this element and no other, -/
  setReplaces : ∀ (s i index : Nat) (g : Guest.Store) (a : Handle) (table : Guest.Table) (v : Val)
    (w' : World (Code κ) Pool), w.LendsTable s g a i table → w.user.LendsVal v →
    (Table.set s a index v : Job κ Unit).run w = (.value (), w') →
    ∃ x r table', w.Means s v x ∧ table.Replaced index r table' ∧
      w.Stored w' s (g.putTable i table') (.ref r) x
  /-- and otherwise it ends as the order of the checks has it. -/
  setEnds : ∀ (s i index : Nat) (g : Guest.Store) (a : Handle) (table : Guest.Table) (v : Val)
    (o : Outcome Unit), w.LendsTable s g a i table → w.user.LendsVal v →
    (Table.Ends w s table.type v (index < table.size) .tableIndex () o ↔
      ∃ w', (Table.set s a index v : Job κ Unit).run w = (o, w'))
  /-- Growth tells the size before, stays within the declared maximum, and adds elements at the end, -/
  growAdds : ∀ (s i delta n : Nat) (g : Guest.Store) (a : Handle) (table : Guest.Table) (v : Val)
    (w' : World (Code κ) Pool), w.LendsTable s g a i table → w.user.LendsVal v →
    (Table.grow s a delta v : Job κ Nat).run w = (.value n, w') →
    n = table.size ∧ v.kind = table.type.element ∧ table.size + delta < Nat.pow 2 32 ∧
      (∀ m, table.type.limits.max = some m → table.size + delta ≤ m.toNat) ∧
      ∃ x r table', w.Means s v x ∧ table.Grown delta r table' ∧
        w.Stored w' s (g.putTable i table') (.ref r) x
  /-- and otherwise it ends as the order of the checks has it. -/
  growEnds : ∀ (s i delta : Nat) (g : Guest.Store) (a : Handle) (table : Guest.Table) (v : Val)
    (o : Outcome Nat), w.LendsTable s g a i table → w.user.LendsVal v →
    (Table.Ends w s table.type v (table.size + delta ≤ Guest.Table.sizeLimit table.type)
        (.growTable delta) table.size o ↔
      ∃ w', (Table.grow s a delta v : Job κ Nat).run w = (o, w'))
  /-- An operation that ends with an error or a panic changes nothing, -/
  setSpares : ∀ (s i index : Nat) (g : Guest.Store) (a : Handle) (table : Guest.Table) (v : Val),
    w.LendsTable s g a i table → w.user.LendsVal v → (Table.set s a index v : Job κ Unit).Spares s w
  /-- whichever it is. -/
  growSpares : ∀ (s i delta : Nat) (g : Guest.Store) (a : Handle) (table : Guest.Table) (v : Val),
    w.LendsTable s g a i table → w.user.LendsVal v → (Table.grow s a delta v : Job κ Nat).Spares s w
  /-- Any sequence of edits, whether they succeed or not, is answered as a plain array answers it, and
  what is read then is the array that comes out. -/
  edits : ∀ (s i : Nat) (g : Guest.Store) (a : Handle) (table : Guest.Table),
    w.LendsTable s g a i table → ∃ xs, xs.length = table.size ∧ Table.Reads w s a xs ∧
      ∀ (es : List (Table.Edit Val)) (es' : List (Table.Edit Sense)),
        List.Forall₂ (fun e e' => w.user.LendsVal e.item ∧ e.Means w s e') es es' →
        ∃ w', (Table.Edit.runAll s a es : Job κ _).run w =
            (.value (Table.Edit.appliedAll table.type es' xs).1, w') ∧
          Table.Reads w' s a (Table.Edit.appliedAll table.type es' xs).2

theorem Invariant.boundsTables (hw : Invariant L w) (horderly : w.Orderly) : w.BoundsTables := by
  have hw₀ : Invariant (0 + L) w := by rwa [zero_add]
  have hheld : ∀ {s i : Nat} {g : Guest.Store} {a : Handle} {table : Guest.Table},
      w.LendsTable s g a i table → L.Has (.handle a (.item .table)) := fun h => hw.has_of_lends h.lent
  exact {
    size := fun s i g a table h => Table.run_size hw₀ (h.hasTable horderly)
    get := fun s i index g a table h hindex => by
      obtain ⟨known, hs⟩ := hw.tenure_of_inUse h.use
      have hget : table.get? index = some table.elements[index] := Array.getElem?_eq_getElem hindex
      have hrooted := ((horderly.rooted s g h.use.guest).tables i table h.found).elements
      obtain ⟨x, hx⟩ := hw.exists_holds h.use.guest (hrooted _ (Array.getElem_mem hindex))
      obtain ⟨v, w', hrun, hv, hguests⟩ :=
        Table.run_get_element hs (hheld h) hw₀ (h.hasTable horderly) hget hx
      exact ⟨_, x, v, w', hget, hx, hrun, hv, hguests⟩
    getNone := fun s i index g a table h hindex => Table.run_get_none hw₀ (h.hasTable horderly) hindex
    set := fun s i index g a table v h hv hforeign => by
      have hends : ∀ o, Table.Ends w s table.type v (index < table.size) .tableIndex () o ↔ _ :=
        fun o => Table.Ends.iff_run fun _ =>
          Table.set_ends hw₀ (h.hasTable horderly) (hw.has_of_lendsVal hv)
      refine (hends _).symm.trans ⟨fun h => ⟨h.of_value.2.1, h.of_value.2.2.2⟩, fun hfits => ?_⟩
      exact .done hfits.1 hforeign hfits.2
    setReplaces := fun s i index g a table v w' h hv hrun =>
      Table.set_replaces hw₀ (h.hasTable horderly) (hw.has_of_lendsVal hv) hrun
    setEnds := fun s i index g a table v o h hv =>
      Table.Ends.iff_run fun _ => Table.set_ends hw₀ (h.hasTable horderly) (hw.has_of_lendsVal hv)
    growAdds := fun s i delta n g a table v w' h hv hrun =>
      Table.grow_adds hw₀ (h.hasTable horderly) (hw.has_of_lendsVal hv) hrun
    growEnds := fun s i delta g a table v o h hv =>
      Table.Ends.iff_run fun _ => Table.grow_ends hw₀ (h.hasTable horderly) (hw.has_of_lendsVal hv)
    setSpares := fun s i index g a table v h hv =>
      Table.set_spares ((hw₀.drain s).1.backs (hw.has_of_lendsVal hv)) a index
    growSpares := fun s i delta g a table v h hv =>
      Table.grow_spares ((hw₀.drain s).1.backs (hw.has_of_lendsVal hv)) a delta
    edits := fun s i g a table h => by
      obtain ⟨xs, hlength, hshows⟩ := hw.exists_shows horderly h
      obtain ⟨known, hs⟩ := hw.tenure_of_inUse h.use
      refine ⟨xs, hlength, hshows.reads hs (hheld h) hw₀, fun es es' hes => ?_⟩
      obtain ⟨w', hrun, hinv, hshows'⟩ := Table.run_edits hs (hheld h) hw₀ hshows
        (hes.imp fun _ _ h => ⟨hw.has_of_lendsVal h.1, h.2⟩)
      exact ⟨w', hrun, hshows'.reads hs (hheld h) hinv⟩ }

/-- In every world that an embedder reaches, tables are arrays whose length is bounded. -/
theorem Embedder.tables_bounded (embedder : Embedder κ) (depth : Nat)
    (programs : List (Program κ Unit)) (order : List Nat) :
    ((embedder.start depth programs).run order).world.BoundsTables := by
  obtain ⟨Ls, -, hw⟩ := (embedder.safe_start depth programs).run order
  exact hw.boundsTables (embedder.typed_run depth programs order []).1

/-- A function is put into the second of two elements, and not into a third; what is after the last is
not there. -/
theorem Embedder.tables_bounded_lent :
    (Table.size 0 4 : Job Unit Nat).run Specimen.world = (.value 2, Specimen.world.drain 0) ∧
      (Table.get 0 4 2 : Job Unit (Option Val)).run Specimen.world =
        (.value none, Specimen.world.drain 0) ∧
      (∃ w, (Table.set 0 4 1 (.funcref (some 0)) : Job Unit Unit).run Specimen.world = (.value (), w)) ∧
      ¬∃ w, (Table.set 0 4 2 (.funcref (some 0)) : Job Unit Unit).run Specimen.world =
        (.value (), w) := by
  have hbounds : Specimen.world.BoundsTables :=
    Specimen.world_eq ▸ Specimen.embedder.tables_bounded 1 Specimen.programs Specimen.order
  have htable : Specimen.world.LendsTable 0 Specimen.store 4 0
      ⟨⟨.funcref, ⟨2, none⟩⟩, #[.func none, .func none]⟩ :=
    ⟨Specimen.inUse_store, Specimen.lends_table, Specimen.tableHandle, rfl⟩
  have hown : ¬Specimen.world.ForeignVal 0 (.funcref (some 0)) := by
    rintro ⟨h, hv, c, hc, -, hforeign⟩
    cases hv
    obtain ⟨c', hc', -, hstore, -⟩ := Specimen.funcHandle
    obtain rfl := Option.some.inj (hc.symm.trans hc')
    exact hforeign hstore
  have hset := fun index => hbounds.set 0 0 index _ 4 _ (.funcref (some 0)) htable Specimen.lendsVal_func
    hown
  refine ⟨hbounds.size 0 0 _ 4 _ htable, hbounds.getNone 0 0 2 _ 4 _ htable (by decide), ?_, ?_⟩
  · exact (hset 1).mpr ⟨rfl, by decide⟩
  · rw [hset 2]
    rintro ⟨-, hindex⟩
    exact absurd hindex (by decide)

end WasmHost.Host
