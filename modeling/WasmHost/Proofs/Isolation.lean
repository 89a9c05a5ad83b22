import WasmHost.Proofs.ForeignResults
import WasmHost.Proofs.Carriage
import WasmHost.Proofs.Fidelity

/-!
# Stores are isolated

In every world that an embedder reaches, what a handle stands for belongs to the store of the handle,
and the closures that guests have called belong to the store that called them. So the engine is never
given anything of another store: a query that names such a thing is refused, whatever it is and
however it comes to be named, and a closure that gives a function of another store panics, and with
it the call that ran the guest code in between.

There are two ways in which a thing of another store could get in. A request may name it, since the
pool has the things of all stores and threads, or a closure may give it to the guest that called it.
Nothing else has to be considered, because guest code refers to things by their places, which are
relative to the store it runs in.

The first way is closed query by query. What has to be said carefully is *which* queries are meant.
A query names places of the pool, and some of the things at these places are used with the store
while others only go along. `Query.Given` spells it out for every kind of query, and
`query_declined` has a case for each. It is not claimed that a query is refused with one particular
error. Some of the checks in front may fail first; `Query.Earlier` lists them, so that the statement
is exact about what else may be seen.

The other way is closed in `ForeignResults`.
-/

namespace WasmHost.Host

open Act

variable {κ α β : Type}

/-! ## What a query is given

Items that a linker resolves are among what a query is given, though the query names the linker
only. For them the definition follows the resolution in the world in which the query is asked. -/

namespace Pool

/-- The thing at a place. -/
def thing? (p : Pool) (i : Nat) : Option Thing := (p.at? i).map (·.thing)

/-- At a place is a wrapper of a handle. -/
def Wraps (p : Pool) (i : Nat) (h : Handle) : Prop :=
  ∃ sort, p.thing? i = some (.capture (.wrapper ⟨h, sort⟩))

/-- Lending a thing leaves all things at their places. -/
theorem thing?_lend (p : Pool) (i : Nat) (sort : Capture → Option β) :
    (p.lend i sort).2.thing? = p.thing? := by
  obtain heq | ⟨c, n, b, hat, -, heq⟩ := p.lend_cases i sort
  · rw [heq]
  · rw [heq]
    funext j
    simp only [thing?, at?_set (lt_of_at? hat)]
    by_cases hj : j = i
    · simp [hj, hat]
    · simp [hj]

end Pool

/-- An item that is lent has the handle of its wrapper. -/
theorem Capture.handle_of_item? {x : Wrapper} {item : Item}
    (h : (Capture.wrapper x).item? = some item) : item.handle = x.handle := by
  unfold item? at h
  split at h
  · rename_i heq
    cases heq
    cases h
    rfl
  · cases h

/-- An argument is a function with a handle. -/
def Arg.Wraps (p : Pool) (h : Handle) : Arg → Prop
  | .plain _ => False
  | .thing i => p.Wraps i h

/-- A query is given an object to use with its store: by name, as an argument or an import, or as what
a linker has for an import. What closures are made to keep alive is used with no store. -/
def Query.Given (w : World (Code κ) Pool) (h : Handle) : Query κ → Prop
  | .call f args => w.user.Wraps f h ∨ ∃ a ∈ args, a.Wraps w.user h
  | .globalNew _ a | .tableNew _ a => a.Wraps w.user h
  | .globalSet i a | .tableSet i _ a | .tableGrow i _ a => w.user.Wraps i h ∨ a.Wraps w.user h
  | .type i | .globalGet i | .memoryPages i | .memorySize i | .memoryGrow i _ | .memoryRead i _ _
  | .memoryWrite i _ _ | .memoryData i _ | .tableSize i | .tableGet i _ | .close i
  | .getExport i _ | .getFunc i _ | .exports i | .defineInstance _ _ i => w.user.Wraps i h
  | .instance_ _ imports => ∃ i ∈ imports, w.user.Wraps i h
  | .defineModule i _ j | .instantiate i j => ∃ l m items,
      w.user.thing? i = some (.capture (.linker l)) ∧
      w.user.thing? j = some (.capture (.module m)) ∧ w.Resolves l m items ∧
      ∃ item ∈ items, item.handle = h
  | _ => False

/-- The errors of what a query checks before it looks at an object. -/
def Query.Earlier : Query κ → Error → Prop
  | .call _ _, e => ∃ type args, checkParams type args = .error e
  | .globalNew _ _, e | .tableNew _ _, e | .tableSet _ _ _, e | .tableGrow _ _ _, e =>
    ∃ k k', e = .wrongKind k k'
  | .globalSet _ _, e => e = .engine .immutableGlobal ∨ ∃ k k', e = .wrongKind k k'
  | .instance_ _ _, e | .instantiate _ _, e | .defineModule _ _ _, e =>
    e = .engine .foreignEngine ∨ ∃ n n', e = .importCount n n'
  | _, _ => False

/-! ## Declining

A query first borrows what it names, and only then performs its operation. Borrowing changes the
pool, and by nothing but counts of loans, so what is at the places is the same when the operation is
reached. Every lemma below passes this on (`u.thing? = w.user.thing?`), as there may be more to be
borrowed. -/

/-- A request is refused, or ends over an object of another store. -/
def Job.Declined (E : Error → Prop) (m : Job κ Reply) (w : World (Code κ) Pool) : Prop :=
  (m.run w).1 = .value .refused ∨ m.Refused E w

section Lending

variable {E : Error → Prop} {R L : Ledger (Code κ)} {w : World (Code κ) Pool} {i : Nat} {h : Handle}

theorem Job.onPool_settling (f : Pool → α × Pool) : Settling (Job.onPool f : Job κ α) :=
  .make fun _ => ⟨⟨fun _ c h => ⟨c, h, rfl⟩, fun _ c h => ⟨c, h, fun _ hg => hg⟩, rfl, rfl⟩,
    fun _ => rfl, fun _ c h => ⟨c, h, rfl, rfl⟩⟩

namespace Job

theorem Declined.ensuring {c : Job κ Unit} {m : Job κ Reply} (hc : Settling c)
    (hm : Declined E m w) : Declined E (Act.ensuring c m) w := by
  rcases hm with hrefused | hm
  · obtain ⟨u, w', hrun, -⟩ := hc (m.run w).2
    exact .inl (congrArg Prod.fst (run_ensuring_value (Prod.ext hrefused rfl) hrun))
  · exact .inr (hm.ensuring hc)

/-- An operation is declined on what is lent to it, or nothing is lent. -/
theorem lending_declined {sort : Capture → Option β} {m : β → Job κ Reply}
    (hw : Invariant (R + L) w)
    (hm : ∀ b N u, L ≤ N → Lends sort N b →
      (∃ c, w.user.thing? i = some (.capture c) ∧ sort c = some b) → u.thing? = w.user.thing? →
      Invariant (R + N) { w with user := u } → (m b).Declined E { w with user := u }) :
    (lending i sort m).Declined E w := by
  have hmeets : (onPool (·.lend i sort) : Job κ (Option β)).Meets L (Borrowed i sort L) L :=
    lend_meets sort
  obtain ⟨N, hN, hlent⟩ := Safe.run hmeets hw
  have hrun : (onPool (·.lend i sort) : Job κ (Option β)).run w =
      (.value (w.user.lend i sort).1, { w with user := (w.user.lend i sort).2 }) := rfl
  rw [hrun] at hN hlent
  have hlent := hlent rfl
  have hthings := w.user.thing?_lend i sort
  unfold Declined Refused lending
  rw [run_bind_value hrun]
  obtain heq | ⟨c, n, b, hat, hb, heq⟩ := w.user.lend_cases i sort
  · rw [heq]
    exact .inl rfl
  · rw [heq] at hN hlent hthings ⊢
    obtain ⟨c', hc', rfl⟩ := hlent
    refine Declined.ensuring (onPool_settling _) (hm b _ _ (Multiset.le_cons_self _ _)
      ⟨c', hc', Ledger.has_loan _ _ _⟩ ⟨c, ?_, hb⟩ hthings hN)
    simp [Pool.thing?, hat]

/-- What is lent for a handle that is named is that handle. -/
theorem eq_of_wraps {p : Pool} {sort : HandleSort} {a : Handle} (hh : p.Wraps i h)
    (ha : ∃ c, p.thing? i = some (.capture c) ∧ c.handle? sort = some a) : a = h := by
  obtain ⟨sort', hat⟩ := hh
  obtain ⟨c, hc, ha⟩ := ha
  obtain rfl : .wrapper ⟨h, sort'⟩ = c := by simpa using hat.symm.trans hc
  simp only [Capture.handle?, Option.ite_none_right_eq_some, Option.some.injEq] at ha
  exact ha.2.symm

theorem lendingHandle_declined {sort : HandleSort} {m : Handle → Job κ Reply}
    (hw : Invariant (R + L) w)
    (hm : ∀ a N u, L ≤ N → N.Has (.handle a sort) → (∀ h, w.user.Wraps i h → a = h) →
      u.thing? = w.user.thing? → Invariant (R + N) { w with user := u } →
      (m a).Declined E { w with user := u }) : (lendingHandle sort i m).Declined E w := by
  refine lending_declined hw fun a N u hN hlends hat hu hw' =>
    hm a N u hN ?_ (fun h hh => eq_of_wraps hh hat) hu hw'
  obtain ⟨c, hc, hx⟩ := hlends
  exact Capture.share_of_handle? hc ▸ hx

/-- An operation on an object is declined if the object is named and belongs to another store. -/
theorem lendingForeign_declined {s : Nat} {sort : HandleSort} {m : Handle → Job κ Reply}
    (hw : Invariant (R + L) w) (hgiven : w.user.Wraps i h) (hf : w.Foreign s h)
    (hm : ∀ N u, Invariant (R + N) { w with user := u } →
      World.Foreign { w with user := u } s h → (m h).Refused E { w with user := u }) :
    (lendingHandle sort i m).Declined E w := by
  refine lendingHandle_declined hw fun a N u _ _ heq _ hw' => ?_
  obtain rfl := heq h hgiven
  exact .inr (hm N u hw' hf)

/-- An operation is declined on everything that is lent to it. The induction is on the places, and
the pool that the hypothesis speaks of is the one that is left by the loans made so far. -/
theorem lendingAll_declined {sort : Capture → Option β} {is : List Nat} {m : List β → Job κ Reply}
    (hw : Invariant (R + L) w)
    (hm : ∀ bs N u, L ≤ N → (∀ b ∈ bs, Lends sort N b) →
      (∀ i ∈ is, ∃ b ∈ bs, ∃ c, w.user.thing? i = some (.capture c) ∧ sort c = some b) →
      u.thing? = w.user.thing? → Invariant (R + N) { w with user := u } →
      (m bs).Declined E { w with user := u }) : (lendingAll sort is m).Declined E w := by
  induction is generalizing L w m with
  | nil => exact hm [] L w.user le_rfl (by simp) (by simp) rfl hw
  | cons i is ih =>
    refine lending_declined hw fun b N u hN hb hat hu hw' => ih hw' ?_
    intro bs M u' hM hbs hall hu' hw''
    refine hm (b :: bs) M u' (hN.trans hM) (fun b' hb' => ?_) (fun j hj => ?_) (hu'.trans hu) hw''
    · rcases List.mem_cons.mp hb' with rfl | hb'
      · exact hb.imp fun c hc => ⟨hc.1, hc.2.of_le hM⟩
      · exact hbs b' hb'
    · rcases List.mem_cons.mp hj with rfl | hj
      · exact ⟨b, List.mem_cons_self .., hat⟩
      · obtain ⟨b', hb', c, hc, hsort⟩ := hall j hj
        exact ⟨b', List.mem_cons_of_mem _ hb', c, hu ▸ hc, hsort⟩

theorem lendingArg_declined {a : Arg} {m : Val → Job κ Reply} (hw : Invariant (R + L) w)
    (hm : ∀ v N u, L ≤ N → (∀ x ∈ v.shares, N.Has x) →
      (∀ h, a.Wraps w.user h → v = .funcref (some h)) → u.thing? = w.user.thing? →
      Invariant (R + N) { w with user := u } → (m v).Declined E { w with user := u }) :
    (lendingArg a m).Declined E w := by
  cases a with
  | plain v => exact hm (plain v) L w.user le_rfl (by simp [shares_plain]) (fun _ h => h.elim) rfl hw
  | thing i =>
    refine lending_declined hw fun v N u hN hv hat hu hw' => hm v N u hN ?_ (fun h hh => ?_) hu hw'
    · obtain ⟨c, hc, hx⟩ := hv
      simpa [Capture.shares_of_val? hc] using hx
    · obtain ⟨sort, hthing⟩ := hh
      obtain ⟨c, hc, hval⟩ := hat
      obtain rfl : .wrapper ⟨h, sort⟩ = c := by simpa using hthing.symm.trans hc
      unfold Capture.val? at hval
      split at hval
      · rename_i heq
        cases heq
        exact (Option.some.inj hval).symm
      · contradiction
      · cases hval

/-- An operation is declined on the arguments that are lent to it. Only those that are things have
to be lent. -/
theorem lendingArgs_declined {as : List Arg} {m : List Val → Job κ Reply} (hw : Invariant (R + L) w)
    (hm : ∀ vs N u, L ≤ N → (∀ x ∈ Val.sharesAll vs, N.Has x) →
      (∀ a ∈ as, ∀ h, a.Wraps w.user h → .funcref (some h) ∈ vs) → u.thing? = w.user.thing? →
      Invariant (R + N) { w with user := u } → (m vs).Declined E { w with user := u }) :
    (lendingArgs as m).Declined E w := by
  induction as generalizing L w m with
  | nil => exact hm [] L w.user le_rfl (by simp) (by simp) rfl hw
  | cons a as ih =>
    refine lendingArg_declined hw fun v N u hN hv hat hu hw' => ih hw' ?_
    intro vs M u' hM hvs hall hu' hw''
    refine hm (v :: vs) M u' (hN.trans hM) (fun x hx => ?_) (fun b hb h hh => ?_) (hu'.trans hu) hw''
    · rw [Val.sharesAll_cons] at hx
      rcases List.mem_append.mp hx with hx | hx
      · exact (hv x hx).of_le hM
      · exact hvs x hx
    · rcases List.mem_cons.mp hb with rfl | hb
      · exact hat h hh ▸ List.mem_cons_self ..
      · refine List.mem_cons_of_mem _ (hall b hb h ?_)
        cases b with
        | plain v => exact hh
        | thing j =>
          obtain ⟨sort, hj⟩ := hh
          exact ⟨sort, by rw [← hj]; exact congrFun hu j⟩

end Job

end Lending

/-! ## Queries

What is lent to an operation belongs to its store or to another one. In an operation with several
things, the first of them may be the foreign one, and if it is not, the operation goes on to the
next. So most proofs begin with the same distinction, `item_cases`. -/

section Queries

variable {R L : Ledger (Code κ)} {known : List (Pin (Code κ))} {w : World (Code κ) Pool} {s : Nat}
  {g : Guest.Store} {h : Handle}

/-- An own object is none of another store. -/
theorem World.ItemHandle.not_foreign {p : Guest.Place} (hi : w.ItemHandle s h p) :
    ¬ w.Foreign s h := by
  obtain ⟨c, hc, -, hs, -⟩ := hi
  rintro ⟨c', hc', -, hs'⟩
  obtain rfl : c = c' := Option.some.inj (hc.symm.trans hc')
  exact hs' hs

namespace Job

variable {E : Error → Prop} {a : Arg}

/-- A first value that is a function of another store. -/
theorem lendingArg_foreign {m : Val → Job κ Reply} (hw : Invariant (R + L) w)
    (hgiven : a.Wraps w.user h) (hf : w.Foreign s h)
    (hm : ∀ v N u, Invariant (R + N) { w with user := u } →
      World.ForeignVal { w with user := u } s v → (m v).Refused E { w with user := u }) :
    (lendingArg a m).Declined E w :=
  lendingArg_declined hw fun v N u _ _ hv _ hw' => .inr (hm v N u hw' ⟨h, hv h hgiven, hf⟩)

/-- A global or a table is to be changed, and it belongs to another store, or the value does. -/
theorem lendingSet_declined {i : Nat} {kind : ItemKind} {m : Handle → Val → Job κ Reply}
    (hw : Invariant (R + L) w) (hgiven : w.user.Wraps i h ∨ a.Wraps w.user h) (hf : w.Foreign s h)
    (hitem : ∀ b v N u, Invariant (R + N) { w with user := u } →
      World.Foreign { w with user := u } s b → (m b v).Refused E { w with user := u })
    (hvalue : ∀ b p v N u, World.ItemHandle { w with user := u } s b p → p.kind = kind →
      Invariant (R + N) { w with user := u } → World.ForeignVal { w with user := u } s v →
      (m b v).Refused E { w with user := u }) :
    (lendingItem kind i fun b => lendingArg a fun v => m b v).Declined E w := by
  refine lendingHandle_declined hw fun b N u hN hb heq hu hw' => ?_
  refine lendingArg_declined hw' fun v M u' hM hv hat hu' hw'' => .inr ?_
  rcases hw''.item_cases (hb.of_le hM) s with ⟨p, hp, hown⟩ | hforeign
  · refine hvalue b p v M u' hown hp hw'' ⟨h, hat h ?_, hf⟩
    rcases hgiven with hgiven | hgiven
    · obtain rfl := heq h hgiven
      exact absurd hf (World.ItemHandle.not_foreign (w := w) hown)
    · cases a with
      | plain v => exact hgiven
      | thing j => exact hgiven.imp fun sort hj => (congrFun hu j).trans hj
  · exact hitem b v M u' hw'' hforeign

/-- What a linker has for the imports of a module is used with the store. -/
theorem lendingLinked_declined {i j : Nat} {m : Nat → Nat → Job κ Reply} (hw : Invariant (R + L) w)
    (hgiven : (Query.instantiate i j : Query κ).Given w h) (hf : w.Foreign s h)
    (hm : ∀ l k items N u, L ≤ N → N.Has (.linker l) → N.Has (.module k) →
      World.Resolves { w with user := u } l k items →
      (∃ item ∈ items, World.Foreign { w with user := u } s item.handle) →
      Invariant (R + N) { w with user := u } → (m l k).Refused E { w with user := u }) :
    (lending i Capture.linker? fun l => lending j Capture.module? fun k => m l k).Declined E w := by
  obtain ⟨l, k, items, hi, hj, hitems, item, hitem, rfl⟩ := hgiven
  refine lending_declined hw fun l' N u hN hl hatl hu hw' => ?_
  refine lending_declined hw' fun k' M u' hM hk hatk hu' hw'' => .inr ?_
  obtain ⟨c, hc, hl'⟩ := hatl
  obtain rfl : .linker l = c := by simpa using hi.symm.trans hc
  cases hl'
  obtain ⟨c, hc, hk'⟩ := hatk
  obtain rfl : .module k = c := by simpa using ((congrFun hu j).trans hj).symm.trans hc
  cases hk'
  obtain ⟨c, hc, hxl⟩ := hl
  obtain ⟨c', hc', hxk⟩ := hk
  exact hm l k items M u' (hN.trans hM) ((Capture.share_of_linker? hc ▸ hxl).of_le hM)
    (Capture.share_of_module? hc' ▸ hxk) hitems ⟨item, hitem, hf⟩ hw''

/-- A wrapper that is to be closed is taken out of the pool, if it can be. -/
theorem closing_declined {calls : Calls κ} {i : Nat} (hw : Invariant (R + L) w)
    (hgiven : w.user.Wraps i h) (hf : w.Foreign s h) : (query calls s (.close i)).Declined E w := by
  -- Closing does not borrow. The wrapper is taken out of the pool, if nobody has borrowed it.
  obtain ⟨sort, hat⟩ := hgiven
  have hmeets : (onPool (·.take i fun t => t.capture?.bind Capture.wrapper?) :
      Job κ (Option Wrapper)).Meets L (Taken _ L) L := take_meets _
  obtain ⟨N, hN, -⟩ := Safe.run hmeets hw
  have hrun : (onPool (·.take i fun t => t.capture?.bind Capture.wrapper?) :
      Job κ (Option Wrapper)).run w = (.value (w.user.take i _).1,
        { w with user := (w.user.take i _).2 }) := rfl
  rw [hrun] at hN
  unfold Declined Refused query
  rw [run_bind_value hrun]
  obtain heq | ⟨t, b, hat', hb, heq⟩ := w.user.take_cases i
    fun t => t.capture?.bind Capture.wrapper?
  · rw [heq]
    exact .inl rfl
  · rw [heq] at hN ⊢
    obtain rfl : t = .capture (.wrapper ⟨h, sort⟩) := by simpa [Pool.thing?, hat'] using hat
    cases hb
    exact .inr (Act.Refused.here (close_refused hN hf))

variable (host : Runner (Code κ) Pool)

/-- A function of another store is not called, and none is called with it. -/
theorem call_declined {f : Nat} {args : List Arg} (hw : Invariant (R + L) w) (hg : w.guest? s = some g)
    (hgiven : (Query.call f args : Query κ).Given w h) (hf : w.Foreign s h) :
    (query (Calls.through host) s (.call f args)).Declined (Query.Earlier (.call f args : Query κ)) w := by
  refine lendingHandle_declined hw fun f' N u hN hfunc heq hu hw' => ?_
  refine lendingArgs_declined hw' fun vs M u' hM hvs hat hu' hw'' => .inr (.here ?_)
  -- It is the function that belongs to another store, or else an argument.
  rcases hw''.item_cases (hfunc.of_le hM) s with ⟨p, hp, hown⟩ | hforeign
  · obtain ⟨i, rfl⟩ := Guest.Place.exists_func hp
    refine Func.call_args_refused host hw'' hg hown hvs ?_ fun type e he => ⟨type, vs, he⟩
    rcases hgiven with hgiven | ⟨a, ha, hgiven⟩
    · obtain rfl := heq h hgiven
      exact absurd hf (World.ItemHandle.not_foreign (w := w) hown)
    · refine ⟨_, hat a ha h ?_, h, rfl, hf⟩
      cases a with
      | plain v => exact hgiven
      | thing j => exact hgiven.imp fun sort hj => (congrFun hu j).trans hj
  · exact Func.call_refused hw'' hforeign host vs

theorem type_declined {i : Nat} (hw : Invariant (R + L) w) (hg : w.guest? s = some g)
    (hgiven : w.user.Wraps i h) (hf : w.Foreign s h) :
    (query (Calls.through host) s (.type i)).Declined E w := by
  refine lending_declined hw fun item N u _ _ hat _ hw' => .inr (.here ?_)
  refine Item.type_refused hw' (h := h) hf hg ?_
  obtain ⟨c, hc, hitem⟩ := hat
  obtain ⟨sort, hthing⟩ := hgiven
  obtain rfl : .wrapper ⟨h, sort⟩ = c := by simpa using hthing.symm.trans hc
  exact Capture.handle_of_item? hitem

theorem globalSet_declined {i : Nat} {v : Arg} (hw : Invariant (R + L) w) (hg : w.guest? s = some g)
    (hgiven : w.user.Wraps i h ∨ v.Wraps w.user h) (hf : w.Foreign s h) :
    (query (Calls.through host) s (.globalSet i v)).Declined
      (Query.Earlier (.globalSet i v : Query κ)) w := by
  refine lendingSet_declined hw hgiven hf (fun b v N u hw' hb => .here (Global.set_refused hw' hb v))
    fun b p v N u hown hp hw' hv => ?_
  obtain ⟨n, rfl⟩ := Guest.Place.exists_global hp
  exact .here (Global.set_value_refused hw' hv hg hown (.inl rfl) fun k => .inr ⟨_, _, rfl⟩)

theorem tableSet_declined {i index : Nat} {v : Arg} (hw : Invariant (R + L) w)
    (hg : w.guest? s = some g) (hgiven : w.user.Wraps i h ∨ v.Wraps w.user h) (hf : w.Foreign s h) :
    (query (Calls.through host) s (.tableSet i index v)).Declined
      (Query.Earlier (.tableSet i index v : Query κ)) w := by
  refine lendingSet_declined hw hgiven hf
    (fun b v N u hw' hb => .here (Table.set_refused hw' hb index v))
    fun b p v N u hown hp hw' hv => ?_
  obtain ⟨n, rfl⟩ := Guest.Place.exists_table hp
  exact .here (Table.set_value_refused hw' hv hg hown (fun k => ⟨_, _, rfl⟩) index)

theorem tableGrow_declined {i delta : Nat} {v : Arg} (hw : Invariant (R + L) w)
    (hg : w.guest? s = some g) (hgiven : w.user.Wraps i h ∨ v.Wraps w.user h) (hf : w.Foreign s h) :
    (query (Calls.through host) s (.tableGrow i delta v)).Declined
      (Query.Earlier (.tableGrow i delta v : Query κ)) w := by
  refine lendingSet_declined hw hgiven hf
    (fun b v N u hw' hb => .here (Table.grow_refused hw' hb delta v))
    fun b p v N u hown hp hw' hv => ?_
  obtain ⟨n, rfl⟩ := Guest.Place.exists_table hp
  exact .here (Table.grow_value_refused hw' hv hg hown (fun k => ⟨_, _, rfl⟩) delta)

/-- Nothing of another store is imported. -/
theorem instance_declined {m : Nat} {imports : List Nat} (hw : Invariant (R + L) w)
    (hs : .tenure s known none ∈ L) (hgiven : ∃ i ∈ imports, w.user.Wraps i h) (hf : w.Foreign s h) :
    (query (Calls.through host) s (.instance_ m imports)).Declined
      (Query.Earlier (.instance_ m imports : Query κ)) w := by
  refine lending_declined hw fun m N u hN hm _ hu hw' => ?_
  refine lendingAll_declined hw' fun items M u' hM hitems hat hu' hw'' => .inr (.here ?_)
  obtain ⟨c, hc, hx⟩ := hm
  obtain ⟨i, hi, sort, hthing⟩ := hgiven
  obtain ⟨item, hitem, c', hc', hsort⟩ := hat i hi
  have hforeign : w.Foreign s item.handle := by
    rw [congrFun hu i, hthing] at hc'
    cases hc'
    rw [Capture.handle_of_item? hsort]
    exact hf
  have hheld : ∀ x ∈ Item.sharesAll items, M.Has x := by
    intro x hx
    obtain ⟨item, hitem, rfl⟩ := List.mem_map.mp hx
    obtain ⟨c, hc, hx⟩ := hitems item hitem
    exact Capture.share_of_item? hc ▸ hx
  exact Instance.create_refused host hw'' ((Ledger.has_of_tenure hs).of_le (hN.trans hM))
    ((Capture.share_of_module? hc ▸ hx).of_le hM) hheld ⟨item, hitem, hforeign⟩ (.inl rfl)
    fun n => .inr ⟨_, _, rfl⟩

/-- A query that is given an object of another store is declined. -/
theorem query_declined (hw : Invariant (R + L) w) (hs : .tenure s known none ∈ L)
    (hg : w.guest? s = some g) (q : Query κ) (hgiven : q.Given w h) (hf : w.Foreign s h) :
    (query (Calls.through host) s q).Declined q.Earlier w := by
  -- A query that names one object and uses no other looks at it first, and does nothing before.
  have hnamed : ∀ {sort : HandleSort} {i : Nat} {m : Handle → Job κ Reply}, w.user.Wraps i h →
      (∀ N u, Invariant (R + N) { w with user := u } →
        World.Foreign { w with user := u } s h → (m h).Refused q.Earlier { w with user := u }) →
      (lendingHandle sort i m).Declined q.Earlier w :=
    fun hgiven hm => lendingForeign_declined hw hgiven hf hm
  cases q with
  | call f args => exact call_declined host hw hg hgiven hf
  | type i => exact type_declined host hw hg hgiven hf
  | globalNew type init =>
    exact lendingArg_foreign hw hgiven hf fun v N u hw' hv =>
      .here (Global.create_refused hw' hv ⟨_, _, rfl⟩)
  | tableNew type init =>
    exact lendingArg_foreign hw hgiven hf fun v N u hw' hv =>
      .here (Table.create_refused hw' hv ⟨_, _, rfl⟩)
  | globalSet i v => exact globalSet_declined host hw hg hgiven hf
  | tableSet i index v => exact tableSet_declined host hw hg hgiven hf
  | tableGrow i delta v => exact tableGrow_declined host hw hg hgiven hf
  | globalGet i => exact hnamed hgiven fun N u hw' hf => .here (Global.get_refused hw' hf)
  | memoryPages i => exact hnamed hgiven fun N u hw' hf => .here (Memory.pages_refused hw' hf)
  | memorySize i => exact hnamed hgiven fun N u hw' hf => .here (Memory.size_refused hw' hf)
  | memoryGrow i delta => exact hnamed hgiven fun N u hw' hf => .here (Memory.grow_refused hw' hf delta)
  | memoryRead i offset len =>
    exact hnamed hgiven fun N u hw' hf => .here (Memory.read_refused hw' hf offset len)
  | memoryWrite i offset bytes =>
    exact hnamed hgiven fun N u hw' hf => .here (Memory.write_refused hw' hf offset bytes)
  | memoryData i f => exact hnamed hgiven fun N u hw' hf => .here (Memory.withData_refused hw' hf f)
  | tableSize i => exact hnamed hgiven fun N u hw' hf => .here (Table.size_refused hw' hf)
  | tableGet i index => exact hnamed hgiven fun N u hw' hf => .here (Table.get_refused hw' hf index)
  | getExport i name => exact hnamed hgiven fun N u hw' hf => .here (Instance.getExport_refused hw' hf name)
  | getFunc i name => exact hnamed hgiven fun N u hw' hf => .here (Instance.getFunc_refused hw' hf name)
  | exports i => exact hnamed hgiven fun N u hw' hf => .here (Instance.exports_refused hw' hf)
  | close i => exact closing_declined hw hgiven hf
  | defineInstance l module i =>
    refine lending_declined hw fun l N u hN hl hat hu hw' => ?_
    refine lendingForeign_declined hw' (hgiven.imp fun sort hj => (congrFun hu i).trans hj) hf
      fun M u' hw'' hf => .here (Linker.defineInstance_refused hw'' hf l module)
  | instance_ m imports => exact instance_declined host hw hs hgiven hf
  | defineModule l name m =>
    exact lendingLinked_declined hw hgiven hf fun l k items N u hN hl hk hitems hf hw' =>
      .here (Linker.defineModule_refused host hw' ((Ledger.has_of_tenure hs).of_le hN) hl hk hitems hf
        (.inl rfl) (fun n => .inr ⟨_, _, rfl⟩) name)
  | instantiate l m =>
    exact lendingLinked_declined hw hgiven hf fun l k items N u hN hl hk hitems hf hw' =>
      .here (Linker.instantiate_refused host hw' ((Ledger.has_of_tenure hs).of_le hN) hl hk hitems hf
        (.inl rfl) fun n => .inr ⟨_, _, rfl⟩)
  -- What is left names nothing to use with a store.
  | _ => exact hgiven.elim

end Job

end Queries

/-! ## Isolation -/

/-- Nothing of one store gets into another. -/
structure World.Isolated (w : World (Code κ) Pool) (host : Runner (Code κ) Pool) : Prop where
  /-- The engine has never been given anything to use in a store that belongs to another one. -/
  unmixed : ∀ s, .foreign s ∉ w.faults
  /-- What a handle stands for belongs to the store that the handle shares and is checked against. -/
  handles : ∀ h c, w.heap.get? h = some c → c.target.store = c.store
  /-- Every closure that a store called belongs to that store, which it is given as that of its
  caller. -/
  callers : ∀ e ∈ w.chronicle.entries, ∃ r, e.closure = some r ∧ r.store = e.store
  /-- A query that is given an object of another store is never answered. It panics over the object,
  unless one of its earlier checks fails, or the query names things that cannot be lent. -/
  queries : ∀ (s : Nat) (g : Guest.Store) (q : Query κ) (h : Handle), w.InUse s g → q.Given w h →
    w.Foreign s h → (Job.query (Calls.through host) s q).Declined q.Earlier w
  /-- The type of a function of another store is not told. -/
  types : ∀ (s : Nat) (g : Guest.Store) (h : Handle), w.InUse s g → w.Foreign s h →
    (Func.type s h : Job κ Signature).Refused (fun _ => False) w
  /-- A closure that gives a function of another store panics: the guest that called it gets a trap,
  and the store keeps the panic. -/
  closures : ∀ (s place key : Nat) (type : Signature) (g : Guest.Store)
    (r : Registration (Code κ)) (instance_ : Option Nat) (args : List Guest.Value), w.InUse s g →
    g.funcs[place]? = some (.host key type) → w.registry.get? key = some r →
    w.GivesForeign host r key instance_ args → r.store = s ∧
    ∃ w', (callHost host s key instance_ args).run w =
      (.value (.error (.hostTrap panicMessage)), w') ∧ w'.kept? s = some (.text foreignMessage)
  /-- The call in the course of which it does so panics, whatever guest code and whatever other closures
  have run in between. -/
  calls : ∀ (s f key : Nat) (g : Guest.Store) (r : Registration (Code κ)) (vs : List Val)
    (caller : Option Nat) (args : List Guest.Value) (w' : World (Code κ) Pool), w.InUse s g →
    (∀ v ∈ vs, w.user.LendsVal v) → Func.CallsOut host s f vs key caller args w w' →
    w'.registry.get? key = some r → w'.GivesForeign host r key caller args →
    ∃ w'', (Func.call host s f vs).run w = (.panic (.text foreignMessage), w'')
  /-- A panic that a store keeps is raised again: every query ends as if the panics of closures
  unwound through guest code. -/
  raised : ∀ (s : Nat) (g : Guest.Store) (q : Query κ), w.InUse s g →
    (Job.query (Calls.through host) s q).run w = (Job.query (Calls.unwinding host) s q).run w

theorem Invariant.isolated {L : Ledger (Code κ)} {w : World (Code κ) Pool} (hw : Invariant L w)
    {host : Runner (Code κ) Pool} (hhost : Fair host) : w.Isolated host where
  unmixed s hf := by cases hw.sound.blameless.faultless _ hf
  handles := hw.sound.queued.paired
  callers e he := by
    obtain ⟨f, -, -, -, hclosure⟩ := hw.sound.blameless.calls e he
    exact ⟨f.closure, hclosure, hw.sound.blameless.callers e he _ hclosure⟩
  queries s g q h huse hgiven hf := by
    obtain ⟨known, hs⟩ := hw.tenure_of_inUse huse
    have hw : Invariant (0 + L) w := (zero_add L).symm ▸ hw
    exact Job.query_declined host hw hs huse.guest q hgiven hf
  types s g h huse hf := by
    have hw : Invariant (0 + L) w := (zero_add L).symm ▸ hw
    exact Func.type_refused hw hf
  closures s place key type g r instance_ args huse hplace hr hf := by
    obtain ⟨rfl, known, L', hmem, hknown⟩ := hw.knows huse hplace hr
    exact ⟨rfl, callHost_foreign hhost hmem hknown hf⟩
  calls s f key g r vs caller args w' huse hlent hout hr hf := by
    obtain ⟨known, hs⟩ := hw.tenure_of_inUse huse
    have hvs : ∀ x ∈ Val.sharesAll vs, L.Has x := fun x hx => by
      obtain ⟨v, hv, hx⟩ := List.mem_flatMap.mp hx
      exact hw.has_of_lendsVal (hlent v hv) x hx
    have hw : Invariant (0 + L) w := (zero_add L).symm ▸ hw
    exact (Func.call_foreign hhost hw hs hvs hout hr hf).panics
  raised s g q huse := by
    obtain ⟨known, hs⟩ := hw.tenure_of_inUse huse
    have hw : Invariant (0 + L) w := (zero_add L).symm ▸ hw
    -- The closures are the same on both sides, and only calls differ.
    have hsame : SameHost host host := fun _ _ _ _ _ _ _ _ => .refl _
    exact Job.query_agrees (Calls.same_unwinding hhost hhost hsame) hs q 0 w hw

/-- In every world that an embedder reaches, with any number of stores, and whatever its programs do
in the meantime, stores are isolated. -/
theorem Embedder.stores_isolated (embedder : Embedder κ) (depth : Nat)
    (programs : List (Program κ Unit)) (order : List Nat) (nesting : Nat) :
    ((embedder.start depth programs).run order).world.Isolated (embedder.hostTo nesting) := by
  obtain ⟨Ls, -, hw⟩ := (embedder.safe_start depth programs).run order
  exact hw.isolated (embedder.fair_hostTo nesting)

/-- Neither is an export looked up in an instance of another store, nor is the type of a function of
another store told. -/
theorem Embedder.stores_isolated_lent :
    (Query.getExport 10 "memory").Given Specimen.world 5 ∧ Specimen.world.Foreign 1 5 ∧
      (Job.query (Calls.through (Specimen.embedder.hostTo 1)) 1 (.getExport 10 "memory")).Declined
        (Query.getExport 10 "memory" : Query Unit).Earlier Specimen.world ∧
      (Func.type 1 0 : Job Unit Signature).Refused (fun _ => False) Specimen.world := by
  have hisolated : Specimen.world.Isolated (Specimen.embedder.hostTo 1) :=
    Specimen.world_eq ▸ Specimen.embedder.stores_isolated 1 Specimen.programs Specimen.order 1
  have hgiven : (Query.getExport 10 "memory").Given Specimen.world 5 := by
    refine ⟨.instance_, ?_⟩
    rw [Pool.thing?, Specimen.at?_world, Specimen.places_world]
    rfl
  have hinstance : Specimen.world.Foreign 1 5 :=
    ⟨_, Specimen.get?_world (by rw [Specimen.slots_world]; rfl), Nat.one_pos, by decide⟩
  have hfunc : Specimen.world.Foreign 1 0 :=
    ⟨_, Specimen.get?_world (by rw [Specimen.slots_world]; rfl), Nat.one_pos, by decide⟩
  refine ⟨hgiven, hinstance, ?_, ?_⟩
  · exact hisolated.queries 1 Specimen.other (.getExport 10 "memory") 5 Specimen.inUse_other hgiven
      hinstance
  · exact hisolated.types 1 Specimen.other 0 Specimen.inUse_other hfunc

end WasmHost.Host
