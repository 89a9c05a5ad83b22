import WasmHost.Proofs.Library
import WasmHost.Proofs.Lending

/-!
# What requests leave

Whatever an embedder asks for, a request keeps the ledger of the program that makes it: what is given
goes into the pool, and what is consumed comes out of it. So a program, too, keeps its ledger
whatever it asks for, and closures whose code is a program are fair to whoever calls them.

A request names things by their places in the pool. What is at a place is not known to the program
that asks, nor is it sure that anything is there: another thread may have taken it. So a request
begins by having its things lent, and does nothing if one of them is not there or is of another
sort. After that, it is an operation on things that somebody keeps, with the tenure of a store that
its program runs with, and the lemmas about operations apply. What comes of it is put into the pool
before the loans end.

Every request has the same shape, and so have the proofs: lend, apply the lemma of the operation,
put the answer away. Where two things are lent, the ledger has grown in between, which `≤` keeps
track of.
-/

namespace WasmHost.Host

open Act

variable {κ α β : Type}

/-! ## Things of a sort -/

namespace Capture

theorem share_of_engine? {c : Capture} {e : Nat} (h : c.engine? = some e) : c.share = .engine e := by
  cases c <;> simp_all [engine?, share]

theorem share_of_module? {c : Capture} {m : Nat} (h : c.module? = some m) : c.share = .module m := by
  cases c <;> simp_all [module?, share]

theorem share_of_linker? {c : Capture} {l : Nat} (h : c.linker? = some l) : c.share = .linker l := by
  cases c <;> simp_all [linker?, share]

theorem share_of_wrapper? {c : Capture} {x : Wrapper} (h : c.wrapper? = some x) :
    c.share = x.share := by
  cases c <;> simp_all [wrapper?, share]

theorem share_of_handle? {c : Capture} {sort : HandleSort} {h : Handle}
    (hc : c.handle? sort = some h) : c.share = .handle h sort := by
  cases c with
  | wrapper x =>
    simp only [handle?, Option.ite_none_right_eq_some, Option.some.injEq] at hc
    obtain ⟨rfl, rfl⟩ := hc
    rfl
  | _ => cases hc

theorem share_of_item? {c : Capture} {item : Item} (h : c.item? = some item) :
    c.share = item.wrapper.share := by
  unfold item? at h
  split at h
  · cases h
    rfl
  · cases h

theorem shares_of_val? {c : Capture} {v : Val} (h : c.val? = some v) : v.shares = [c.share] := by
  unfold val? at h
  split at h
  · cases h
    rfl
  · cases h
    rfl
  · cases h

/-- A thing that was taken out as something of a sort. -/
theorem token_of_bind {β : Type} {sort : Capture → Option β} {f : β → Share} {t : Thing} {b : β}
    (ht : t.capture?.bind sort = some b)
    (hshare : ∀ {c : Capture} {b : β}, sort c = some b → c.share = f b) :
    (t.token : Token κ) = .own (f b) := by
  cases t with
  | store s => cases ht
  | capture c => exact congrArg Token.own (hshare ht)

end Capture

/-- The shares of values are those of what they refer to. -/
theorem Val.shares_filterMap (vs : List Val) :
    (vs.filterMap Val.capture?).map Capture.share = sharesAll vs := by
  induction vs with
  | nil => rfl
  | cons v vs ih => cases hv : v.capture? <;> simp [shares, hv, ih]

namespace Ledger

variable {L M : Ledger κ}

theorem has_loan (i : Nat) (x : Share) (L : Ledger κ) : Has (.loan i x ::ₘ L) x :=
  has_cons.mpr (.inl rfl)

theorem Has.of_le {x : Share} (h : L.Has x) (hle : L ≤ M) : M.Has x := by
  obtain ⟨t, ht, hx⟩ := h
  exact ⟨t, Multiset.mem_of_le hle ht, hx⟩

end Ledger

variable {L rest : Ledger (Code κ)} {s : Nat}

namespace Job

/-- A request keeps a ledger as it is. -/
def Keeps (m : Job κ α) (L : Ledger (Code κ)) : Prop := m.Leaves L (fun _ => L) L

/-! ## Lending and taking -/

/-- Something that is lent may be relied on. -/
def Lends (sort : Capture → Option β) (N : Ledger (Code κ)) (b : β) : Prop :=
  ∃ c, sort c = some b ∧ N.Has c.share

theorem lending_keeps {i : Nat} {sort : Capture → Option β} {m : β → Job κ Reply}
    (hm : ∀ b N, L ≤ N → Lends sort N b → (m b).Keeps N) : (lending i sort m).Keeps L := by
  refine Meets.bind (lend_meets sort) fun o N hN => ?_
  -- Nothing is there, and the request is over; or it is lent, and put back in the end whatever
  -- comes of the request.
  cases o with
  | none =>
    subst hN
    exact Leaves.pure rfl
  | some b =>
    obtain ⟨c, hc, rfl⟩ := hN
    exact Leaves.ensuring (hm b _ (Multiset.le_cons_self _ _) ⟨c, hc, Ledger.has_loan _ _ _⟩)
      (fun _ => restore_leaves) restore_leaves

theorem lendingAll_keeps {sort : Capture → Option β} {is : List Nat} {m : List β → Job κ Reply}
    (hm : ∀ bs N, L ≤ N → (∀ b ∈ bs, Lends sort N b) → (m bs).Keeps N) :
    (lendingAll sort is m).Keeps L := by
  induction is generalizing L m with
  | nil => exact hm [] L le_rfl (by simp)
  | cons i is ih =>
    refine lending_keeps fun b N hN hb => ih fun bs M hM hbs => hm (b :: bs) M (hN.trans hM) ?_
    intro b' hb'
    rcases List.mem_cons.mp hb' with rfl | hb'
    · exact hb.imp fun c hc => ⟨hc.1, hc.2.of_le hM⟩
    · exact hbs b' hb'

theorem shares_plain (v : Val) : (plain v).shares = [] := by
  unfold plain
  split
  · rfl
  · rename_i h
    simp [Val.shares, Option.not_isSome_iff_eq_none.mp h]

theorem lendingArg_keeps {a : Arg} {m : Val → Job κ Reply}
    (hm : ∀ v N, L ≤ N → (∀ x ∈ v.shares, N.Has x) → (m v).Keeps N) :
    (lendingArg a m).Keeps L := by
  cases a with
  | plain v => exact hm (plain v) L le_rfl (by simp [shares_plain])
  | thing i =>
    refine lending_keeps fun v N hN hv => hm v N hN ?_
    obtain ⟨c, hc, hx⟩ := hv
    simpa [Capture.shares_of_val? hc] using hx

theorem lendingArgs_keeps {as : List Arg} {m : List Val → Job κ Reply}
    (hm : ∀ vs N, L ≤ N → (∀ x ∈ Val.sharesAll vs, N.Has x) → (m vs).Keeps N) :
    (lendingArgs as m).Keeps L := by
  induction as generalizing L m with
  | nil => exact hm [] L le_rfl (by simp)
  | cons a as ih =>
    refine lendingArg_keeps fun v N hN hv => ih fun vs M hM hvs => hm (v :: vs) M (hN.trans hM) ?_
    intro x hx
    rw [Val.sharesAll_cons] at hx
    rcases List.mem_append.mp hx with hx | hx
    · exact (hv x hx).of_le hM
    · exact hvs x hx

/-- Things that are taken out become shares of one's own. -/
theorem takeAll_leaves {sort : Capture → Option β} {f : β → Share}
    (hshare : ∀ c b, sort c = some b → c.share = f b) (is : List Nat) :
    (takeAll sort is : Job κ (List β)).Leaves L (fun bs => Ledger.owns (bs.map f) + L) rest := by
  induction is generalizing L with
  | nil => exact Leaves.pure (by simp)
  | cons i is ih =>
    refine Meets.bind (take_meets fun t => t.capture?.bind sort) fun o N hN => ?_
    cases o with
    | none =>
      subst hN
      exact Leaves.bind ih fun bs => Leaves.pure (by simp)
    | some b =>
      obtain ⟨t, ht, rfl⟩ := hN
      rw [Capture.token_of_bind ht (hshare _ _)]
      exact Leaves.bind ih fun bs => Leaves.pure (by simp)

/-- What a closure gives becomes the caller's. -/
theorem give_leaves (as : List Arg) :
    (give as : Job κ (List Val)).Leaves L (fun vs => Ledger.owns (Val.sharesAll vs) + L) rest := by
  induction as generalizing L with
  | nil => exact Leaves.pure (by simp)
  | cons a as ih =>
    cases a with
    | plain v => exact Leaves.bind ih fun vs => Leaves.pure (by simp [shares_plain])
    | thing i =>
      refine Meets.bind (take_meets fun t => t.capture?.bind Capture.val?) fun o N hN => ?_
      cases o with
      | none =>
        subst hN
        exact Leaves.bind ih fun vs => Leaves.pure (by simp [Val.shares, Val.capture?])
      | some v =>
        obtain ⟨t, ht, rfl⟩ := hN
        obtain ⟨c, hc, hv⟩ := Option.bind_eq_some_iff.mp ht
        obtain ⟨c, rfl⟩ : ∃ c', t = .capture c' := by cases t <;> simp_all [Thing.capture?]
        cases hc
        refine Leaves.bind ih fun vs => Leaves.pure ?_
        simp [Thing.token, Capture.shares_of_val? hv]

/-! ## Answers -/

theorem ownAll_leaves (cs : List Capture) :
    (ownAll cs : Job κ (List Nat)).Leaves (Ledger.owns (cs.map Capture.share) + L) (fun _ => L)
      rest := by
  induction cs with
  | nil => exact Leaves.pure (by simp)
  | cons c cs ih =>
    refine Leaves.bind ((own_leaves (.capture c)).cast ?_) fun _ =>
      Leaves.bind ih fun _ => Leaves.pure rfl
    simp [Thing.token]

theorem answer_leaves (cs : List Capture) (a : Answer) :
    (answer cs a : Job κ Reply).Leaves (Ledger.owns (cs.map Capture.share) + L) (fun _ => L) rest :=
  Leaves.bind (ownAll_leaves cs) fun _ => Leaves.pure rfl

theorem answer_keeps (a : Answer) : (answer [] a : Job κ Reply).Leaves L (fun _ => L) rest :=
  (answer_leaves [] a).cast (by simp)

theorem answerHandle_leaves (sort : HandleSort) (h : Handle) :
    (answerHandle sort h : Job κ Reply).Leaves (.own (.handle h sort) ::ₘ L) (fun _ => L) rest :=
  answer_leaves [.wrapper ⟨h, sort⟩] _

theorem answerVals_leaves (vs : List Val) :
    (answerVals vs : Job κ Reply).Leaves (Ledger.owns (Val.sharesAll vs) + L) (fun _ => L) rest :=
  (answer_leaves _ _).cast (by rw [Val.shares_filterMap])

theorem answerItems_leaves (items : List (String × Item)) :
    (answerItems items : Job κ Reply).Leaves
      (Ledger.owns (Item.sharesAll (items.map (·.2))) + L) (fun _ => L) rest :=
  (answer_leaves _ _).cast (by simp [Item.sharesAll, Function.comp_def, Capture.share])

theorem answerHandle_keeps {N : Ledger (Code κ)} {m : Job κ Handle} {sort : HandleSort}
    (hm : m.Leaves N (fun h => .own (.handle h sort) ::ₘ L) L) :
    Leaves (do answerHandle sort (← m)) N (fun _ => L) L :=
  Leaves.bind hm fun h => answerHandle_leaves sort h

theorem answerVals_keeps {m : Job κ β} {f : β → List Val}
    (hm : m.Leaves L (fun b => Ledger.owns (Val.sharesAll (f b)) + L) L) :
    Keeps (do answerVals (f (← m))) L :=
  Leaves.bind hm fun b => answerVals_leaves (f b)

theorem answerItems_keeps {m : Job κ β} {f : β → List (String × Item)}
    (hm : m.Leaves L (fun b => Ledger.owns (Item.sharesAll ((f b).map (·.2))) + L) L) :
    Keeps (do answerItems (f (← m))) L :=
  Leaves.bind hm fun b => answerItems_leaves (f b)

theorem answerNumber_keeps {m : Job κ Nat} (hm : m.Leaves L (fun _ => L) L) :
    Keeps (do answerNumber (← m)) L := Leaves.bind hm fun _ => answer_keeps _

theorem answerBytes_keeps {m : Job κ (List UInt8)} (hm : m.Leaves L (fun _ => L) L) :
    Keeps (do answerBytes (← m)) L := Leaves.bind hm fun _ => answer_keeps _

theorem answerDone_keeps {N : Ledger (Code κ)} {m : Job κ Unit} (hm : m.Leaves N (fun _ => L) L) :
    Leaves (do m; answerDone) N (fun _ => L) L := Leaves.bind hm fun _ => answer_keeps _

/-! ## Letting go and sharing -/

theorem letGo_leaves (t : Thing) : (letGo t : Job κ Unit).Leaves (t.token ::ₘ L) (fun _ => L) rest := by
  cases t with
  | capture c => exact releaseCapture_leaves c
  | store s =>
    refine counted_leaves ?_
    exact (deleteStore_leaves s [] []).cast (Multiset.cons_swap _ _ _)

theorem share_keeps {c : Capture} (hc : L.Has c.share) : (share c : Job κ Reply).Keeps L := by
  refine Leaves.bind (M := fun _ => .own c.share ::ₘ L) ?_ fun _ =>
    (answer_leaves [c] _).cast (by simp)
  refine Leaves.update (fun w => by cases c <;> rfl) (by simp [Ledger.Alike.refl]) fun T w h hpos => ?_
  exact (h.retainCapture (hpos _ hc)).cast (Multiset.cons_add _ _ _).symm

end Job

/-! ## Calls

Calls are the only operations that run closures, and what closures do depends on requests. To cut
through the circle, requests are treated with any operations in the place of calls that keep the
contract of calls. -/

/-- The contract of the operations by which host code runs guest code. -/
structure Calls.Fair (calls : Calls κ) : Prop where
  call : ∀ {L : Ledger (Code κ)} {s : Nat} {known : List (Pin (Code κ))} {f : Handle}
    {args : List Val}, .tenure s known none ∈ L → L.Has (.handle f (.item .func)) →
    (∀ x ∈ Val.sharesAll args, L.Has x) →
    (calls.call s f args).Leaves L (fun vs => Ledger.owns (Val.sharesAll vs) + L) L
  instance_ : ∀ {L : Ledger (Code κ)} {s : Nat} {known : List (Pin (Code κ))} {imports : List Item},
    .tenure s known none ∈ L → (∀ x ∈ Item.sharesAll imports, L.Has x) → ∀ module,
    (calls.instance_ s module imports).Leaves L (fun h => .own (.handle h .instance_) ::ₘ L) L
  instantiate : ∀ {L : Ledger (Code κ)} {s l : Nat} {known : List (Pin (Code κ))},
    .tenure s known none ∈ L → L.Has (.linker l) → ∀ module,
    (calls.instantiate s l module).Leaves L (fun h => .own (.handle h .instance_) ::ₘ L) L
  defineModule : ∀ {L : Ledger (Code κ)} {s l : Nat} {known : List (Pin (Code κ))},
    .tenure s known none ∈ L → L.Has (.linker l) → ∀ name module,
    (calls.defineModule s l name module).Leaves L (fun _ => L) L

/-- Calls keep their contract if closures do. -/
theorem Calls.fair_through {host : Runner (Code κ) Pool} (h : Host.Fair host) :
    (Calls.through host).Fair where
  call := Func.call_leaves h
  instance_ := Instance.create_leaves h
  instantiate := Linker.instantiate_leaves h
  defineModule := Linker.defineModule_leaves h

namespace Job

/-! ## Queries

The requests that use a store, one case for each. The three lemmas on lending put the assumptions of
an operation in the form in which its own lemma has them. -/

section Lending

variable {i : Nat}

theorem lendingHandle_keeps {sort : HandleSort} {m : Handle → Job κ Reply}
    (hm : ∀ h N, L ≤ N → N.Has (.handle h sort) → (m h).Keeps N) :
    (lendingHandle sort i m).Keeps L := by
  refine lending_keeps fun h N hN hh => hm h N hN ?_
  obtain ⟨c, hc, hx⟩ := hh
  exact Capture.share_of_handle? hc ▸ hx

theorem lendingItem_keeps {kind : ItemKind} {m : Handle → Job κ Reply}
    (hm : ∀ h N, L ≤ N → N.Has (.handle h (.item kind)) → (m h).Keeps N) :
    (lendingItem kind i m).Keeps L := lendingHandle_keeps hm

theorem lendingLinker_keeps {m : Nat → Job κ Reply}
    (hm : ∀ l N, L ≤ N → N.Has (.linker l) → (m l).Keeps N) :
    (lending i Capture.linker? m).Keeps L := by
  refine lending_keeps fun l N hN hl => hm l N hN ?_
  obtain ⟨c, hc, hx⟩ := hl
  exact Capture.share_of_linker? hc ▸ hx

theorem lendingEngine_keeps {m : Nat → Job κ Reply}
    (hm : ∀ e N, L ≤ N → N.Has (.engine e) → (m e).Keeps N) :
    (lending i Capture.engine? m).Keeps L := by
  refine lending_keeps fun e N hN he => hm e N hN ?_
  obtain ⟨c, hc, hx⟩ := he
  exact Capture.share_of_engine? hc ▸ hx

theorem lendingItems_keeps {is : List Nat} {m : List Item → Job κ Reply}
    (hm : ∀ items N, L ≤ N → (∀ x ∈ Item.sharesAll items, N.Has x) → (m items).Keeps N) :
    (lendingAll Capture.item? is m).Keeps L := by
  refine lendingAll_keeps fun items N hN hitems => hm items N hN fun x hx => ?_
  obtain ⟨item, hitem, rfl⟩ := List.mem_map.mp hx
  obtain ⟨c, hc, hx⟩ := hitems item hitem
  exact Capture.share_of_item? hc ▸ hx

end Lending

/-- A query keeps the ledger of whoever may use the store. -/
theorem query_keeps {calls : Calls κ} (hcalls : calls.Fair) {known : List (Pin (Code κ))}
    (hs : .tenure s known none ∈ L) (q : Query κ) : (query calls s q).Keeps L := by
  -- Both hold of every ledger that has come about by lending.
  have store {N : Ledger (Code κ)} (hN : L ≤ N) : N.Has (.store s) :=
    (Ledger.has_of_tenure hs).of_le hN
  have tenure {N : Ledger (Code κ)} (hN : L ≤ N) : .tenure s known none ∈ N :=
    Multiset.mem_of_le hN hs
  cases q with
  | touch => exact answerDone_keeps (context_leaves s)
  | setFuel fuel => exact answerDone_keeps (Store.setFuel_leaves fuel)
  | fuel => exact answerNumber_keeps Store.fuel_leaves
  | setDeadline ticks => exact answerDone_keeps (Store.setDeadline_leaves ticks)
  | func raw code captures =>
    -- Captures are not lent but taken out, as the closure keeps them.
    refine Leaves.bind (takeAll_leaves (f := Capture.share) (by simp) captures) fun captures => ?_
    refine answerHandle_keeps (counted_gives ?_)
    exact Leaves.bind (context_leaves s) fun _ =>
      Func.register_leaves hs raw raw.shown code captures
  | call f args =>
    refine lendingItem_keeps fun f N hN hf => lendingArgs_keeps fun args M hM hargs => ?_
    exact answerVals_keeps (hcalls.call (tenure (hN.trans hM)) (hf.of_le hM) hargs)
  | type i =>
    refine lending_keeps fun item N hN hitem => ?_
    obtain ⟨c, hc, hx⟩ := hitem
    exact Leaves.bind (Item.type_leaves (Capture.share_of_item? hc ▸ hx)) fun _ => answer_keeps _
  | globalNew type init =>
    exact lendingArg_keeps fun v N hN hv => answerHandle_keeps (Global.create_leaves (tenure hN) hv)
  | globalGet g =>
    refine lendingItem_keeps fun g N hN hg => answerVals_keeps (f := fun v : Val => [v]) ?_
    simpa using Global.get_leaves (store hN) hg
  | globalSet g v =>
    refine lendingItem_keeps fun g N hN hg => lendingArg_keeps fun v M hM hv => ?_
    exact answerDone_keeps (Global.set_leaves (tenure (hN.trans hM)) (hg.of_le hM) hv)
  | memoryNew type => exact answerHandle_keeps Memory.create_leaves
  | memoryPages m => exact lendingItem_keeps fun m N _ hm => answerNumber_keeps (Memory.pages_leaves hm)
  | memorySize m => exact lendingItem_keeps fun m N _ hm => answerNumber_keeps (Memory.size_leaves hm)
  | memoryGrow m delta =>
    exact lendingItem_keeps fun m N _ hm => answerNumber_keeps (Memory.grow_leaves hm delta)
  | memoryRead m offset len =>
    exact lendingItem_keeps fun m N _ hm => answerBytes_keeps (Memory.read_leaves hm offset len)
  | memoryWrite m offset bytes =>
    exact lendingItem_keeps fun m N _ hm => answerDone_keeps (Memory.write_leaves hm offset bytes)
  | memoryData m f =>
    exact lendingItem_keeps fun m N _ hm => answerBytes_keeps (Memory.withData_leaves hm f)
  | tableNew type init =>
    exact lendingArg_keeps fun v N hN hv => answerHandle_keeps (Table.create_leaves (tenure hN) hv)
  | tableSize t => exact lendingItem_keeps fun t N _ ht => answerNumber_keeps (Table.size_leaves ht)
  | tableGet t index =>
    exact lendingItem_keeps fun t N hN ht => answerVals_keeps (Table.get_leaves (store hN) ht index)
  | tableSet t index v =>
    refine lendingItem_keeps fun t N hN ht => lendingArg_keeps fun v M hM hv => ?_
    exact answerDone_keeps (Table.set_leaves (tenure (hN.trans hM)) (ht.of_le hM) hv index)
  | tableGrow t delta init =>
    refine lendingItem_keeps fun t N hN ht => lendingArg_keeps fun v M hM hv => ?_
    exact answerNumber_keeps (Table.grow_leaves (tenure (hN.trans hM)) (ht.of_le hM) hv delta)
  | close i =>
    -- A wrapper that is closed is taken out, too; closing it lets go of it in any case.
    refine Meets.bind (take_meets fun t => t.capture?.bind Capture.wrapper?) fun o N hN => ?_
    cases o with
    | none =>
      subst hN
      exact Leaves.pure rfl
    | some x =>
      obtain ⟨t, ht, rfl⟩ := hN
      rw [Capture.token_of_bind ht Capture.share_of_wrapper?]
      exact Leaves.bind close_leaves fun _ => answer_keeps _
  | instance_ m imports =>
    refine lending_keeps fun m N hN _ => lendingItems_keeps fun items M hM hitems => ?_
    exact answerHandle_keeps (hcalls.instance_ (tenure (hN.trans hM)) hitems m)
  | getExport i name =>
    refine lendingHandle_keeps fun i N hN hi => answerItems_keeps
      (f := fun item : Option Item => item.toList.map fun item => (name, item)) ?_
    simpa [Function.comp_def] using Instance.getExport_leaves hi name
  | getFunc i name =>
    refine lendingHandle_keeps fun i N hN hi => answerItems_keeps
      (f := fun h : Option Handle => h.toList.map fun h => (name, ⟨.func, h⟩)) ?_
    simpa [Function.comp_def, Item.sharesAll, Item.wrapper, Wrapper.share] using
      Instance.getFunc_leaves hi name
  | exports i =>
    exact lendingHandle_keeps fun i N hN hi => answerItems_keeps (Instance.exports_leaves hi)
  | defineFunc l module name type code captures =>
    refine lendingLinker_keeps fun l N hN hl => ?_
    refine Leaves.bind (takeAll_leaves (f := Capture.share) (by simp) captures) fun captures => ?_
    exact answerDone_keeps (counted_leaves
      (Linker.defineFunc_leaves (tenure hN) hl module name type code captures))
  | defineInstance l module i =>
    refine lendingLinker_keeps fun l N hN hl => lendingHandle_keeps fun i M hM hi => ?_
    exact answerDone_keeps
      (Linker.defineInstance_leaves (hl.of_le hM) hi module)
  | defineModule l name m =>
    refine lendingLinker_keeps fun l N hN hl => lending_keeps fun m M hM _ => ?_
    exact answerDone_keeps (hcalls.defineModule (tenure (hN.trans hM)) (hl.of_le hM) name m)
  | getDefault l module =>
    refine lendingLinker_keeps fun l N hN hl => answerHandle_keeps (counted_gives ?_)
    exact Linker.getDefault_leaves (tenure hN) hl module .idle
  | instantiate l m =>
    refine lendingLinker_keeps fun l N hN hl => lending_keeps fun m M hM _ => ?_
    exact answerHandle_keeps (hcalls.instantiate (tenure (hN.trans hM)) (hl.of_le hM) m)

end Job

end WasmHost.Host
