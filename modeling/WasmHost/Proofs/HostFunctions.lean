import WasmHost.Proofs.GuestFunctions
import WasmHost.Proofs.Queues

/-!
# Host functions and their closures

A key of the registry belongs to one host function, from the step in which the function is made to
the step in which its store is deleted; before and after that it belongs to a request that is making
closures or taking them away. So a key is never in use twice, and what is registered under the key
of a host function is the closure that was registered for it.

What could go wrong is this. The registry is one slab for all stores, and a key that becomes free is
the next to be handed out. If a key were freed while a host function still had it, the function
would call some other closure, perhaps of another store; and nothing in the world would show it. To
exclude this it is not enough to say that every host function has a closure. What is said, in
`keyed`, is an equation for each key: it is in use once or not at all, and this number is that of
the host functions that have it *plus* that of the closures without a function that some request
holds. So a key that a host function has cannot be held by a request as well, and to take a closure
out of the registry a request must hold it.

The lemmas follow the life of a key. It is registered, and held by the request; a function is made
for it, and the request holds it no more; the store is deleted, and the request that does so holds
the keys of all its functions; and they are taken out of the registry one by one. A registration
that fails skips the middle of this. Between these steps stores are extended and changed in ways
that no key is affected by.

In the proofs about steps the fields of `Hosted` come in their order, and each is marked where it is
not clear from the goal.
-/

namespace WasmHost.Host

open Guest (Func)

/-! ## Keys

Of the guest part of a store only its host functions count here, and of those only the keys. -/

theorem World.mem_hostKeys {g : Guest.Store} {key : Nat} :
    key ∈ World.hostKeys g ↔ ∃ (place : Nat) (type : Signature),
      g.funcs[place]? = some (.host key type) := by
  simp only [World.hostKeys, List.mem_filterMap]
  constructor
  · rintro ⟨f, hf, hkey⟩
    cases f with
    | guest i index type body => cases hkey
    | host k type =>
      cases hkey
      obtain ⟨place, hp⟩ := List.mem_iff_getElem?.mp hf
      exact ⟨place, type, by rwa [← Array.getElem?_toList]⟩
  · rintro ⟨place, type, hf⟩
    exact ⟨.host key type, List.mem_iff_getElem?.mpr ⟨place, by rwa [Array.getElem?_toList]⟩, rfl⟩

theorem World.hostKeys_of_extends {g g' : Guest.Store} (h : g.Extends g') :
    World.hostKeys g' = World.hostKeys g := by
  obtain ⟨fs, hfs, hnone⟩ := h.funcs
  have : fs.filterMap Func.key? = [] := List.filterMap_eq_nil_iff.mpr hnone
  simp [World.hostKeys, hfs, this]

theorem guestAt_modify (stores : Array StoreCell) (s t : Nat) (f : StoreCell → StoreCell) :
    guestAt (stores.modify s f) t =
      if t = s then (stores[s]?).bind fun c => (f c).guest else guestAt stores t := by
  by_cases ht : t = s
  · subst ht
    cases h : stores[t]? <;> simp [guestAt, Array.getElem?_modify, h]
  · simp [guestAt, Array.getElem?_modify, ht, Ne.symm ht]

theorem guestAt_modify_same (stores : Array StoreCell) (s t : Nat) {f : StoreCell → StoreCell}
    (hf : ∀ c, (f c).guest = c.guest) : guestAt (stores.modify s f) t = guestAt stores t := by
  rw [guestAt_modify]
  split
  · rename_i ht
    simp [ht, guestAt, hf]
  · rfl

theorem guestAt_eq {stores : Array StoreCell} {s : Nat} {c : StoreCell} (h : stores[s]? = some c) :
    guestAt stores s = c.guest := by simp [guestAt, h]

/-- The key of a host function is in use. -/
theorem count_storeKeys_pos {stores : Array StoreCell} {s : Nat} {g : Guest.Store} {key : Nat}
    (hg : guestAt stores s = some g) (hk : key ∈ World.hostKeys g) :
    0 < (total stores storeKeys).count key := by
  obtain ⟨c, hc, hcg⟩ := Option.bind_eq_some_iff.mp hg
  exact Multiset.count_pos.mpr (mem_total.mpr ⟨s, c, hc, by simpa [storeKeys, hcg] using hk⟩)

variable {κ : Type}

namespace Hosted

variable {C C' : Ledger κ} {stores : Array StoreCell} {registry : Slab (Registration κ)}
  {functions : List (HostFunction κ)} {registered : Nat} {finalized : List Nat}

/-- What a thread claims of its closures and stores, it claims truly. -/
theorem of_claims (h : Hosted C stores registry functions registered finalized)
    (ht : ∀ s, C'.tenures s = C.tenures s)
    (hk : ∀ s known p, .tenure s known p ∈ C' → .tenure s known p ∈ C)
    (hp : C'.pins = C.pins) (hm : ∀ pins, .making pins ∈ C' → pins = [] ∨ .making pins ∈ C) :
    Hosted C' stores registry functions registered finalized where
  tenures s := by rw [ht, h.tenures]
  tenured s known p hs := h.tenured s known p (hk s known p hs)
  vacant := h.vacant
  keyed key := by rw [hp, h.keyed]
  pinned pins hpins := by
    obtain rfl | hpins := hm pins hpins
    · simp
    · exact h.pinned pins hpins
  numbered := h.numbered
  bound := h.bound
  made := h.made
  sited := h.sited
  sized := h.sized

/-! ## Stores

Everything said of a store is said of its guest part at an index, `guestAt`, which is there until
the store is deleted. -/

/-- A store is changed, but neither its guest part nor the payload it keeps, and it holds what it
held if it is deleted. -/
theorem modifyStore (h : Hosted C stores registry functions registered finalized) {s : Nat}
    {f : StoreCell → StoreCell} (hg : ∀ c, (f c).guest = c.guest)
    (hp : ∀ c, (f c).panic = c.panic)
    (hh : ∀ c, stores[s]? = some c → c.guest = none → (f c).held = c.held) :
    Hosted C (stores.modify s f) registry functions registered finalized where
  tenures t := by rw [guestAt_modify_same _ _ _ hg, h.tenures]
  tenured t known p ht := by
    obtain ⟨c, g, hc, hcg, hcp, hk⟩ := h.tenured t known p ht
    by_cases hts : t = s
    · subst hts
      exact ⟨f c, g, by simp [Array.getElem?_modify, hc], by rw [hg, hcg], by rw [hp, hcp], hk⟩
    · exact ⟨c, g, by simp [Array.getElem?_modify, Ne.symm hts, hc], hcg, hcp, hk⟩
  vacant t c hc hnone := by
    obtain ⟨rfl, x, hx, rfl⟩ | ⟨-, hc⟩ := getElem?_modify_cases hc
    · rw [hg] at hnone
      rw [hp, hh x hx hnone]
      exact h.vacant _ _ hx hnone
    · exact h.vacant _ _ hc hnone
  keyed key := by
    rw [total_modify_same _ _ (by simp [storeKeys, hg]), h.keyed]
  pinned := h.pinned
  numbered := h.numbered
  bound t g place key type ht hf := by
    rw [guestAt_modify_same _ _ _ hg] at ht
    exact h.bound t g place key type ht hf
  made := h.made
  sited f hf := by
    rw [guestAt_modify_same _ _ _ hg, Array.size_modify]
    exact h.sited f hf
  sized := h.sized

/-- The guest part of a store is extended. -/
theorem extend (h : Hosted C stores registry functions registered finalized) {s : Nat}
    {c : StoreCell} {g g' : Guest.Store} {f : StoreCell → StoreCell} (hc : stores[s]? = some c)
    (hg : c.guest = some g) (hf : (f c).guest = some g') (hp : (f c).panic = c.panic)
    (hext : g.Extends g') :
    Hosted C (stores.modify s f) registry functions registered finalized := by
  have hat : ∀ t, guestAt (stores.modify s f) t = if t = s then some g' else guestAt stores t := by
    intro t
    rw [guestAt_modify, hc, Option.bind_some, hf]
  have hold : guestAt stores s = some g := (guestAt_eq hc).trans hg
  refine ⟨fun t => ?_, fun t known p ht => ?_, fun t d hd hnone => ?_, fun key => ?_, h.pinned,
    h.numbered, fun t g₁ place key type ht hfn => ?_, h.made, fun fn hfn => ?_, h.sized⟩
  · -- The store has a guest part before and after, and with it one user.
    rw [h.tenures, hat]
    by_cases hts : t = s
    · simp [hts, hold]
    · simp [hts]
  · obtain ⟨d, g₁, hd, hdg, hdp, hk⟩ := h.tenured t known p ht
    by_cases hts : t = s
    · subst hts
      obtain rfl : c = d := by simpa [hc] using hd
      obtain rfl : g = g₁ := by simpa [hg] using hdg
      refine ⟨f c, g', by simp [Array.getElem?_modify, hc], hf, hp.trans hdp, ?_⟩
      rwa [World.hostKeys_of_extends hext]
    · exact ⟨d, g₁, by simp [Array.getElem?_modify, Ne.symm hts, hd], hdg, hdp, hk⟩
  · obtain ⟨rfl, x, hx, rfl⟩ | ⟨-, hd⟩ := getElem?_modify_cases hd
    · obtain rfl : c = x := by simpa [hc] using hx
      simp [hf] at hnone
    · exact h.vacant _ _ hd hnone
  · -- No host function is added, so every key is in use as often as before.
    have ht := total_modify storeKeys f hc
    simp only [storeKeys, hf, hg, Option.elim_some, World.hostKeys_of_extends hext] at ht
    rw [add_right_cancel ht, h.keyed]
  · rw [hat] at ht
    split at ht
    · rename_i hts
      subst hts
      cases ht
      exact h.bound t g place key type hold (hext.host_of hfn)
    · exact h.bound t g₁ place key type ht hfn
  · obtain ⟨hlt, hplace⟩ := h.sited fn hfn
    refine ⟨by simpa using hlt, fun g₁ hg₁ => ?_⟩
    rw [hat] at hg₁
    split at hg₁
    · rename_i hts
      cases hg₁
      exact (hplace g (hts ▸ hold)).imp fun _ => hext.getElem?
    · exact hplace g₁ hg₁

/-- A store has one user. -/
theorem unique {s : Nat} {known known' : List (Pin κ)} {p p' : Option Payload}
    (h : Hosted (.tenure s known p ::ₘ C) stores registry functions registered finalized) :
    .tenure s known' p' ∉ C := by
  intro hmem
  have ht := h.tenures s
  have hpos : 0 < C.tenures s := Multiset.countP_pos.mpr ⟨_, hmem, by simp [Token.isTenure]⟩
  simp only [Ledger.tenures_cons, Token.isTenure, beq_self_eq_true, if_true] at ht
  split at ht <;> omega

/-- The payload that a store keeps is replaced. -/
theorem setPanic {s : Nat} {known : List (Pin κ)} {p : Option Payload}
    (h : Hosted (.tenure s known p ::ₘ C) stores registry functions registered finalized)
    (q : Option Payload) :
    Hosted (.tenure s known q ::ₘ C) (stores.modify s fun c => { c with panic := q }) registry
      functions registered finalized := by
  have hat : ∀ t, guestAt (stores.modify s fun c => { c with panic := q }) t = guestAt stores t :=
    fun t => guestAt_modify_same _ _ _ fun _ => rfl
  obtain ⟨c, g, hc, hcg, -, hk⟩ := h.tenured s known p (Multiset.mem_cons_self _ _)
  refine ⟨fun t => ?_, fun t known' p' ht => ?_, fun t d hd hnone => ?_, fun key => ?_,
    fun pins hpins => h.pinned pins (by simpa using hpins), h.numbered,
    fun t g' place key type ht hf => ?_, h.made, fun f hf => ?_, h.sized⟩
  · rw [hat, ← h.tenures]
    simp [Token.isTenure]
  · -- The user of the store knows of the payload; and nobody else uses it.
    rcases Multiset.mem_cons.mp ht with heq | hC
    · cases heq
      exact ⟨{ c with panic := q }, g, by simp [Array.getElem?_modify, hc], hcg, rfl, hk⟩
    · obtain ⟨d, g', hd, hdg, hdp, hk'⟩ := h.tenured t known' p' (Multiset.mem_cons_of_mem hC)
      have hts : t ≠ s := by
        rintro rfl
        exact h.unique hC
      exact ⟨d, g', by simp [Array.getElem?_modify, Ne.symm hts, hd], hdg, hdp, hk'⟩
  · obtain ⟨rfl, x, hx, rfl⟩ | ⟨-, hd⟩ := getElem?_modify_cases hd
    · obtain rfl : c = x := by simpa [hc] using hx
      exact absurd (hcg.symm.trans hnone) (by simp)
    · exact h.vacant _ _ hd hnone
  · rw [total_modify_same _ _ (by simp [storeKeys]), h.keyed]
    simp [Token.pins]
  · rw [hat] at ht
    exact h.bound t g' place key type ht hf
  · rw [hat, Array.size_modify]
    exact h.sited f hf

/-- The user of a store gets to know other closures of it. -/
theorem setKnown {s : Nat} {known known' : List (Pin κ)} {p : Option Payload}
    (h : Hosted (.tenure s known p ::ₘ C) stores registry functions registered finalized)
    (hk : ∀ g, guestAt stores s = some g → ∀ k ∈ known', k ∈ known ∨
      k.1 ∈ World.hostKeys g ∧ registry.get? k.1 = some k.2) :
    Hosted (.tenure s known' p ::ₘ C) stores registry functions registered finalized where
  tenures t := by
    rw [← h.tenures]
    simp [Token.isTenure]
  tenured t K q ht := by
    rcases Multiset.mem_cons.mp ht with heq | ht
    · cases heq
      obtain ⟨c, g, hc, hcg, hcp, hknown⟩ := h.tenured s known p (Multiset.mem_cons_self _ _)
      refine ⟨c, g, hc, hcg, hcp, fun k hkm => ?_⟩
      rcases hk g ((guestAt_eq hc).trans hcg) k hkm with hold | hnew
      · exact hknown k hold
      · exact hnew
    · exact h.tenured t K q (Multiset.mem_cons_of_mem ht)
  vacant := h.vacant
  keyed key := by
    rw [h.keyed]
    simp [Token.pins]
  pinned pins hpins := h.pinned pins (by simpa using hpins)
  numbered := h.numbered
  bound := h.bound
  made := h.made
  sited := h.sited
  sized := h.sized

/-- A store is added, and somebody's to use. -/
theorem push (h : Hosted C stores registry functions registered finalized) {c : StoreCell}
    {g : Guest.Store} (hg : c.guest = some g) (hf : g.funcs = #[]) (hp : c.panic = none) :
    Hosted (.tenure stores.size [] none ::ₘ C) (stores.push c) registry functions registered
      finalized := by
  have hat : ∀ t, guestAt (stores.push c) t = if t = stores.size then some g else
      guestAt stores t := by
    intro t
    by_cases ht : t = stores.size
    · simp [guestAt, ht, hg]
    · simp [guestAt, Array.getElem?_push, ht]
  have hkeys : World.hostKeys g = [] := by simp [World.hostKeys, hf]
  refine ⟨fun t => ?_, fun t known p ht => ?_, fun t d hd hnone => ?_, fun key => ?_,
    fun pins hpins => h.pinned pins (by simpa using hpins), h.numbered,
    fun t g' place key type ht hfn => ?_, h.made, fun f hfn => ?_, h.sized⟩
  · rw [Ledger.tenures_cons, h.tenures, hat]
    by_cases ht : t = stores.size
    · simp [ht, Token.isTenure, guestAt]
    · simp [ht, Token.isTenure]
  · rcases Multiset.mem_cons.mp ht with heq | ht
    · cases heq
      exact ⟨c, g, by simp, hg, hp, by simp⟩
    · obtain ⟨d, g', hd, hdg, hdp, hk⟩ := h.tenured t known p ht
      have hlt := (Array.getElem?_eq_some_iff.mp hd).1
      exact ⟨d, g', by rw [Array.getElem?_push, if_neg (by omega), hd], hdg, hdp, hk⟩
  · rw [Array.getElem?_push] at hd
    split at hd
    · cases hd
      simp [hg] at hnone
    · exact h.vacant _ _ hd hnone
  · rw [total_push, h.keyed]
    simp [storeKeys, hg, hkeys, Token.pins]
  · rw [hat] at ht
    split at ht
    · cases ht
      simp [hf] at hfn
    · exact h.bound t g' place key type ht hfn
  · obtain ⟨hlt, hplace⟩ := h.sited f hfn
    refine ⟨by simp; omega, fun g' hg' => hplace g' ?_⟩
    rwa [hat, if_neg (by omega)] at hg'

/-- A store is deleted. Its closures are left to the request that deletes it. -/
theorem vacate {s : Nat} {known pins : List (Pin κ)} {c : StoreCell} {g : Guest.Store}
    {f : StoreCell → StoreCell}
    (h : Hosted (.tenure s known none ::ₘ .making pins ::ₘ C) stores registry functions registered
      finalized)
    (hc : stores[s]? = some c) (hg : c.guest = some g) (hf : ∀ c, (f c).guest = none)
    (hp : ∀ c, (f c).panic = c.panic) (hh : ∀ c, (f c).held = []) :
    ∃ left : List (Pin κ), left.map Prod.fst = World.hostKeys g ∧
      Hosted (.making (left ++ pins) ::ₘ C) (stores.modify s f) registry functions registered
        finalized := by
  have hold : guestAt stores s = some g := (guestAt_eq hc).trans hg
  have hat : ∀ t, guestAt (stores.modify s f) t = if t = s then none else guestAt stores t := by
    intro t
    rw [guestAt_modify, hc, Option.bind_some, hf]
  -- Every key of the store has a closure, by the place of its function.
  have hreg : ∀ key ∈ World.hostKeys g, ∃ r, registry.get? key = some r := by
    intro key hkey
    obtain ⟨place, type, hfn⟩ := World.mem_hostKeys.mp hkey
    obtain ⟨r, -, hr, -⟩ := h.bound s g place key type hold hfn
    exact ⟨r, hr⟩
  obtain ⟨left, hleft, hpinned⟩ : ∃ left : List (Pin κ), left.map Prod.fst = World.hostKeys g ∧
      ∀ k ∈ left, registry.get? k.1 = some k.2 := by
    generalize World.hostKeys g = keys at hreg
    induction keys with
    | nil => exact ⟨[], rfl, by simp⟩
    | cons key rest ih =>
      obtain ⟨left, hleft, hpinned⟩ := ih fun k hk => hreg k (List.mem_cons_of_mem _ hk)
      obtain ⟨r, hr⟩ := hreg key (List.mem_cons_self ..)
      exact ⟨(key, r) :: left, by simp [hleft], by
        rintro k (_ | ⟨_, hk⟩)
        · exact hr
        · exact hpinned k hk⟩
  refine ⟨left, hleft, ⟨fun t => ?_, fun t K p ht => ?_, fun t d hd hnone => ?_, fun key => ?_,
    fun ps hps => ?_, h.numbered, fun t g' place key type ht hfn => ?_, h.made,
    fun fn hfn => ?_, h.sized⟩⟩
  · -- The store has no guest part any more, and no user.
    have ht := h.tenures t
    rw [hat]
    by_cases hts : t = s
    · subst hts
      simp [Token.isTenure, hold] at ht
      simp [Token.isTenure, ht]
    · simpa [Token.isTenure, hts] using ht
  · have hC : .tenure t K p ∈ C := by simpa using ht
    obtain ⟨d, g', hd, hdg, hdp, hk⟩ := h.tenured t K p (by simp [hC])
    have hts : t ≠ s := by
      rintro rfl
      exact h.unique (Multiset.mem_cons_of_mem hC)
    exact ⟨d, g', by simp [Array.getElem?_modify, Ne.symm hts, hd], hdg, hdp, hk⟩
  · obtain ⟨rfl, x, hx, rfl⟩ | ⟨-, hd⟩ := getElem?_modify_cases hd
    · obtain ⟨d, g', hd', -, hdp, -⟩ := h.tenured t known none (Multiset.mem_cons_self _ _)
      obtain rfl : d = x := by simpa [hd'] using hx
      exact ⟨(hp d).trans hdp, hh d⟩
    · exact h.vacant _ _ hd hnone
  · -- The keys of the functions that are gone are those that the request has now.
    have ht := congrArg (Multiset.count key) (total_modify storeKeys f hc)
    have hk := h.keyed key
    simp only [storeKeys, hf, hg, Option.elim_some, Option.elim_none, Multiset.count_add,
      Multiset.count_zero, ← hleft] at ht
    simp only [Ledger.pins_cons, Token.pins, Multiset.count_add, Multiset.count_zero,
      List.map_append, ← Multiset.coe_add] at hk ⊢
    omega
  · rcases Multiset.mem_cons.mp hps with heq | hC
    · cases heq
      intro k hk
      rcases List.mem_append.mp hk with hk | hk
      · exact hpinned k hk
      · exact h.pinned pins (by simp) k hk
    · exact h.pinned ps (by simp [hC])
  · rw [hat] at ht
    split at ht
    · cases ht
    · exact h.bound t g' place key type ht hfn
  · obtain ⟨hlt, hplace⟩ := h.sited fn hfn
    refine ⟨by simpa using hlt, fun g' hg' => ?_⟩
    rw [hat] at hg'
    split at hg'
    · cases hg'
    · exact hplace g' hg'

/-! ## Closures

The key of a closure is fresh when it is registered, and free again when it has been taken out. In
between, other keys come and go, and so do other stores. -/

/-- A closure is registered under a key that is not in use. -/
theorem register {pins : List (Pin κ)} {r : Registration κ}
    (h : Hosted (.making pins ::ₘ C) stores registry functions registered finalized)
    (hn : r.number = registered) :
    Hosted (.making (((registry.insert r).1, r) :: pins) ::ₘ C) stores (registry.insert r).2
      functions (registered + 1) finalized := by
  -- A key that is in use is not handed out.
  have hkeep : ∀ key r', registry.get? key = some r' →
      (registry.insert r).2.get? key = some r' := by
    intro key r' hr'
    rw [Slab.get?_insert, if_neg, hr']
    rintro rfl
    rw [Slab.get?_insert_self] at hr'
    cases hr'
  refine ⟨fun t => ?_, fun t K p ht => ?_, h.vacant, fun key => ?_, fun ps hps => ?_, ?_,
    fun t g place key type ht hf => ?_, h.made, h.sited, h.sized.insert r⟩
  · rw [← h.tenures]
    simp [Token.isTenure]
  · obtain ⟨c, g, hc, hcg, hcp, hk⟩ := h.tenured t K p (by simpa using ht)
    exact ⟨c, g, hc, hcg, hcp, fun k hkm => ⟨(hk k hkm).1, hkeep _ _ (hk k hkm).2⟩⟩
  · have hk := h.keyed key
    simp only [Ledger.pins_cons, Token.pins, Multiset.count_add, List.map_cons,
      ← Multiset.cons_coe, Multiset.count_cons] at hk ⊢
    rw [Slab.get?_insert]
    by_cases hfresh : key = (registry.insert r).1
    · rw [hfresh, Slab.get?_insert_self] at hk
      simp only [hfresh, if_true, Option.elim_some, Option.elim_none] at hk ⊢
      omega
    · simp only [hfresh, if_false]
      omega
  · rcases Multiset.mem_cons.mp hps with heq | hC
    · cases heq
      rintro k (_ | ⟨_, hk⟩)
      · simp [Slab.get?_insert]
      · exact hkeep _ _ (h.pinned pins (Multiset.mem_cons_self _ _) k hk)
    · exact fun k hk => hkeep _ _ (h.pinned ps (Multiset.mem_cons_of_mem hC) k hk)
  · rw [Slab.total_insert, hn, Multiset.range_succ, ← h.numbered, ← Multiset.singleton_add]
    ac_rfl
  · obtain ⟨r', hmem, hr', hs⟩ := h.bound t g place key type ht hf
    exact ⟨r', hmem, hkeep _ _ hr', hs⟩

/-- A closure that has no function is taken out of the registry. -/
theorem unregister {key : Nat} {r : Registration κ} {pins : List (Pin κ)}
    (h : Hosted (.making ((key, r) :: pins) ::ₘ C) stores registry functions registered
      finalized) :
    registry.get? key = some r ∧
      Hosted (.making pins ::ₘ C) stores (registry.remove key).2 functions registered
        (r.number :: finalized) := by
  have hr : registry.get? key = some r := h.pinned _ (Multiset.mem_cons_self _ _) (key, r) (by simp)
  -- The key is in use once, by this request; so by no function, and by no other request.
  have honce := h.keyed key
  simp only [hr, Option.elim_some, Ledger.pins_cons, Token.pins, Multiset.count_add, List.map_cons,
    ← Multiset.cons_coe, Multiset.count_cons_self] at honce
  have hkeep : ∀ k r', k ≠ key → registry.get? k = some r' →
      (registry.remove key).2.get? k = some r' := by
    intro k r' hk hr'
    rw [Slab.get?_remove hr, if_neg hk, hr']
  have hfunc : ∀ t g k, guestAt stores t = some g → k ∈ World.hostKeys g → k ≠ key := by
    rintro t g k hg hk rfl
    have := count_storeKeys_pos hg hk
    omega
  refine ⟨hr, fun t => ?_, fun t K p ht => ?_, h.vacant, fun k => ?_, fun ps hps => ?_, ?_,
    fun t g place k type ht hf => ?_, h.made, h.sited, h.sized.remove hr⟩
  · rw [← h.tenures]
    simp [Token.isTenure]
  · obtain ⟨c, g, hc, hcg, hcp, hk⟩ := h.tenured t K p (by simpa using ht)
    refine ⟨c, g, hc, hcg, hcp, fun k hkm => ⟨(hk k hkm).1, ?_⟩⟩
    exact hkeep _ _ (hfunc t g _ ((guestAt_eq hc).trans hcg) (hk k hkm).1) (hk k hkm).2
  · -- The key is in use no more, and the request does not hold it any longer.
    have hk := h.keyed k
    simp only [Ledger.pins_cons, Token.pins, Multiset.count_add, List.map_cons,
      ← Multiset.cons_coe, Multiset.count_cons] at hk ⊢
    rw [Slab.get?_remove hr]
    by_cases hkey : k = key
    · subst hkey
      simp only [if_true, Option.elim_none, hr, Option.elim_some] at hk ⊢
      omega
    · simp only [hkey, if_false] at hk ⊢
      omega
  · rcases Multiset.mem_cons.mp hps with heq | hC
    · cases heq
      intro k hk
      refine hkeep _ _ ?_ (h.pinned _ (Multiset.mem_cons_self _ _) k (List.mem_cons_of_mem _ hk))
      intro hkey
      have : 0 < ((pins.map Prod.fst : List Nat) : Multiset Nat).count key :=
        Multiset.count_pos.mpr (by simpa [← hkey] using ⟨k.2, hk⟩)
      omega
    · intro k hk
      refine hkeep _ _ ?_ (h.pinned ps (Multiset.mem_cons_of_mem hC) k hk)
      intro hkey
      have : 0 < C.pins.count key := Multiset.count_pos.mpr (Multiset.mem_bind.mpr
        ⟨_, hC, by simpa [Token.pins, ← hkey] using ⟨k.2, hk⟩⟩)
      omega
  · -- The closure is finalised with this step, and its number goes to those that have been.
    have ht := Slab.total_remove hr fun _ r => ({r.number} : Multiset Nat)
    rw [← h.numbered, ← ht, ← Multiset.cons_coe, ← Multiset.singleton_add]
    ac_rfl
  · obtain ⟨r', hmem, hr', hs⟩ := h.bound t g place k type ht hf
    exact ⟨r', hmem, hkeep _ _ (hfunc t g k ht (World.mem_hostKeys.mpr ⟨place, type, hf⟩)) hr', hs⟩

/-- A function is made for a closure that has none. -/
theorem addFunction {s key : Nat} {r : Registration κ} {pins : List (Pin κ)} {c : StoreCell}
    {g : Guest.Store} {f : StoreCell → StoreCell} {type : Signature}
    (h : Hosted (.making ((key, r) :: pins) ::ₘ C) stores registry functions registered finalized)
    (hs : r.store = s) (hc : stores[s]? = some c) (hg : c.guest = some g)
    (hf : (f c).guest = some (g.addFunc (.host key type)).2) (hp : (f c).panic = c.panic) :
    Hosted (.making pins ::ₘ C) (stores.modify s f) registry
      (⟨s, (g.addFunc (.host key type)).1, key, r⟩ :: functions) registered finalized := by
  have hold : guestAt stores s = some g := (guestAt_eq hc).trans hg
  have hat : ∀ t, guestAt (stores.modify s f) t =
      if t = s then some (g.addFunc (.host key type)).2 else guestAt stores t := by
    intro t
    rw [guestAt_modify, hc, Option.bind_some, hf]
  have hr : registry.get? key = some r := h.pinned _ (Multiset.mem_cons_self _ _) (key, r) (by simp)
  have hkeys : World.hostKeys (g.addFunc (.host key type)).2 = World.hostKeys g ++ [key] := by
    simp [World.hostKeys, Guest.Store.addFunc, Func.key?]
  refine ⟨fun t => ?_, fun t K p ht => ?_, fun t d hd hnone => ?_, fun k => ?_, fun ps hps => ?_,
    h.numbered, fun t g' place k type' ht hfn => ?_, ?_, fun fn hfn => ?_, h.sized⟩
  · have ht := h.tenures t
    rw [hat]
    by_cases hts : t = s
    · simpa [Token.isTenure, hts, hold] using ht
    · simpa [Token.isTenure, hts] using ht
  · obtain ⟨d, g', hd, hdg, hdp, hk⟩ := h.tenured t K p (by simpa using ht)
    by_cases hts : t = s
    · subst hts
      obtain rfl : c = d := by simpa [hc] using hd
      obtain rfl : g = g' := by simpa [hg] using hdg
      refine ⟨f c, _, by simp [Array.getElem?_modify, hc], hf, hp.trans hdp, fun k hkm => ?_⟩
      rw [hkeys]
      exact ⟨List.mem_append_left _ (hk k hkm).1, (hk k hkm).2⟩
    · exact ⟨d, g', by simp [Array.getElem?_modify, Ne.symm hts, hd], hdg, hdp, hk⟩
  · obtain ⟨rfl, x, hx, rfl⟩ | ⟨-, hd⟩ := getElem?_modify_cases hd
    · obtain rfl : c = x := by simpa [hc] using hx
      simp [hf] at hnone
    · exact h.vacant _ _ hd hnone
  · -- The key goes from the request to the function, so it is in use as often as before.
    have ht := congrArg (Multiset.count k) (total_modify storeKeys f hc)
    have hk := h.keyed k
    simp only [storeKeys, hf, hg, Option.elim_some, hkeys, Multiset.count_add,
      ← Multiset.coe_add] at ht
    simp only [Ledger.pins_cons, Token.pins, Multiset.count_add, List.map_cons,
      ← Multiset.cons_coe, Multiset.count_cons] at hk ⊢
    simp only [Multiset.coe_singleton, Multiset.count_singleton] at ht
    omega
  · rcases Multiset.mem_cons.mp hps with heq | hC
    · cases heq
      exact fun k hk => h.pinned _ (Multiset.mem_cons_self _ _) k (List.mem_cons_of_mem _ hk)
    · exact h.pinned ps (Multiset.mem_cons_of_mem hC)
  · -- The new function finds the closure that the request held; the others find theirs as before.
    rw [hat] at ht
    split at ht
    · rename_i hts
      subst hts
      cases ht
      simp only [Guest.Store.addFunc, Array.getElem?_push] at hfn
      split at hfn
      · rename_i hplace
        cases hfn
        exact ⟨r, by simp [hplace, Guest.Store.addFunc], hr, hs⟩
      · obtain ⟨r', hmem, hr', hs'⟩ := h.bound t g place k type' hold hfn
        exact ⟨r', List.mem_cons_of_mem _ hmem, hr', hs'⟩
    · obtain ⟨r', hmem, hr', hs'⟩ := h.bound t g' place k type' ht hfn
      exact ⟨r', List.mem_cons_of_mem _ hmem, hr', hs'⟩
  · refine List.nodup_cons.mpr ⟨fun hmem => ?_, h.made⟩
    -- A function with the same key would count as a second one for it.
    obtain ⟨fn, hfn, heq⟩ := List.mem_map.mp hmem
    obtain ⟨hstore, hkey⟩ := Prod.mk.inj heq
    obtain ⟨type', hplace⟩ := (h.sited fn hfn).2 g (hstore ▸ hold)
    have hpos : 0 < (total stores storeKeys).count key :=
      count_storeKeys_pos hold (World.mem_hostKeys.mpr ⟨_, _, hkey ▸ hplace⟩)
    have hk := h.keyed key
    simp only [hr, Option.elim_some, Ledger.pins_cons, Token.pins, Multiset.count_add,
      List.map_cons, ← Multiset.cons_coe, Multiset.count_cons_self] at hk
    omega
  · -- Functions stay at their places: the new one comes behind them.
    rcases List.mem_cons.mp hfn with rfl | hfn
    · refine ⟨by simpa using (Array.getElem?_eq_some_iff.mp hc).1, fun g' hg' => ?_⟩
      rw [hat, if_pos rfl] at hg'
      cases hg'
      exact ⟨type, by simp [Guest.Store.addFunc]⟩
    · obtain ⟨hlt, hplace⟩ := h.sited fn hfn
      refine ⟨by simpa using hlt, fun g' hg' => ?_⟩
      rw [hat] at hg'
      split at hg'
      · rename_i hts
        cases hg'
        obtain ⟨type', hfn⟩ := hplace g (hts ▸ hold)
        have hlt := (Array.getElem?_eq_some_iff.mp hfn).1
        exact ⟨type', by simp [Guest.Store.addFunc, Array.getElem?_push, hfn, hlt.ne]⟩
      · exact hplace g' hg'

end Hosted

end WasmHost.Host
