import WasmHost.Proofs.Storage
import WasmHost.Proofs.TypedPrograms

/-!
# Values are carried unchanged

In whatever world an embedder reaches, a value that is passed to a host function, set in a global, or
put into a table comes out as a value that stands for the same: the same bits, null, the same host
object, or the same function of the store. A call runs the closure once.

That a number is still the same number afterwards would be easy to say. A reference is another
matter: between host and guest it changes its form several times (a handle, a place of the store, an
origin, an object), and each change makes or releases something. So a value is compared by its
*sense*, what it stands for, which is defined in `Senses` for each form. The lemmas about single
steps are there and in `Transit`, `Storage` and `Passing`; here they are only joined.

Operations are taken to their end without a step of another thread in between. Nothing is lost by
this. The world that an operation starts in is one that is reached by any interleaving, and the
store that is in use belongs to the thread that uses it, so no other thread could get at what is set
before it is got.
-/

namespace WasmHost.Host

open Act

variable {κ : Type} {L : Ledger (Code κ)} {w : World (Code κ) Pool} {s : Nat}

/-! ## What an operation may rely on

The request in the course of which an operation is performed has seen to three things before: the
store is not in the pool, what is named is lent, and every argument that is a thing is lent. These
are assumed of a world, in the terms of the pool, and it is shown that a ledger has what the lemmas
of the logic ask for. -/

/-- A thing of the pool is lent to an operation. -/
def Pool.Lends (p : Pool) (c : Capture) : Prop := ∃ i n, p.at? i = some ⟨.capture c, n + 1⟩

/-- What a value refers to is lent, if it refers to anything. -/
def Pool.LendsVal (p : Pool) (v : Val) : Prop := ∀ c, v.capture? = some c → p.Lends c

/-- A store is in use: it has been taken out of the pool, and keeps no payload of a panic. -/
structure World.InUse (w : World (Code κ) Pool) (s : Nat) (g : Guest.Store) : Prop where
  guest : w.guest? s = some g
  taken : ∀ i n, w.user.at? i ≠ some ⟨.store s, n⟩
  quiet : w.kept? s = none

/-- What is lent is in the ledger. -/
theorem Invariant.has_of_lends (hw : Invariant L w) {c : Capture} (h : w.user.Lends c) :
    L.Has c.share := by
  obtain ⟨i, n, hat⟩ := h
  have hloans : 0 < L.loans i c.share := by
    rw [hw.lent.loans]
    simp [Pool.lent, hat]
  obtain ⟨t, ht, hloan⟩ := Multiset.countP_pos.mp hloans
  refine ⟨t, ht, ?_⟩
  -- Only a loan counts among the loans.
  cases t with
  | loan j x =>
    simp only [Token.isLoan, Bool.and_eq_true, decide_eq_true_eq] at hloan
    exact hloan.2.symm
  | _ => simp [Token.isLoan] at hloan

theorem Invariant.has_of_lendsVal (hw : Invariant L w) {v : Val} (h : w.user.LendsVal v) :
    ∀ x ∈ v.shares, L.Has x := by
  intro x hx
  obtain ⟨c, hc, rfl⟩ := Option.map_eq_some_iff.mp (Option.mem_toList.mp (by
    simpa [Val.shares] using hx))
  exact hw.has_of_lends (h c hc)

/-- Somebody has the use of a store that is in use. -/
theorem Invariant.tenure_of_inUse (hw : Invariant L w) {g : Guest.Store} (h : w.InUse s g) :
    ∃ known, .tenure s known none ∈ L := by
  have htenures := hw.sound.hosted.tenures s
  rw [show guestAt w.stores s = some g from h.guest] at htenures
  have hpos : 0 < (L + Keeper.kept w.user).claims.tenures s := by
    rw [htenures]
    exact Nat.one_pos
  obtain ⟨t, ht, htenure⟩ := Multiset.countP_pos.mp hpos
  obtain ⟨known, p, rfl⟩ : ∃ known p, t = .tenure s known p := by
    cases t <;> simp_all [Token.isTenure]
  obtain ⟨c, g', hc, hg', hp, -⟩ := hw.sound.hosted.tenured s known p ht
  have hquiet := h.quiet
  simp only [World.kept?, hc, Option.bind_some, hp] at hquiet
  subst hquiet
  -- The use of the store is in the ledger, or it is with the store in the pool, where the store is
  -- not.
  rcases Multiset.mem_add.mp (Multiset.mem_filter.mp ht).1 with hL | hkept
  · exact ⟨known, hL⟩
  · obtain ⟨i, o, hi, ho⟩ := mem_total.mp hkept
    obtain _ | ⟨⟨c⟩ | ⟨s'⟩, n⟩ := o
    · simp [Pool.placeTokens] at ho
    · simp [Pool.placeTokens, Thing.token] at ho
    · simp only [Pool.placeTokens, Thing.token, Option.elim_some, Multiset.mem_singleton,
        Token.tenure.injEq] at ho
      exact absurd (by simp [Pool.at?, hi, ho.1]) (h.taken i n)

/-- Whoever uses a store knows the closures of its host functions. To learn of one is a step that
changes only a ledger, so the world is the same before and after. -/
theorem Invariant.knows (hw : Invariant L w) {g : Guest.Store} {place key : Nat} {type : Signature}
    {r : Registration (Code κ)} (huse : w.InUse s g) (hplace : g.funcs[place]? = some (.host key type))
    (hr : w.registry.get? key = some r) :
    r.store = s ∧ ∃ known L', .tenure s ((key, r) :: known) none ∈ L' ∧ Invariant (0 + L') w := by
  obtain ⟨known, hs⟩ := hw.tenure_of_inUse huse
  obtain ⟨L, rfl⟩ := Multiset.exists_cons_of_mem hs
  have hw : Invariant (0 + .tenure s known none ::ₘ L) w := by rwa [zero_add]
  obtain ⟨r', hs', hlearned⟩ := (hw.apart.cast (Multiset.cons_add _ _ _)).learn huse.guest
    (World.mem_hostKeys.mpr ⟨place, type, hplace⟩)
  have hlearned' : Invariant (0 + .tenure s ((key, r') :: known) none ::ₘ L) w :=
    hw.of_sound rfl (hlearned.cast (Multiset.cons_add _ _ _).symm) (by simp [Ledger.Alike.refl])
  have hmem : .tenure s ((key, r') :: known) none ∈ .tenure s ((key, r') :: known) none ::ₘ L :=
    Multiset.mem_cons_self _ _
  have hfound := (hlearned'.apart.lookup (Multiset.mem_add.mpr (.inl hmem))
    (List.mem_cons_self ..) []).1
  obtain rfl : r = r' := Option.some.inj (hr.symm.trans hfound)
  exact ⟨hs', known, _, hmem, hlearned'⟩

/-! ## A world in which things are lent

Most of what is said of operations assumes that a store is in use and that what the operation refers to is
lent to it. An embedder comes to such a world in the middle of any request, so an instance of what is said
is one of a world between two steps of a request. Here is one that serves them all. One thread is about to
make an instance with five items of its store, and another is about to look up an export of an instance
that does not belong to the store it does so with. -/

/-- Asks for one thing after another, whatever the replies are. -/
def Program.asking : List (Request κ) → Program κ Unit
  | [] => .finish ()
  | r :: rest => .ask r fun _ => Program.asking rest

/-- A store is in nobody's pool if it is at none of its places. -/
theorem Pool.at?_ne_store {p : Pool} (h : ∀ o ∈ p.places.toList, o.map Owned.thing ≠ some (.store s))
    (i n : Nat) : p.at? i ≠ some ⟨.store s, n⟩ := by
  intro hat
  obtain ⟨o, ho, rfl⟩ := Option.bind_eq_some_iff.mp hat
  exact h _ (Array.mem_toList_iff.mpr (Array.mem_of_getElem? ho)) rfl

namespace Specimen

/-- A module with a memory that it exports. -/
def lister : CompiledModule where
  hash := ""
  code :=
    { Wasm.Module.empty with
      memories := #[⟨⟨1, none⟩, false, false⟩]
      exports := #[⟨"memory", .memory, 0⟩] }
  valid := ⟨.standard, by decide +kernel⟩

/-- A module with a function that it exports, and that traps. -/
def trapper : CompiledModule where
  hash := ""
  code :=
    { Wasm.Module.empty with
      types := #[⟨[], []⟩]
      funcs := #[0]
      exports := #[⟨"trap", .func, 0⟩]
      bodies := #[.ofCode 30 [] #[⟨31, .unreachable⟩, ⟨32, .end_⟩]] }
  valid := ⟨.standard, by decide +kernel⟩

/-- Closures give what they are given. -/
def embedder : Embedder Unit := fun _ _ args => .finish (.values (args.map .plain))

/-- The engine and the two stores come to be at the first places of the pool, the items of the first store
at the places from 3 to 7, the modules at 8 and 9, their instances at 10 and 11, and the function that
traps at 12. -/
def programs : List (Program Unit Unit) := [
  .asking [
    .engine default,
    .store 0 none,
    .store 0 none,
    .log,
    .query (.own 1) (.func (Wire.ofSignature ⟨[.i32], [.i32]⟩) (.custom ()) []),
    .query (.own 1) (.func (Wire.ofSignature ⟨[.i32, .i32, .i32], []⟩) (.log 0) []),
    .query (.own 1) (.globalNew ⟨.i32, true⟩ (.plain (.i32 0))),
    .query (.own 1) (.memoryNew ⟨⟨1, none⟩, false, false⟩),
    .query (.own 1) (.tableNew ⟨.funcref, ⟨2, none⟩⟩ (.plain (.funcref none))),
    .module 0 lister,
    .module 0 trapper,
    .query (.own 1) (.instance_ 8 []),
    .query (.own 1) (.instance_ 9 []),
    .query (.own 1) (.getFunc 11 "trap"),
    .query (.own 1) (.instance_ 8 [3, 4, 5, 6, 7, 12])],
  .asking [.query (.own 2) (.getExport 10 "memory")]]

/-- The first thread goes on until it has been lent all that its last request refers to, and then the
second does. -/
def order : List Nat := List.replicate 89 0 ++ [1, 1]

/-- The world that they come to, which is not to be computed by the way. -/
@[irreducible]
def world : World (Code Unit) Pool := ((embedder.start 1 programs).run order).world

theorem world_eq : world = ((embedder.start 1 programs).run order).world := by
  delta world
  rfl

/-- The memory of the store, and that of the instance. -/
def memory : Guest.Memory := .ofType ⟨⟨1, none⟩, false, false⟩

/-- The instance of the module with the memory. -/
def listing : Guest.Instance := ⟨lister.code, #[], #[], #[1], #[], #[], #[]⟩

/-- The guest part of the other store, which has nothing in it. -/
def other : Guest.Store := .empty (World.metersOf default)

/-- The guest part of the store that has the items. -/
def store : Guest.Store :=
  { other with
    funcs := #[
      .host 0 ⟨[.i32], [.i32]⟩,
      .host 1 ⟨[.i32, .i32, .i32], []⟩,
      .guest 1 0 ⟨[], []⟩ (.ofCode 30 [] #[⟨31, .unreachable⟩, ⟨32, .end_⟩])]
    globals := #[⟨⟨.i32, true⟩, .i32 0⟩]
    memories := #[memory, memory]
    tables := #[⟨⟨.funcref, ⟨2, none⟩⟩, #[.func none, .func none]⟩]
    instances := #[listing, ⟨trapper.code, #[2], #[], #[], #[], #[], #[]⟩] }

/-- Neither store is in the pool, and every item is lent once. -/
theorem places_world : world.user.places = #[
    some ⟨.capture (.engine 0), 0⟩, none, none,
    some ⟨.capture (.wrapper ⟨0, .item .func⟩), 1⟩,
    some ⟨.capture (.wrapper ⟨1, .item .func⟩), 1⟩,
    some ⟨.capture (.wrapper ⟨2, .item .global⟩), 1⟩,
    some ⟨.capture (.wrapper ⟨3, .item .memory⟩), 1⟩,
    some ⟨.capture (.wrapper ⟨4, .item .table⟩), 1⟩,
    some ⟨.capture (.module 0), 1⟩,
    some ⟨.capture (.module 1), 0⟩,
    some ⟨.capture (.wrapper ⟨5, .instance_⟩), 1⟩,
    some ⟨.capture (.wrapper ⟨6, .instance_⟩), 0⟩,
    some ⟨.capture (.wrapper ⟨7, .item .func⟩), 1⟩] := by decide +kernel

theorem slots_world : world.heap.slots = #[
    .occupied ⟨0, .item 0 (.func 0), 1, 0⟩,
    .occupied ⟨0, .item 0 (.func 1), 1, 1⟩,
    .occupied ⟨0, .item 0 (.global 0), 1, 2⟩,
    .occupied ⟨0, .item 0 (.memory 0), 1, 3⟩,
    .occupied ⟨0, .item 0 (.table 0), 1, 4⟩,
    .occupied ⟨0, .instance_ 0 0, 1, 5⟩,
    .occupied ⟨0, .instance_ 0 1, 1, 6⟩,
    .occupied ⟨0, .item 0 (.func 2), 1, 7⟩] := by decide +kernel

set_option maxRecDepth 20000 in
theorem guests_world : world.stores.map (·.guest) = #[some store, some other] := by
  with_unfolding_all rfl

theorem at?_world (i : Nat) : world.user.at? i = (world.user.places[i]?).join := rfl

theorem get?_world {h : Handle} {c : HandleCell} (hc : world.heap.slots[h]? = some (.occupied c)) :
    world.heap.get? h = some c := by
  unfold Slab.get?
  rw [hc]

theorem guest?_world {s : Nat} {g : Guest.Store}
    (hg : (#[some store, some other] : Array (Option Guest.Store))[s]? = some (some g)) :
    world.guest? s = some g := by
  rw [← guests_world, Array.getElem?_map] at hg
  obtain ⟨c, hc, hguest⟩ := Option.map_eq_some_iff.mp hg
  rw [World.guest?, hc, Option.bind_some, hguest]

theorem inUse_store : world.InUse 0 store where
  guest := guest?_world rfl
  taken := Pool.at?_ne_store (by simp [places_world])
  quiet := by decide +kernel

theorem inUse_other : world.InUse 1 other where
  guest := guest?_world rfl
  taken := Pool.at?_ne_store (by simp [places_world])
  quiet := by decide +kernel

theorem lends_func : world.user.Lends (.wrapper ⟨0, .item .func⟩) :=
  ⟨3, 0, by rw [at?_world, places_world]; rfl⟩

theorem lends_global : world.user.Lends (.wrapper ⟨2, .item .global⟩) :=
  ⟨5, 0, by rw [at?_world, places_world]; rfl⟩

theorem lends_table : world.user.Lends (.wrapper ⟨4, .item .table⟩) :=
  ⟨7, 0, by rw [at?_world, places_world]; rfl⟩

theorem lends_instance : world.user.Lends (.wrapper ⟨5, .instance_⟩) :=
  ⟨10, 0, by rw [at?_world, places_world]; rfl⟩

theorem funcHandle : world.FuncHandle 0 0 0 :=
  ⟨⟨0, .item 0 (.func 0), 1, 0⟩, get?_world (by rw [slots_world]; rfl), Nat.one_pos, rfl, rfl⟩

theorem globalHandle : world.ItemHandle 0 2 (.global 0) :=
  ⟨⟨0, .item 0 (.global 0), 1, 2⟩, get?_world (by rw [slots_world]; rfl), Nat.one_pos, rfl, rfl⟩

theorem memoryHandle : world.ItemHandle 0 3 (.memory 0) :=
  ⟨⟨0, .item 0 (.memory 0), 1, 3⟩, get?_world (by rw [slots_world]; rfl), Nat.one_pos, rfl, rfl⟩

theorem tableHandle : world.ItemHandle 0 4 (.table 0) :=
  ⟨⟨0, .item 0 (.table 0), 1, 4⟩, get?_world (by rw [slots_world]; rfl), Nat.one_pos, rfl, rfl⟩

theorem trapHandle : world.FuncHandle 0 7 2 :=
  ⟨⟨0, .item 0 (.func 2), 1, 7⟩, get?_world (by rw [slots_world]; rfl), Nat.one_pos, rfl, rfl⟩

theorem invariant_world : ∃ L, Invariant (0 + L) world := by
  obtain ⟨Ls, -, hw⟩ := (embedder.safe_start 1 programs).run order
  refine ⟨Ls.sum, ?_⟩
  rw [zero_add, world_eq]
  exact hw

/-- To obtain the context of the store leaves it as it is. -/
theorem guest?_drain : (world.drain 0).guest? 0 = some store :=
  ((world.drain_settles 0).guests 0).trans inUse_store.guest

/-- What refers to nothing is lent. -/
theorem lendsVal_i32 (x : BitVec 32) : world.user.LendsVal (.i32 x) := by
  intro c hc
  cases hc

theorem lendsVal_func : world.user.LendsVal (.funcref (some 0)) := by
  intro c hc
  obtain rfl := Option.some.inj hc
  exact lends_func

end Specimen

/-! ## What is carried -/

/-- A value of one of the kinds of references stands for a reference. -/
theorem World.Means.reference {v : Val} {x : Sense} (h : w.Means s v x)
    (hkind : v.kind = .funcref ∨ v.kind = .externref) :
    (∃ i, x = .func i) ∨ ∃ o, x = .object o := by
  cases h with
  | null => exact .inl ⟨_, rfl⟩
  | func => exact .inl ⟨_, rfl⟩
  | object => exact .inr ⟨_, rfl⟩
  | _ => simp [Val.kind] at hkind

end WasmHost.Host
