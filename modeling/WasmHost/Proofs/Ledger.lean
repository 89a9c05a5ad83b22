import WasmHost.Proofs.Totals
import WasmHost.Proofs.GuestFunctions
import WasmHost.Host.Pool

/-!
# Accounts of ownership

The world counts how often each of its objects is shared. This module says what those counts are
counts of. A *share* is a reference to one object. Every share is in exactly one place: in the world
itself (`World.refs`), as when a module keeps its engine alive, or in the *ledger* of a thread.
Besides shares, a ledger holds claims: that a thing that was lent stays where it is, that a store is
the thread's own to use, that a closure stays under its key.

`Sound` says that the counts and the places of shares agree, that all claims are true, and what the
queues, the registry and the chronicle of a world have to do with each other.

Why not simply say that no count is ever zero for something in use? Because that is no invariant of
a single step: between the moment when a clone is taken and the moment when it is put into its
place, it is in neither. An action is a sequence of steps between which other threads may run, so
what an action holds *in between* has to be in the accounts, too. That is what a ledger is: what a
thread has in its hands right now. Ledgers are multisets, and those of several threads are added up,
so that the equation between counts and places is about all of them together, and each thread only
changes its own summand.

The tokens of a ledger are of four kinds, because there are four ways to rely on something. A share
of one's own keeps a thing alive. A loan does not: it keeps the *embedder* from giving the thing up,
while it is lent. A tenure is the right to use a store, which nobody else has at the same time; with
it goes what is known of the store, namely some of its closures and whether it keeps a payload. And
while closures are registered or finalised, some of them have no host function yet, or none any
more; the token of the request that is under way has them.

`Sound` has four parts, each of which is about other arrays of the world, and each is looked after
in a module of its own: the counts in `Accounts`, the queues in `Queues`, the registry in
`HostFunctions`, and the list of faults where the steps are put together. What the pool of an
embedder keeps is a part of the world's state, so the last step from `Sound` to `Invariant` adds it
to the ledgers.
-/

namespace WasmHost.Host

/-! ## Shares -/

/-- A reference to one object. A tie is the reference of an origin to its host object. -/
inductive Share where
  | engine (e : Nat)
  | module (m : Nat)
  | linker (l : Nat)
  | store (s : Nat)
  | handle (h : Handle) (sort : HandleSort)
  | object (o : ObjectId)
  | tie (o : ObjectId)
  | origin (g : Nat)
  deriving DecidableEq

/-- The share that a wrapper is. -/
def Wrapper.share (x : Wrapper) : Share := .handle x.handle x.sort

/-- The share that a closure keeps. -/
def Capture.share : Capture → Share
  | engine e => .engine e
  | module m => .module m
  | linker l => .linker l
  | wrapper x => x.share
  | object o => .object o

/-- What a value refers to. -/
def Val.shares (v : Val) : List Share := (v.capture?.map Capture.share).toList

/-- The shares of values. -/
def Val.sharesAll (vs : List Val) : List Share := vs.flatMap shares

@[simp] theorem Val.sharesAll_nil : sharesAll [] = [] := rfl

@[simp] theorem Val.sharesAll_cons (v : Val) (vs : List Val) :
    sharesAll (v :: vs) = v.shares ++ sharesAll vs := by simp [sharesAll]

variable {κ σ : Type}

/-! ## What cells refer to -/

namespace World

/-- The references of a module. -/
def moduleRefs (_ : Nat) (c : ModuleCell) : Multiset Share :=
  if 0 < c.shares then {.engine c.engine} else 0

/-- The references of a store. Its guest part refers to the store itself, and to origins. -/
def storeRefs (s : Nat) (c : StoreCell) : Multiset Share :=
  (if 0 < c.shares then {.engine c.engine} else 0) +
    (if c.guest.isSome then {.store s} else 0) + c.held.map Share.origin

/-- The references of a linker. -/
def linkerRefs (_ : Nat) (c : LinkerCell) : Multiset Share :=
  if 0 < c.shares then .engine c.engine ::ₘ c.definitions.map (·.2.wrapper.share) else 0

/-- The references of a host object. -/
def objectRefs (_ : Nat) (c : ObjectCell) : Multiset Share :=
  if c.gone then 0 else c.captures.map Wrapper.share

/-- The reference of an origin. -/
def originRefs (_ : Nat) (c : OriginCell) : Multiset Share :=
  if 0 < c.copies then {.tie c.object} else 0

/-- The reference of a handle. -/
def handleRefs (_ : Nat) (c : HandleCell) : Multiset Share :=
  if 0 < c.shares then {.store c.store} else 0

/-- The references of a closure. -/
def registrationRefs (_ : Nat) (r : Registration κ) : Multiset Share :=
  .store r.store ::ₘ r.captures.map Capture.share

/-- All references that the world itself holds. -/
def refs (w : World κ σ) : Multiset Share :=
  total w.modules moduleRefs + total w.stores storeRefs + total w.linkers linkerRefs +
    total w.objects objectRefs + total w.origins originRefs + w.heap.total handleRefs +
    w.registry.total registrationRefs

/-- How often something is shared, as the world has it. -/
def recorded (w : World κ σ) : Share → Nat
  | .engine e => (w.engines[e]?).elim 0 (·.shares)
  | .module m => (w.modules[m]?).elim 0 (·.shares)
  | .linker l => (w.linkers[l]?).elim 0 (·.shares)
  | .store s => (w.stores[s]?).elim 0 (·.shares)
  | .handle h sort => (w.heap.get? h).elim 0 fun c => if c.target.sort = sort then c.shares else 0
  | .object o => (w.objects[o]?).elim 0 (·.clones)
  | .tie o => (w.objects[o]?).elim 0 (·.origins)
  | .origin g => (w.origins[g]?).elim 0 (·.copies)

end World

/-! ## Ledgers -/

/-- A closure under a key. -/
abbrev Pin (κ : Type) : Type := Nat × Registration κ

/-- What a thread may rely on. -/
inductive Token (κ : Type) where
  /-- A share of its own. -/
  | own (x : Share)
  /-- A share that lies at a place of the embedder's, and is lent to it. -/
  | loan (i : Nat) (x : Share)
  /-- A store that nobody else uses, some of its closures, and the payload that it keeps. -/
  | tenure (s : Nat) (known : List (Pin κ)) (panic : Option Payload)
  /-- A request is under way that makes closures or takes them away: those that have no function. -/
  | making (pins : List (Pin κ))

/-- The tokens of a thread, or of everybody. -/
abbrev Ledger (κ : Type) : Type := Multiset (Token κ)

namespace Token

/-- The share that a token is. -/
def share? : Token κ → Option Share
  | own x => some x
  | _ => none

/-- The keys of the closures that have no function. -/
def pins : Token κ → Multiset Nat
  | making pins => pins.map Prod.fst
  | _ => 0

/-- While a token is valid, something is shared. Whoever uses a store relies on its closures and on
what they keep alive. -/
def vouches : Token κ → Share → Prop
  | own y, x | loan _ y, x => y = x
  | tenure s known _, x => .store s = x ∨ ∃ k ∈ known, x ∈ World.registrationRefs k.1 k.2
  | making _, _ => False

/-- The token is that of a store. -/
def isTenure (s : Nat) : Token κ → Bool
  | tenure t _ _ => s == t
  | _ => false

/-- The token is a loan of a share at a place. -/
def isLoan (i : Nat) (x : Share) : Token κ → Bool
  | loan j y => i == j && decide (x = y)
  | _ => false

/-- The token is that of a request that makes closures or takes them away. -/
def isMaking : Token κ → Bool
  | making _ => true
  | _ => false

end Token

namespace Ledger

/-- The shares in a ledger. -/
def shares (L : Ledger κ) : Multiset Share := L.filterMap Token.share?

/-- Everything in a ledger but the shares. -/
def claims (L : Ledger κ) : Ledger κ := L.filter fun t => t.share?.isNone

/-- The keys of the closures without functions that a ledger has. -/
def pins (L : Ledger κ) : Multiset Nat := L.bind Token.pins

/-- How often a store is used. -/
def tenures (L : Ledger κ) (s : Nat) : Nat := L.countP (·.isTenure s)

/-- How often a share at a place is lent. -/
def loans (L : Ledger κ) (i : Nat) (x : Share) : Nat := L.countP (·.isLoan i x)

/-- How many requests are under way that make closures or take them away. -/
def makings (L : Ledger κ) : Nat := L.countP (·.isMaking)

/-- Shares of one's own. -/
def owns (xs : List Share) : Ledger κ := (xs.map Token.own : List (Token κ))

/-- While a ledger is valid, something is shared. -/
def Has (L : Ledger κ) (x : Share) : Prop := ∃ t ∈ L, t.vouches x

@[simp] theorem shares_zero : shares (0 : Ledger κ) = 0 := rfl

@[simp] theorem shares_add (L M : Ledger κ) : shares (L + M) = shares L + shares M :=
  Multiset.filterMap_add _ _ _

@[simp] theorem shares_own (x : Share) (L : Ledger κ) : shares (.own x ::ₘ L) = x ::ₘ shares L :=
  Multiset.filterMap_cons_some _ _ _ rfl

@[simp] theorem shares_loan (i : Nat) (x : Share) (L : Ledger κ) :
    shares (.loan i x ::ₘ L) = shares L := Multiset.filterMap_cons_none _ _ rfl

@[simp] theorem shares_tenure (s : Nat) (known : List (Pin κ)) (p : Option Payload)
    (L : Ledger κ) : shares (.tenure s known p ::ₘ L) = shares L :=
  Multiset.filterMap_cons_none _ _ rfl

@[simp] theorem shares_making (pins : List (Pin κ)) (L : Ledger κ) :
    shares (.making pins ::ₘ L) = shares L := Multiset.filterMap_cons_none _ _ rfl

@[simp] theorem owns_nil : (owns [] : Ledger κ) = 0 := rfl

@[simp] theorem owns_cons (x : Share) (xs : List Share) :
    (owns (x :: xs) : Ledger κ) = .own x ::ₘ owns xs := rfl

@[simp] theorem owns_append (xs ys : List Share) :
    (owns (xs ++ ys) : Ledger κ) = owns xs + owns ys := by
  simp [owns, ← Multiset.coe_add]

@[simp] theorem shares_owns (xs : List Share) : shares (owns xs : Ledger κ) = xs := by
  induction xs with
  | nil => rfl
  | cons x xs ih => simp [ih]

@[simp] theorem claims_zero : claims (0 : Ledger κ) = 0 := rfl

@[simp] theorem claims_add (L M : Ledger κ) : claims (L + M) = claims L + claims M :=
  Multiset.filter_add _ _ _

@[simp] theorem claims_own (x : Share) (L : Ledger κ) : claims (.own x ::ₘ L) = claims L :=
  Multiset.filter_cons_of_neg _ (by simp [Token.share?])

@[simp] theorem claims_loan (i : Nat) (x : Share) (L : Ledger κ) :
    claims (.loan i x ::ₘ L) = .loan i x ::ₘ claims L := Multiset.filter_cons_of_pos _ rfl

@[simp] theorem claims_tenure (s : Nat) (known : List (Pin κ)) (p : Option Payload)
    (L : Ledger κ) : claims (.tenure s known p ::ₘ L) = .tenure s known p ::ₘ claims L :=
  Multiset.filter_cons_of_pos _ rfl

@[simp] theorem claims_making (pins : List (Pin κ)) (L : Ledger κ) :
    claims (.making pins ::ₘ L) = .making pins ::ₘ claims L := Multiset.filter_cons_of_pos _ rfl

@[simp] theorem claims_owns (xs : List Share) : claims (owns xs : Ledger κ) = 0 := by
  induction xs with
  | nil => rfl
  | cons x xs ih => simp [ih]

@[simp] theorem pins_zero : pins (0 : Ledger κ) = 0 := rfl

@[simp] theorem pins_add (L M : Ledger κ) : pins (L + M) = pins L + pins M :=
  Multiset.add_bind _ _ _

@[simp] theorem pins_cons (t : Token κ) (L : Ledger κ) : pins (t ::ₘ L) = t.pins + pins L :=
  Multiset.cons_bind _ _ _

@[simp] theorem has_add {L M : Ledger κ} {x : Share} : (L + M).Has x ↔ L.Has x ∨ M.Has x := by
  simp [Has, or_and_right, exists_or]

@[simp] theorem has_cons {t : Token κ} {L : Ledger κ} {x : Share} :
    Has (t ::ₘ L) x ↔ t.vouches x ∨ L.Has x := by
  simp [Has]

theorem has_own (x : Share) (L : Ledger κ) : Has (.own x ::ₘ L) x := has_cons.mpr (.inl rfl)

theorem has_of_tenure {L : Ledger κ} {s : Nat} {known : List (Pin κ)} {p : Option Payload}
    (h : .tenure s known p ∈ L) : L.Has (.store s) := ⟨_, h, .inl rfl⟩

theorem has_owns {xs : List Share} {x : Share} (h : x ∈ xs) : (owns xs : Ledger κ).Has x :=
  ⟨.own x, by simpa [owns] using h, rfl⟩

theorem has_owns_add {xs : List Share} {x : Share} (h : x ∈ xs) (L : Ledger κ) :
    (owns xs + L).Has x := has_add.mpr (.inl (has_owns h))

theorem Has.add {L : Ledger κ} {x : Share} (h : L.Has x) (M : Ledger κ) : (M + L).Has x :=
  has_add.mpr (.inr h)

theorem Has.cons {L : Ledger κ} {x : Share} (h : L.Has x) (t : Token κ) : Has (t ::ₘ L) x :=
  has_cons.mpr (.inr h)

theorem mem_shares {L : Ledger κ} {x : Share} : x ∈ L.shares ↔ .own x ∈ L := by
  simp only [shares, Multiset.mem_filterMap]
  constructor
  · rintro ⟨t, ht, hx⟩
    cases t with
    | own y =>
      cases hx
      exact ht
    | _ => cases hx
  · exact fun h => ⟨_, h, rfl⟩

@[simp] theorem tenures_zero (s : Nat) : tenures (0 : Ledger κ) s = 0 := rfl

@[simp] theorem tenures_add (L M : Ledger κ) (s : Nat) :
    tenures (L + M) s = tenures L s + tenures M s := Multiset.countP_add _ _ _

@[simp] theorem tenures_cons (t : Token κ) (L : Ledger κ) (s : Nat) :
    tenures (t ::ₘ L) s = tenures L s + if t.isTenure s then 1 else 0 := Multiset.countP_cons _ _ _

@[simp] theorem loans_zero (i : Nat) (x : Share) : loans (0 : Ledger κ) i x = 0 := rfl

@[simp] theorem loans_add (L M : Ledger κ) (i : Nat) (x : Share) :
    loans (L + M) i x = loans L i x + loans M i x := Multiset.countP_add _ _ _

@[simp] theorem loans_cons (t : Token κ) (L : Ledger κ) (i : Nat) (x : Share) :
    loans (t ::ₘ L) i x = loans L i x + if t.isLoan i x then 1 else 0 := Multiset.countP_cons _ _ _

@[simp] theorem makings_zero : makings (0 : Ledger κ) = 0 := rfl

@[simp] theorem makings_add (L M : Ledger κ) : makings (L + M) = makings L + makings M :=
  Multiset.countP_add _ _ _

@[simp] theorem makings_cons (t : Token κ) (L : Ledger κ) :
    makings (t ::ₘ L) = makings L + if t.isMaking then 1 else 0 := Multiset.countP_cons _ _ _

@[simp] theorem loans_owns (xs : List Share) (i : Nat) (x : Share) :
    loans (owns xs : Ledger κ) i x = 0 := by
  induction xs with
  | nil => rfl
  | cons y ys ih => simp [ih, Token.isLoan]

@[simp] theorem makings_owns (xs : List Share) : makings (owns xs : Ledger κ) = 0 := by
  induction xs with
  | nil => rfl
  | cons y ys ih => simp [ih, Token.isMaking]

end Ledger

/-- What an embedder keeps in its own state. -/
class Keeper (κ σ : Type) where
  /-- The shares and the stores it keeps. -/
  kept : σ → Ledger κ
  /-- How often it has lent a share at a place. -/
  loans : σ → Nat → Share → Nat
  /-- How many requests are under way that make closures or take them away. -/
  making : σ → Nat
  own_of_loans {u : σ} {i : Nat} {x : Share} : 0 < loans u i x → .own x ∈ kept u
  plain {u : σ} {t : Token κ} : t ∈ kept u →
    (∃ x, t = .own x) ∨ ∃ s, t = .tenure s [] none

/-! ## The invariant

Nothing here mentions operations or requests. What is said is said of a world between any two
steps. -/

/-- Every count is the number of references, in the world and outside of it. This is an equation,
not a bound: a share that nobody has would keep something alive for ever. -/
def Balanced (S : Multiset Share) (w : World κ σ) : Prop :=
  ∀ x, w.recorded x = w.refs.count x + S.count x

/-- The guest part of a store that is not deleted. -/
def guestAt (stores : Array StoreCell) (s : Nat) : Option Guest.Store := (stores[s]?).bind (·.guest)

/-- What a target stands for is there, as long as its store is. -/
def Target.Present (stores : Array StoreCell) : Target → Prop
  | item s place => ∀ g, guestAt stores s = some g → place.Within g
  | _ => True

/-- Handles wait where they should, and are reclaimed once. -/
structure Queued (stores : Array StoreCell) (heap : Slab HandleCell) (allocated : Array Nat)
    (reclaimed : List Nat) : Prop where
  /-- No handle waits twice. -/
  once : ∀ (s : Nat) (c : StoreCell), stores[s]? = some c → c.queue.toList.Nodup
  /-- The handles that wait are those of the store that nothing shares. -/
  waiting : ∀ (s : Nat) (c : StoreCell), stores[s]? = some c → ∀ h,
    h ∈ c.queue.toList ↔ ∃ cell, heap.get? h = some cell ∧ cell.store = s ∧ cell.shares = 0
  /-- Handles are handles of stores. -/
  placed : ∀ h cell, heap.get? h = some cell → cell.store < stores.size
  /-- What a handle stands for belongs to the store of the handle. -/
  paired : ∀ h cell, heap.get? h = some cell → cell.target.store = cell.store
  /-- What a handle stands for is there. -/
  present : ∀ h cell, heap.get? h = some cell → cell.target.Present stores
  /-- Nothing waits in a store that is gone. -/
  settled : ∀ (s : Nat) (c : StoreCell), stores[s]? = some c → c.shares = 0 → c.queue.toList = []
  /-- Every handle that was ever allocated is there, or has been reclaimed once. -/
  numbered : (heap.total fun _ c => ({c.number} : Multiset Nat)) + reclaimed =
    Multiset.range allocated.size
  /-- The chronicle has the stores of handles right. -/
  allocated : ∀ h cell, heap.get? h = some cell → allocated[cell.number]? = some cell.store

/-- The keys of the host functions of a store. -/
def storeKeys (_ : Nat) (c : StoreCell) : Multiset Nat := c.guest.elim 0 fun g => World.hostKeys g

/-- Host functions and closures belong together, and what is claimed of stores and closures outside
of the world is true. -/
structure Hosted (C : Ledger κ) (stores : Array StoreCell) (registry : Slab (Registration κ))
    (functions : List (HostFunction κ)) (registered : Nat) (finalized : List Nat) : Prop where
  /-- Every store that is not deleted is somebody's to use. -/
  tenures : ∀ s, C.tenures s = if (guestAt stores s).isSome then 1 else 0
  /-- The payload and the closures of a store are what its user knows of them. -/
  tenured : ∀ s known p, .tenure s known p ∈ C → ∃ c g, stores[s]? = some c ∧
    c.guest = some g ∧ c.panic = p ∧ ∀ k ∈ known, k.1 ∈ World.hostKeys g ∧ registry.get? k.1 = some k.2
  /-- A store that is deleted keeps no payload, and holds no origins. -/
  vacant : ∀ (s : Nat) (c : StoreCell), stores[s]? = some c → c.guest = none →
    c.panic = none ∧ c.held = []
  /-- Every key that is in use is that of one host function, or of a closure without one. -/
  keyed : ∀ key, (registry.get? key).elim 0 (fun _ => 1) =
    (total stores storeKeys).count key + C.pins.count key
  /-- A closure without a function is what its holder knows of it. -/
  pinned : ∀ pins, .making pins ∈ C → ∀ k ∈ pins, registry.get? k.1 = some k.2
  /-- Every closure that was ever registered is there, or has been finalised once. -/
  numbered : (registry.total fun _ r => ({r.number} : Multiset Nat)) + finalized =
    Multiset.range registered
  /-- Under the key of a host function is the closure that was registered for it. -/
  bound : ∀ s g place key type, guestAt stores s = some g →
    g.funcs[place]? = some (.host key type) →
    ∃ r, ⟨s, place, key, r⟩ ∈ functions ∧ registry.get? key = some r ∧ r.store = s
  /-- No key was given to two host functions of one store. -/
  made : (functions.map fun f => (f.store, f.key)).Nodup
  /-- Host functions were made in stores, and stay at their places while the store is there. -/
  sited : ∀ f ∈ functions, f.store < stores.size ∧
    ∀ g, guestAt stores f.store = some g → ∃ type, g.funcs[f.place]? = some (.host f.key type)
  /-- The length of the registry is the number of its closures. -/
  sized : registry.Sized

/-- What has been recorded is as it should be. -/
structure Blameless (faults : List Fault) (functions : List (HostFunction κ))
    (entries : List (Entry κ)) : Prop where
  /-- No rule of ownership has been broken. -/
  faultless : ∀ f ∈ faults, f = .stuck
  /-- Every call came to the closure that was registered for its host function. -/
  calls : ∀ e ∈ entries, ∃ f ∈ functions, f.store = e.store ∧ f.key = e.key ∧
    e.closure = some f.closure
  /-- Whenever a host function was called, its store kept no payload. -/
  quiet : ∀ e ∈ entries, e.panic = none
  /-- Whenever a host function was called, its closure belonged to the store that called it. -/
  callers : ∀ e ∈ entries, ∀ r, e.closure = some r → r.store = e.store

/-- The accounts of a world agree with a ledger of everything that is held outside of it. -/
structure Sound (T : Ledger κ) (w : World κ σ) : Prop where
  balanced : Balanced T.shares w
  queued : Queued w.stores w.heap w.chronicle.allocated w.chronicle.reclaimed
  hosted : Hosted T.claims w.stores w.registry w.chronicle.functions w.chronicle.registered
    w.chronicle.finalized
  /-- The engines that nothing shares have been deleted, once each. -/
  engines : ∀ e, w.chronicle.engines.count e =
    (w.engines[e]?).elim 0 fun c => if c.shares = 0 then 1 else 0
  blameless : Blameless w.faults w.chronicle.functions w.chronicle.entries

variable [Keeper κ σ]

/-- Loans and requests under way are what the embedder's state says of them. -/
structure Lent (L : Ledger κ) (u : σ) : Prop where
  loans : ∀ i x, L.loans i x = Keeper.loans (κ := κ) u i x
  making : L.makings = Keeper.making (κ := κ) u

/-- The invariant of the world, for the ledgers of all threads taken together. -/
structure Invariant (L : Ledger κ) (w : World κ σ) : Prop where
  sound : Sound (L + Keeper.kept w.user) w
  lent : Lent L w.user

end WasmHost.Host
