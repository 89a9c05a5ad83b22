import WasmHost.Host.Release

/-!
# What an embedder owns

The things an embedder owns lie in a pool, where every thread and every closure of the embedder can
get at them. A thing may be lent, any number of times at once, to operations that only refer to it;
until all of them are over nobody can take it. An operation that changes a thing, or lets go of it,
takes it out of the pool instead. That is what references are to a program: shared while they only
look, and exclusive otherwise.
-/

namespace WasmHost.Host

/-- A thing of an embedder's: a store, or something that closures can keep alive. -/
inductive Thing where
  | capture (c : Capture)
  | store (s : Nat)
  deriving DecidableEq, Repr

namespace Thing

/-- The store that a thing is. -/
def store? : Thing → Option Nat
  | store s => some s
  | capture _ => none

/-- What a closure can be made to keep alive. -/
def capture? : Thing → Option Capture
  | capture c => some c
  | store _ => none

end Thing

namespace Capture

/-- The engine that a thing is. -/
def engine? : Capture → Option Nat
  | engine e => some e
  | _ => none

/-- The module that a thing is. -/
def module? : Capture → Option Nat
  | module m => some m
  | _ => none

/-- The linker that a thing is. -/
def linker? : Capture → Option Nat
  | linker l => some l
  | _ => none

/-- The wrapper that a thing is. -/
def wrapper? : Capture → Option Wrapper
  | wrapper x => some x
  | _ => none

/-- The handle of a sort that a thing is. -/
def handle? (sort : HandleSort) : Capture → Option Handle
  | wrapper x => if x.sort = sort then some x.handle else none
  | _ => none

/-- The item that a thing is. -/
def item? : Capture → Option Item
  | wrapper ⟨h, .item kind⟩ => some ⟨kind, h⟩
  | _ => none

/-- The reference that a thing is as a value. -/
def val? : Capture → Option Val
  | wrapper ⟨h, .item .func⟩ => some (.funcref (some h))
  | object o => some (.externref (some o))
  | _ => none

end Capture

/-- What a value refers to. -/
def Val.capture? : Val → Option Capture
  | .funcref (some h) => some (.wrapper ⟨h, .item .func⟩)
  | .externref (some o) => some (.object o)
  | _ => none

/-- A thing in a pool, and how often it is lent. -/
structure Owned where
  thing : Thing
  loans : Nat
  deriving DecidableEq, Repr

/-- The things of an embedder, each at a place of its own. -/
structure Pool where
  places : Array (Option Owned)
  /-- How many requests are under way that make closures or take them away. -/
  making : Nat

namespace Pool

variable {β : Type}

/-- Nothing is owned. -/
def empty : Pool := ⟨#[], 0⟩

/-- What is at a place. -/
def at? (p : Pool) (i : Nat) : Option Owned := (p.places[i]?).join

/-- Lends what is at a place, if it is of the sort that is asked for. Stores are not lent. -/
def lend (p : Pool) (i : Nat) (sort : Capture → Option β) : Option β × Pool :=
  match p.at? i with
  | some ⟨.capture c, n⟩ =>
    match sort c with
    | some b => (some b, { p with places := p.places.setIfInBounds i (some ⟨.capture c, n + 1⟩) })
    | none => (none, p)
  | _ => (none, p)

/-- Ends a loan. -/
def restore (p : Pool) (i : Nat) : Pool :=
  match p.at? i with
  | some ⟨t, n + 1⟩ => { p with places := p.places.setIfInBounds i (some ⟨t, n⟩) }
  | _ => p

/-- Takes out what is at a place, if it is of the sort that is asked for and not lent. -/
def take (p : Pool) (i : Nat) (sort : Thing → Option β) : Option β × Pool :=
  match p.at? i with
  | some ⟨t, 0⟩ =>
    match sort t with
    | some b => (some b, { p with places := p.places.setIfInBounds i none })
    | none => (none, p)
  | _ => (none, p)

/-- Puts a thing at a new place. -/
def add (p : Pool) (t : Thing) : Nat × Pool :=
  (p.places.size, { p with places := p.places.push (some ⟨t, 0⟩) })

/-- Puts a thing back at its place; if that is not free, at a new one. -/
def put (p : Pool) (i : Nat) (t : Thing) : Pool :=
  if p.places[i]? = some none then { p with places := p.places.setIfInBounds i (some ⟨t, 0⟩) }
  else (p.add t).2

end Pool

end WasmHost.Host
