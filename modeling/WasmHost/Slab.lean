/-!
# Slabs

A slab stores values under small keys that stay valid until they are removed. Vacant slots form a
list threaded through the entries: `nextFree` is its head, each vacant slot names the next one, and
the list ends at the number of slots. Insertion and removal take constant time, and the key that
was removed last is the next one handed out.

`keys`, `chain` and `lookup` are the views in which the operations are specified.
-/

namespace WasmHost

/-- A slot holds a value, or names the vacant slot after it. -/
inductive Slot (α : Type) where
  | occupied (value : α)
  | vacant (next : Nat)
  deriving Repr, DecidableEq

/-- Values under stable keys, with the list of vacant slots threaded through them. -/
structure Slab (α : Type) where
  slots : Array (Slot α)
  nextFree : Nat
  len : Nat
  deriving Repr

namespace Slab

variable {α : Type}

/-- No slots at all. -/
def empty : Slab α := ⟨#[], 0, 0⟩

instance : Inhabited (Slab α) := ⟨empty⟩

/-- Puts a value into the vacant slot freed last, or into a new slot if none is vacant. The key
comes first in the result. -/
def insert (s : Slab α) (value : α) : Nat × Slab α :=
  match s.slots[s.nextFree]? with
  | some (.vacant next) =>
    (s.nextFree, ⟨s.slots.setIfInBounds s.nextFree (.occupied value), next, s.len + 1⟩)
  | _ => (s.slots.size, ⟨s.slots.push (.occupied value), s.slots.size + 1, s.len + 1⟩)

/-- The value under a key. -/
def get? (s : Slab α) (key : Nat) : Option α :=
  match s.slots[key]? with
  | some (.occupied value) => some value
  | _ => none

/-- Takes the value under a key out and frees the slot. A key without a value changes nothing. -/
def remove (s : Slab α) (key : Nat) : Option α × Slab α :=
  match s.slots[key]? with
  | some (.occupied value) =>
    (some value, ⟨s.slots.setIfInBounds key (.vacant s.nextFree), key, s.len - 1⟩)
  | _ => (none, s)

/-- Replaces the value under a key that holds one. -/
def modify (s : Slab α) (key : Nat) (f : α → α) : Slab α :=
  match s.slots[key]? with
  | some (.occupied value) => { s with slots := s.slots.setIfInBounds key (.occupied (f value)) }
  | _ => s

/-- The number of slots, vacant ones included. -/
def capacity (s : Slab α) : Nat := s.slots.size

/-- The values, in the order of their keys. -/
def values (s : Slab α) : List α :=
  s.slots.toList.filterMap fun
    | .occupied value => some value
    | .vacant _ => none

/-- The first `steps` vacant slots of the threaded list that starts at `start`. -/
def chainFrom (s : Slab α) : Nat → Nat → List Nat
  | 0, _ => []
  | steps + 1, start =>
    match s.slots[start]? with
    | some (.vacant next) => start :: s.chainFrom steps next
    | _ => []

/-- The vacant slots in the order in which they will be handed out. -/
def chain (s : Slab α) : List Nat := s.chainFrom s.slots.size s.nextFree

end Slab

end WasmHost
