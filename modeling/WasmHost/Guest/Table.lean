import WasmHost.Guest.Value
import WasmHost.ItemType

/-!
# Tables

A table is an array of references of one kind. Indices and increments are natural numbers, so that
none is ever cut off; a table can hold fewer than `2 ^ 32` elements.
-/

namespace WasmHost.Guest

/-- A table of references. -/
structure Table where
  type : TableType
  elements : Array Ref
  deriving Inhabited

namespace Table

/-- A table of the least size of its type, filled with one reference. -/
def ofType (type : TableType) (init : Ref) : Table :=
  ⟨type, Array.replicate type.limits.min.toNat init⟩

/-- The number of elements. -/
def size (t : Table) : Nat := t.elements.size

/-- The element at an index. -/
def get? (t : Table) (index : Nat) : Option Ref := t.elements[index]?

/-- Replaces the element at an index. -/
def set? (t : Table) (index : Nat) (r : Ref) : Option Table :=
  if index < t.size then some { t with elements := t.elements.setIfInBounds index r } else none

/-- The most elements a table of a type can ever have. -/
def sizeLimit (type : TableType) : Nat :=
  Nat.min (Nat.pow 2 32 - 1) ((type.limits.max.map (·.toNat)).getD (Nat.pow 2 32 - 1))

/-- Adds elements, up to the limit of the type. -/
def grow? (t : Table) (delta : Nat) (init : Ref) : Option Table :=
  if t.size + delta ≤ sizeLimit t.type then
    some { t with elements := t.elements ++ Array.replicate delta init }
  else none

/-- Puts references at an index and behind it; all must fit. -/
def write? (t : Table) (index : Nat) (refs : List Ref) : Option Table :=
  if index + refs.length ≤ t.size then
    let elements := (refs.zipIdx index).foldl (fun es p => es.setIfInBounds p.2 p.1) t.elements
    some { t with elements }
  else none

/-- The type with the current size as the least: what an import is compared with. -/
def currentType (t : Table) : TableType :=
  { t.type with limits := { t.type.limits with min := UInt64.ofNat t.size } }

end Table

end WasmHost.Guest
