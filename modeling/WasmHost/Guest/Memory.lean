import Std.Data.HashMap
import WasmHost.ItemType

/-!
# Linear memories

A memory is a number of pages and the bytes that have been written; all others are zero. Access is
checked against the size in bytes: a range fits if it ends no later than the memory.
-/

namespace WasmHost.Guest

/-- Bytes of a page. -/
def pageSize : Nat := 65536

/-- A linear memory. -/
structure Memory where
  type : MemoryType
  pages : Nat
  written : Std.HashMap Nat UInt8

instance : Inhabited Memory := ⟨⟨default, 0, ∅⟩⟩

namespace Memory

/-- A memory of the least size of its type, full of zeros. -/
def ofType (type : MemoryType) : Memory := ⟨type, type.limits.min.toNat, ∅⟩

/-- The size in bytes. -/
def size (m : Memory) : Nat := m.pages * pageSize

/-- The byte at an address; zero beyond the end. -/
def byte (m : Memory) (address : Nat) : UInt8 := m.written.getD address 0

/-- A range of addresses lies within the memory. -/
def fits (m : Memory) (offset len : Nat) : Bool := offset + len ≤ m.size

/-- The bytes of a range. -/
def slice (m : Memory) (offset len : Nat) : List UInt8 :=
  (List.range len).map fun i => m.byte (offset + i)

/-- Puts bytes at an address and behind it. -/
def put (m : Memory) (offset : Nat) (bytes : List UInt8) : Memory :=
  match bytes with
  | [] => m
  | b :: rest => put { m with written := m.written.insert offset b } (offset + 1) rest

/-- Reads a range within the memory. -/
def read? (m : Memory) (offset len : Nat) : Option (List UInt8) :=
  if m.fits offset len then some (m.slice offset len) else none

/-- Writes a range within the memory. -/
def write? (m : Memory) (offset : Nat) (bytes : List UInt8) : Option Memory :=
  if m.fits offset bytes.length then some (m.put offset bytes) else none

/-- The most pages a memory of a type can ever have. -/
def pageLimit (type : MemoryType) : Nat :=
  Nat.min (if type.wide then Nat.pow 2 48 else 65536)
    ((type.limits.max.map (·.toNat)).getD (Nat.pow 2 48))

/-- Adds pages of zeros, up to the limit of the type. -/
def grow? (m : Memory) (delta : Nat) : Option Memory :=
  if m.pages + delta ≤ pageLimit m.type then some { m with pages := m.pages + delta } else none

/-- The sum of all bytes. -/
def sum (m : Memory) : Nat := m.written.fold (fun total _ b => total + b.toNat) 0

/-- The type with the current size as the least: what an import is compared with. -/
def currentType (m : Memory) : MemoryType :=
  { m.type with limits := { m.type.limits with min := UInt64.ofNat m.pages } }

/-- The little-endian bytes of a number. -/
def littleEndian (count n : Nat) : List UInt8 :=
  (List.range count).map fun i => UInt8.ofNat (n / Nat.pow 256 i % 256)

/-- The number that little-endian bytes stand for. -/
def ofLittleEndian (bytes : List UInt8) : Nat :=
  bytes.foldr (fun b acc => acc * 256 + b.toNat) 0

end Memory

end WasmHost.Guest
