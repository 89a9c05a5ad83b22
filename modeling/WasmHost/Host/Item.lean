import WasmHost.Host.Call

/-!
# Globals, memories and tables

Operations on the items of a store. Each obtains the store's context first, then checks that the
item belongs to the store, then everything else; what is refused changes nothing. Only the kind of a
new global's or table's first value is looked at before the context is obtained.
-/

namespace WasmHost.Host

open Act

variable {κ σ : Type}

/-- Makes an item in a store, and a handle for it. -/
def allot (s : Nat) (f : Guest.Store → Except EngineFault (Guest.Place × Guest.Store)) :
    Act κ σ Handle := do
  match ← orAbort .stuck (← make (·.allot s f)) with
  | .ok h => return h
  | .error fault => fail (.engine fault)

/-! ## Globals -/

namespace Global

/-- The global a handle stands for, with its place. -/
def at_ (s : Nat) (g : Handle) : Act κ σ (Nat × Guest.Global) := do
  match ← place s g with
  | .global i =>
    let global ← orAbort .stuck ((← guest s).globals[i]?)
    return (i, global)
  | _ => abort (.dangling g)

/-- Makes a global. -/
def create (s : Nat) (type : GlobalType) (init : Val) : Act κ σ Handle := do
  if init.kind ≠ type.content then fail (.wrongKind type.content init.kind)
  context s
  let packed ← pack s init
  ensuring (releasePacked packed) do
    match (Wire.ofGlobal type).read with
    | .error fault => fail (.engine fault)
    | .ok type =>
      let value ← adopt s packed
      allot s fun g => (Wire.addGlobal g type value).map fun (i, g) => (.global i, g)

/-- The value of a global. -/
def get (s : Nat) (g : Handle) : Act κ σ Val := do
  context s
  let (_, global) ← at_ s g
  match ← expose s global.value with
  | .error fault => fail (.engine fault)
  | .ok packed => ensuring (releasePacked packed) (unpack s packed)

/-- Sets a global. A constant refuses every value; a variable takes those of its kind. -/
def set (s : Nat) (g : Handle) (v : Val) : Act κ σ Unit := do
  context s
  let (i, global) ← at_ s g
  if !global.type.writable then fail (.engine .immutableGlobal)
  if v.kind ≠ global.type.content then fail (.wrongKind global.type.content v.kind)
  let packed ← pack s v
  ensuring (releasePacked packed) do
    let value ← adopt s packed
    onGuest s fun st =>
      ((), { st with globals := st.globals.setIfInBounds i { global with value } })

end Global

/-! ## Memories -/

namespace Memory

/-- The memory a handle stands for, with its place. -/
def at_ (s : Nat) (m : Handle) : Act κ σ (Nat × Guest.Memory) := do
  match ← place s m with
  | .memory i =>
    let memory ← orAbort .stuck ((← guest s).memories[i]?)
    return (i, memory)
  | _ => abort (.dangling m)

/-- Makes a memory. -/
def create (s : Nat) (type : MemoryType) : Act κ σ Handle := do
  context s
  match (Wire.ofMemory type).read with
  | .error fault => fail (.engine fault)
  | .ok type =>
    allot s fun g =>
      let (i, g) := g.addMemory (.ofType type)
      .ok (.memory i, g)

/-- The size of a memory in pages. -/
def pages (s : Nat) (m : Handle) : Act κ σ Nat := do
  context s
  return (← at_ s m).2.pages

/-- The size of a memory in bytes. -/
def size (s : Nat) (m : Handle) : Act κ σ Nat := do
  context s
  return (← at_ s m).2.size

/-- Adds pages, and gives the number before. -/
def grow (s : Nat) (m : Handle) (delta : Nat) : Act κ σ Nat := do
  context s
  let (i, memory) ← at_ s m
  match memory.grow? delta with
  | none => fail (.engine (.growMemory delta))
  | some grown =>
    onGuest s fun g => ((), g.putMemory i grown)
    return memory.pages

/-- The sum of two words, if it is a word. -/
def checkedSum (a b : Nat) : Option Nat := if a + b < Nat.pow 2 64 then some (a + b) else none

/-- The bytes from one address up to another one, if there is such a range. -/
def range? (m : Guest.Memory) (start stop : Nat) : Option (List UInt8) :=
  if start ≤ stop ∧ stop ≤ m.size then some (m.slice start (stop - start)) else none

/-- The bytes of a range that is to be read. -/
def checkedRange (m : Guest.Memory) (offset len : Nat) : Except Error (List UInt8) :=
  match (checkedSum offset len).bind (range? m offset) with
  | some bytes => .ok bytes
  | none => .error (.memoryAccess offset len m.size)

/-- Reads as many bytes as a buffer holds, and gives the buffer back. -/
def readInto (s : Nat) (m : Handle) (offset : Nat) (buffer : List UInt8) :
    Act κ σ (Except Error Unit × List UInt8) := do
  context s
  let (_, memory) ← at_ s m
  match checkedRange memory offset buffer.length with
  | .ok bytes => return (.ok (), bytes)
  | .error e => return (.error e, buffer)

/-- Reads bytes. -/
def read (s : Nat) (m : Handle) (offset len : Nat) : Act κ σ (List UInt8) := do
  match ← readInto s m offset (List.replicate len 0) with
  | (.ok (), bytes) => return bytes
  | (.error e, _) => fail e

/-- The memory with other bytes in a range, if there is such a range. -/
def overwrite? (m : Guest.Memory) (offset : Nat) (bytes : List UInt8) : Option Guest.Memory :=
  (checkedSum offset bytes.length).bind fun stop =>
    if offset ≤ stop ∧ stop ≤ m.size then some (m.put offset bytes) else none

theorem overwrite?_eq_some {m m' : Guest.Memory} {offset : Nat} {bytes : List UInt8} :
    overwrite? m offset bytes = some m' ↔ offset + bytes.length < Nat.pow 2 64 ∧
      offset + bytes.length ≤ m.size ∧ m' = m.put offset bytes := by
  unfold overwrite? checkedSum
  split
  · simp_all [eq_comm]
  · rename_i h
    simp only [Option.bind_none, reduceCtorEq, false_iff, not_and]
    exact fun hlt => absurd hlt h

/-- Writes bytes. -/
def write (s : Nat) (m : Handle) (offset : Nat) (bytes : List UInt8) : Act κ σ Unit := do
  context s
  let (i, memory) ← at_ s m
  match overwrite? memory offset bytes with
  | some written => onGuest s fun g => ((), g.putMemory i written)
  | none => fail (.memoryAccess offset bytes.length memory.size)

/-- Looks at the contents of a memory, and may change the bytes of it. -/
def withData {α : Type} (s : Nat) (m : Handle) (f : Guest.Memory → α × Guest.Memory) :
    Act κ σ α := do
  context s
  let (i, memory) ← at_ s m
  let (a, changed) := f memory
  onGuest s fun g => (a, g.putMemory i { memory with written := changed.written })

end Memory

/-! ## Tables -/

namespace Table

/-- The table a handle stands for, with its place. -/
def at_ (s : Nat) (t : Handle) : Act κ σ (Nat × Guest.Table) := do
  match ← place s t with
  | .table i =>
    let table ← orAbort .stuck ((← guest s).tables[i]?)
    return (i, table)
  | _ => abort (.dangling t)

/-- The engine takes a copy of a packed reference. -/
def adoptRef (s : Nat) {t : Nat} (p : Packed t) : Act κ σ Guest.Ref := do
  match ← adopt s p with
  | .ref r => return r
  | _ => fail (.engine .notReference)

/-- Makes a table filled with one reference. -/
def create (s : Nat) (type : TableType) (init : Val) : Act κ σ Handle := do
  if init.kind ≠ type.element then fail (.wrongKind type.element init.kind)
  context s
  let packed ← pack s init
  ensuring (releasePacked packed) do
    match (Wire.ofTable type).read with
    | .error fault => fail (.engine fault)
    | .ok type =>
      let init ← adoptRef s packed
      allot s fun g => (Wire.addTable g type init).map fun (i, g) => (.table i, g)

/-- The number of elements. -/
def size (s : Nat) (t : Handle) : Act κ σ Nat := do
  context s
  return (← at_ s t).2.size

/-- The element at an index, if there is one. -/
def get (s : Nat) (t : Handle) (index : Nat) : Act κ σ (Option Val) := do
  context s
  match (← at_ s t).2.get? index with
  | none => return none
  | some r =>
    match ← expose s (.ref r) with
    | .error _ => return none
    | .ok packed => ensuring (releasePacked packed) (some <$> unpack s packed)

/-- Replaces an element by a reference of the table's kind. -/
def set (s : Nat) (t : Handle) (index : Nat) (v : Val) : Act κ σ Unit := do
  context s
  let (i, table) ← at_ s t
  if v.kind ≠ table.type.element then fail (.wrongKind table.type.element v.kind)
  let packed ← pack s v
  ensuring (releasePacked packed) do
    let r ← adoptRef s packed
    match table.set? index r with
    | none => fail (.engine .tableIndex)
    | some table => onGuest s fun g => ((), g.putTable i table)

/-- Adds elements, all the same reference of the table's kind, and gives the number before. -/
def grow (s : Nat) (t : Handle) (delta : Nat) (init : Val) : Act κ σ Nat := do
  context s
  let (i, table) ← at_ s t
  if init.kind ≠ table.type.element then fail (.wrongKind table.type.element init.kind)
  let packed ← pack s init
  ensuring (releasePacked packed) do
    let r ← adoptRef s packed
    match table.grow? delta r with
    | none => fail (.engine (.growTable delta))
    | some grown =>
      onGuest s fun g => ((), g.putTable i grown)
      return table.size

end Table

/-! ## Items of any sort -/

namespace Item

/-- The type of an item, as it was declared. -/
def type (s : Nat) (item : Item) : Act κ σ ItemType := do
  context s
  let type ← orAbort .stuck
    ((← guest s).declaredType? (← place s item.handle))
  return Wire.shown type

end Item

end WasmHost.Host
