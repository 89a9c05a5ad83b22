import WasmHost.Error
import WasmHost.Guest.Store

/-!
# Types and values on the wire

Between host and engine, types travel as numbers: a kind is a byte, and limits are two words, where
the greatest word stands for the absence of an upper limit. Numbers that stand for nothing are
refused, and so are limits that are too great for what they are the limits of.

Each side has its own tables, for writing and for reading, and they are not inverse to each other by
construction. The engine refuses a byte that it does not know, while the host takes every such byte
for the kind of vectors. The engine tells host objects and functions apart among its references, and
takes for a function whatever is not the former. What one side writes and the other reads is the
same kind all the same; that is for the lemmas to say.
-/

namespace WasmHost.Host.Wire

/-! ## Kinds -/

/-- The byte that the host writes for a kind. -/
def kindByte : Kind → Nat
  | .i32 => 0
  | .i64 => 1
  | .f32 => 2
  | .f64 => 3
  | .v128 => 4
  | .funcref => 129
  | .externref => 128

/-- The kind that the host takes a byte for. -/
def shownKind : Nat → Kind
  | 0 => .i32
  | 1 => .i64
  | 2 => .f32
  | 3 => .f64
  | 129 => .funcref
  | 128 => .externref
  | _ => .v128

/-- The byte that the engine writes for a kind of reference. -/
def toldReference : Kind → Nat
  | .externref => 128
  | _ => 129

/-- The byte that the engine writes for a kind. -/
def toldKind : Kind → Nat
  | .i32 => 0
  | .i64 => 1
  | .f32 => 2
  | .f64 => 3
  | .v128 => 4
  | k => toldReference k

/-- The kind that the engine reads from a byte, or a refusal. -/
def readKind : Nat → Except EngineFault Kind
  | 0 => .ok .i32
  | 1 => .ok .i64
  | 2 => .ok .f32
  | 3 => .ok .f64
  | 4 => .ok .v128
  | 129 => .ok .funcref
  | 128 => .ok .externref
  | b => .error (.unknownKind b)

/-- The kind of reference that the engine reads from a byte, or a refusal. -/
def readReference : Nat → Except EngineFault Kind
  | 129 => .ok .funcref
  | 128 => .ok .externref
  | b => .error (.notReferenceKind b)

theorem shownKind_toldKind (k : Kind) : shownKind (toldKind k) = k := by cases k <;> rfl

theorem shownKind_toldReference {k : Kind} (h : k.isReference = true) :
    shownKind (toldReference k) = k := by
  cases k <;> first | rfl | cases h

theorem readKind_kindByte (k : Kind) : readKind (kindByte k) = .ok k := by cases k <;> rfl

/-- The number for a sort of item. -/
def itemByte : ItemKind → Nat
  | .func => 0
  | .global => 1
  | .table => 2
  | .memory => 3

/-! ## Types -/

/-- A function type. -/
structure RawSignature where
  params : List Nat
  results : List Nat
  deriving DecidableEq, Repr

/-- A global type; the second number is one for a variable, zero for a constant. -/
structure RawGlobal where
  content : Nat
  mutability : Nat
  deriving DecidableEq, Repr

/-- Limits. -/
structure RawLimits where
  min : UInt64
  max : UInt64
  deriving DecidableEq, Repr

/-- A memory type. -/
structure RawMemory where
  limits : RawLimits
  wide : Bool
  deriving DecidableEq, Repr

/-- A table type. -/
structure RawTable where
  element : Nat
  limits : RawLimits
  deriving DecidableEq, Repr

/-- What stands for the absence of an upper limit. -/
def unlimited : UInt64 := 0xffffffffffffffff

/-- Writes a function type, with a byte for each kind. -/
def RawSignature.write (byte : Kind → Nat) (s : Signature) : RawSignature :=
  ⟨s.params.map byte, s.results.map byte⟩

/-- The host writes a function type. -/
def ofSignature (s : Signature) : RawSignature := .write kindByte s

/-- The engine writes a function type. -/
def toldSignature (s : Signature) : RawSignature := .write toldKind s

/-- Reads a function type. -/
def RawSignature.read (r : RawSignature) : Except EngineFault Signature := do
  let params ← r.params.mapM readKind
  let results ← r.results.mapM readKind
  return ⟨params, results⟩

/-- Writes a global type, with a byte for each kind. -/
def RawGlobal.write (byte : Kind → Nat) (g : GlobalType) : RawGlobal :=
  ⟨byte g.content, if g.writable then 1 else 0⟩

/-- The host writes a global type. -/
def ofGlobal (g : GlobalType) : RawGlobal := .write kindByte g

/-- The engine writes a global type. -/
def toldGlobal (g : GlobalType) : RawGlobal := .write toldKind g

/-- Reads a global type, looking at the mutability first. -/
def RawGlobal.read (r : RawGlobal) : Except EngineFault GlobalType :=
  if r.mutability = 0 then (readKind r.content).map fun k => ⟨k, false⟩
  else if r.mutability = 1 then (readKind r.content).map fun k => ⟨k, true⟩
  else .error (.unknownMutability r.mutability)

/-- Writes limits, which both sides do alike. -/
def ofLimits (l : Limits) : RawLimits := ⟨l.min, l.max.getD unlimited⟩

/-- Reads limits. -/
def RawLimits.read (r : RawLimits) : Limits :=
  ⟨r.min, if r.max = unlimited then none else some r.max⟩

/-- A word that is no greater than 32 bits allow. -/
def narrow (n : UInt64) : Except EngineFault UInt64 :=
  if n.toNat < Nat.pow 2 32 then .ok n else .error .narrowing

/-- Reads limits that must fit into 32 bits. -/
def RawLimits.readNarrow (r : RawLimits) : Except EngineFault Limits := do
  let l := r.read
  let min ← narrow l.min
  match l.max with
  | none => return ⟨min, none⟩
  | some m => return ⟨min, some (← narrow m)⟩

/-- Writes a memory type, which both sides do alike. Whether a memory is shared is not written, and the
host makes no shared ones. -/
def ofMemory (m : MemoryType) : RawMemory := ⟨ofLimits m.limits, m.wide⟩

/-- Reads a memory type. -/
def RawMemory.read (r : RawMemory) : Except EngineFault MemoryType :=
  if r.wide then .ok ⟨r.limits.read, true, false⟩
  else r.limits.readNarrow.map fun l => ⟨l, false, false⟩

/-- Writes a table type, with a byte for each kind. -/
def RawTable.write (byte : Kind → Nat) (t : TableType) : RawTable :=
  ⟨byte t.element, ofLimits t.limits⟩

/-- The host writes a table type. -/
def ofTable (t : TableType) : RawTable := .write kindByte t

/-- The engine writes a table type. -/
def toldTable (t : TableType) : RawTable := .write toldReference t

/-- Reads a table type, looking at the element first. -/
def RawTable.read (r : RawTable) : Except EngineFault TableType := do
  let element ← readReference r.element
  let limits ← r.limits.readNarrow
  return ⟨element, limits⟩

/-! ## Types as the host sees them -/

/-- The function type that is shown. -/
def RawSignature.shown (r : RawSignature) : Signature :=
  ⟨r.params.map shownKind, r.results.map shownKind⟩

/-- The global type that is shown. -/
def RawGlobal.shown (r : RawGlobal) : GlobalType := ⟨shownKind r.content, r.mutability = 1⟩

/-- The memory type that is shown. -/
def RawMemory.shown (r : RawMemory) : MemoryType := ⟨r.limits.read, r.wide, false⟩

/-- The table type that is shown. -/
def RawTable.shown (r : RawTable) : TableType := ⟨shownKind r.element, r.limits.read⟩

/-- The type of an item as it arrives at the host. -/
def shown : ItemType → ItemType
  | .func s => .func (toldSignature s).shown
  | .global g => .global (toldGlobal g).shown
  | .memory m => .memory (ofMemory m).shown
  | .table t => .table (toldTable t).shown

/-! ## Values -/

/-- A value: the byte of its kind, and its bits. References on the wire are null. -/
structure RawVal where
  kind : Nat
  bits : BitVec 64
  deriving DecidableEq, Repr

/-- Reads a value. There are no vector values on the wire. -/
def RawVal.read (r : RawVal) : Except EngineFault Guest.Value :=
  match r.kind with
  | 0 => .ok (.i32 (r.bits.setWidth 32))
  | 1 => .ok (.i64 r.bits)
  | 2 => .ok (.f32 (r.bits.setWidth 32))
  | 3 => .ok (.f64 r.bits)
  | 129 => .ok (.ref (.func none))
  | 128 => .ok (.ref (.object none))
  | b => .error (.unknownKind b)

/-- Reads a reference. -/
def RawVal.readRef (r : RawVal) : Except EngineFault Guest.Ref :=
  match r.read with
  | .ok (.ref ref) => .ok ref
  | .ok _ => .error .notReference
  | .error e => .error e

/-! ## Making items in the engine's store -/

/-- The engine's word for the type of a place that holds values of a kind. -/
def kindText : Kind → String
  | .funcref => "(ref null func)"
  | .externref => "(ref null extern)"
  | k => k.text

/-- The engine's word for the type of a value; null has a type of its own. -/
def valueText : Guest.Value → String
  | .ref (.func none) => "(ref null nofunc)"
  | .ref (.object none) => "(ref null noextern)"
  | .ref (.func (some _)) => "(ref func)"
  | .ref (.object (some _)) => "(ref extern)"
  | v => v.kind.text

/-- Adds a global, whose first value must be of its kind. -/
def addGlobal (s : Guest.Store) (type : GlobalType) (init : Guest.Value) :
    Except EngineFault (Nat × Guest.Store) :=
  if init.kind = type.content then .ok (s.addGlobal ⟨type, init⟩)
  else .error (.globalInitialiser (kindText type.content) (valueText init))

/-- Adds a table, whose elements must be of its kind. -/
def addTable (s : Guest.Store) (type : TableType) (init : Guest.Ref) :
    Except EngineFault (Nat × Guest.Store) :=
  if init.kind = type.element then .ok (s.addTable (.ofType type init))
  else .error (.tableInitialiser (kindText type.element) (valueText (.ref init)))

end WasmHost.Host.Wire
