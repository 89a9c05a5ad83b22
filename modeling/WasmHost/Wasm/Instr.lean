import WasmHost.ItemType
import WasmHost.Wasm.Features

/-!
# Instructions

The instructions of a function body, in the flat order of the binary format: blocks are opened and
closed by instructions of their own. Families that differ only in width or operation share a
constructor. Instructions that the interpreter has no meaning for, such as vector arithmetic, are
kept as their operand and result kinds, which is all that checking a module needs.
-/

namespace WasmHost.Wasm

/-- The two integer widths. -/
inductive IntWidth where
  | w32
  | w64
  deriving DecidableEq, Repr

/-- The two float widths. -/
inductive FloatWidth where
  | f32
  | f64
  deriving DecidableEq, Repr

/-- The kind of an integer width. -/
def IntWidth.kind : IntWidth → Kind
  | w32 => .i32
  | w64 => .i64

/-- The kind of a float width. -/
def FloatWidth.kind : FloatWidth → Kind
  | f32 => .f32
  | f64 => .f64

/-- Integer operations of one operand. -/
inductive IntUnary where
  | clz
  | ctz
  | popcnt
  | extend8
  | extend16
  | extend32
  deriving DecidableEq, Repr

/-- Integer operations of two operands. -/
inductive IntBinary where
  | add
  | sub
  | mul
  | divS
  | divU
  | remS
  | remU
  | and
  | or
  | xor
  | shl
  | shrS
  | shrU
  | rotl
  | rotr
  deriving DecidableEq, Repr

/-- Integer comparisons. -/
inductive IntRelation where
  | eq
  | ne
  | ltS
  | ltU
  | gtS
  | gtU
  | leS
  | leU
  | geS
  | geU
  deriving DecidableEq, Repr

/-- Float operations of one operand. -/
inductive FloatUnary where
  | abs
  | neg
  | ceil
  | floor
  | trunc
  | nearest
  | sqrt
  deriving DecidableEq, Repr

/-- Float operations of two operands. -/
inductive FloatBinary where
  | add
  | sub
  | mul
  | div
  | min
  | max
  | copysign
  deriving DecidableEq, Repr

/-- Float comparisons. -/
inductive FloatRelation where
  | eq
  | ne
  | lt
  | gt
  | le
  | ge
  deriving DecidableEq, Repr

/-- Conversions between number kinds. -/
inductive Conversion where
  | wrap
  | extend (signed : Bool)
  | truncate (target : IntWidth) (source : FloatWidth) (signed saturating : Bool)
  | ofInt (target : FloatWidth) (source : IntWidth) (signed : Bool)
  | demote
  | promote
  | reinterpret (target source : Kind)
  deriving DecidableEq, Repr

/-- The kind a conversion takes. -/
def Conversion.source : Conversion → Kind
  | wrap => .i64
  | extend _ => .i32
  | truncate _ s _ _ => s.kind
  | ofInt _ s _ => s.kind
  | demote => .f64
  | promote => .f32
  | reinterpret _ s => s

/-- The kind a conversion gives. -/
def Conversion.target : Conversion → Kind
  | wrap => .i32
  | extend _ => .i64
  | truncate t _ _ _ => t.kind
  | ofInt t _ _ => t.kind
  | demote => .f32
  | promote => .f64
  | reinterpret t _ => t

/-- Where an instruction reaches into a memory. `align` is a power of two. -/
structure MemArg where
  align : Nat
  memory : Nat
  offset : Nat
  deriving DecidableEq, Repr

/-- A load or store of a scalar: the kind on the operand stack, the bytes in memory (as a power of
two), and whether a narrow load extends the sign. -/
structure Access where
  kind : Kind
  logBytes : Nat
  signed : Bool
  deriving DecidableEq, Repr

/-- The type of a block: no parameters and at most one result, or a function type. -/
inductive BlockType where
  | empty
  | result (kind : Kind)
  | indexed (type : Nat)
  deriving DecidableEq, Repr

/-- A memory access of an instruction that is only checked. -/
structure CheckedAccess where
  arg : MemArg
  logBytes : Nat
  /-- Atomic accesses must state their natural alignment. -/
  exact : Bool
  deriving DecidableEq, Repr

/-- One instruction. -/
inductive Instr where
  | unreachable
  | nop
  | block (type : BlockType)
  | loop (type : BlockType)
  | if_ (type : BlockType)
  | else_
  | end_
  | br (depth : Nat)
  | brIf (depth : Nat)
  | brTable (depths : List Nat) (default : Nat)
  | return_
  | call (func : Nat)
  | callIndirect (type table : Nat)
  | returnCall (func : Nat)
  | returnCallIndirect (type table : Nat)
  | drop
  | select (kind : Option Kind)
  | localGet (index : Nat)
  | localSet (index : Nat)
  | localTee (index : Nat)
  | globalGet (index : Nat)
  | globalSet (index : Nat)
  | tableGet (table : Nat)
  | tableSet (table : Nat)
  | tableSize (table : Nat)
  | tableGrow (table : Nat)
  | tableFill (table : Nat)
  | tableCopy (target source : Nat)
  | tableInit (segment table : Nat)
  | elemDrop (segment : Nat)
  | load (access : Access) (arg : MemArg)
  | store (access : Access) (arg : MemArg)
  | memorySize (memory : Nat)
  | memoryGrow (memory : Nat)
  | memoryFill (memory : Nat)
  | memoryCopy (target source : Nat)
  | memoryInit (segment memory : Nat)
  | dataDrop (segment : Nat)
  | i32Const (value : BitVec 32)
  | i64Const (value : BitVec 64)
  | f32Const (bits : BitVec 32)
  | f64Const (bits : BitVec 64)
  | v128Const (bits : BitVec 128)
  | intUnary (width : IntWidth) (op : IntUnary)
  | intBinary (width : IntWidth) (op : IntBinary)
  | intTest (width : IntWidth)
  | intRelation (width : IntWidth) (op : IntRelation)
  | floatUnary (width : FloatWidth) (op : FloatUnary)
  | floatBinary (width : FloatWidth) (op : FloatBinary)
  | floatRelation (width : FloatWidth) (op : FloatRelation)
  | convert (op : Conversion)
  | refNull (kind : Kind)
  | refIsNull
  | refFunc (func : Nat)
  | atomicLoad (access : Access) (arg : MemArg)
  | atomicWait32 (arg : MemArg)
  /-- An instruction that can be told valid from invalid, and cannot be executed: vector arithmetic,
  and atomic instructions other than loads and 32-bit waits. -/
  | checkedOnly (feature : Feature) (access : Option CheckedAccess) (params results : List Kind)
  deriving DecidableEq, Repr

/-- An instruction and the offset of its first byte in the module. -/
structure LocatedInstr where
  offset : Nat
  instr : Instr
  deriving Repr

/-- The feature an instruction belongs to, if an embedder can switch it off. -/
def Instr.feature? : Instr → Option Feature
  | select (some _) | tableGet _ | tableSet _ | tableSize _ | tableGrow _ | tableFill _
  | refNull _ | refIsNull | refFunc _ => some .referenceTypes
  | tableCopy .. | tableInit .. | elemDrop _ | memoryFill _ | memoryCopy .. | memoryInit ..
  | dataDrop _ => some .bulkMemory
  | v128Const _ => some .simd
  | atomicLoad .. | atomicWait32 _ => some .threads
  | checkedOnly f .. => some f
  | _ => none

end WasmHost.Wasm
