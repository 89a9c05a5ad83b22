import WasmHost.Wasm.Module

/-!
# Typing of instructions

An instruction that is no control instruction has a stack type: the kinds it takes off the operand
stack, last one on top, and the kinds it leaves. `Instr.stackType?` gives it in a module context, or
`none` if the instruction refers to something the module does not have. Control instructions are
typed by a stack of open blocks, each with its own operands; in code that cannot be reached, missing
operands are of unknown kind.
-/

namespace WasmHost.Wasm

/-- What the instructions of a body may refer to. -/
structure Context where
  features : Features
  types : Array Signature
  funcs : Array Nat
  tables : Array TableType
  memories : Array MemoryType
  globals : Array GlobalType
  /-- How many of the globals are imported. -/
  importedGlobals : Nat
  elements : Array Kind
  dataCount : Option Nat
  /-- Functions to which references may be taken inside bodies. -/
  declared : List Nat
  locals : Array Kind
  results : List Kind

namespace Context

/-- The signature of a function. -/
def signature? (c : Context) (func : Nat) : Option Signature :=
  c.funcs[func]?.bind (c.types[·]?)

/-- The kind of an index into a memory. -/
def addressKind (m : MemoryType) : Kind := if m.wide then .i64 else .i32

/-- The address kind of an access that is aligned and within range. -/
def accessKind? (c : Context) (arg : MemArg) (logBytes : Nat) (exact : Bool) : Option Kind := do
  let m ← c.memories[arg.memory]?
  guard (if exact then arg.align = logBytes else arg.align ≤ logBytes)
  guard (m.wide || arg.offset < Nat.pow 2 32)
  return addressKind m

/-- The function type of a block. -/
def blockSignature? (c : Context) : BlockType → Option Signature
  | .empty => some ⟨[], []⟩
  | .result k => some ⟨[], [k]⟩
  | .indexed i => if c.features.multiValue then c.types[i]? else none

/-- A kind that the features allow. -/
def allows (c : Context) : Kind → Bool
  | .v128 => c.features.simd
  | .funcref | .externref => c.features.referenceTypes
  | _ => true

end Context

/-- The kinds an instruction takes and leaves. Instructions whose type depends on the operands or on
open blocks have none. -/
def Instr.stackType? (c : Context) : Instr → Option (List Kind × List Kind)
  | nop => some ([], [])
  | call f => (c.signature? f).map fun s => (s.params, s.results)
  | callIndirect type table => do
    let s ← c.types[type]?
    let t ← c.tables[table]?
    guard (t.element = .funcref)
    return (s.params ++ [.i32], s.results)
  | select (some k) => if c.allows k then some ([k, k, .i32], [k]) else none
  | localGet i => c.locals[i]?.map fun k => ([], [k])
  | localSet i => c.locals[i]?.map fun k => ([k], [])
  | localTee i => c.locals[i]?.map fun k => ([k], [k])
  | globalGet i => c.globals[i]?.map fun g => ([], [g.content])
  | globalSet i => do
    let g ← c.globals[i]?
    guard g.writable
    return ([g.content], [])
  | tableGet i => c.tables[i]?.map fun t => ([.i32], [t.element])
  | tableSet i => c.tables[i]?.map fun t => ([.i32, t.element], [])
  | tableSize i => c.tables[i]?.map fun _ => ([], [.i32])
  | tableGrow i => c.tables[i]?.map fun t => ([t.element, .i32], [.i32])
  | tableFill i => c.tables[i]?.map fun t => ([.i32, t.element, .i32], [])
  | tableCopy target source => do
    let t ← c.tables[target]?
    let s ← c.tables[source]?
    guard (t.element = s.element)
    return ([.i32, .i32, .i32], [])
  | tableInit segment table => do
    let k ← c.elements[segment]?
    let t ← c.tables[table]?
    guard (t.element = k)
    return ([.i32, .i32, .i32], [])
  | elemDrop segment => c.elements[segment]?.map fun _ => ([], [])
  | load access arg => do
    let k ← c.accessKind? arg access.logBytes false
    return ([k], [access.kind])
  | store access arg => do
    let k ← c.accessKind? arg access.logBytes false
    return ([k, access.kind], [])
  | memorySize i => c.memories[i]?.map fun m => ([], [Context.addressKind m])
  | memoryGrow i => c.memories[i]?.map fun m => ([Context.addressKind m], [Context.addressKind m])
  | memoryFill i => c.memories[i]?.map fun m =>
      ([Context.addressKind m, .i32, Context.addressKind m], [])
  | memoryCopy target source => do
    let t ← c.memories[target]?
    let s ← c.memories[source]?
    let length := if t.wide && s.wide then Kind.i64 else .i32
    return ([Context.addressKind t, Context.addressKind s, length], [])
  | memoryInit segment memory => do
    let m ← c.memories[memory]?
    guard (segment < (← c.dataCount))
    return ([Context.addressKind m, .i32, .i32], [])
  | dataDrop segment => do
    guard (segment < (← c.dataCount))
    return ([], [])
  | i32Const _ => some ([], [.i32])
  | i64Const _ => some ([], [.i64])
  | f32Const _ => some ([], [.f32])
  | f64Const _ => some ([], [.f64])
  | v128Const _ => some ([], [.v128])
  | intUnary w _ => some ([w.kind], [w.kind])
  | intBinary w _ => some ([w.kind, w.kind], [w.kind])
  | intTest w => some ([w.kind], [.i32])
  | intRelation w _ => some ([w.kind, w.kind], [.i32])
  | floatUnary w _ => some ([w.kind], [w.kind])
  | floatBinary w _ => some ([w.kind, w.kind], [w.kind])
  | floatRelation w _ => some ([w.kind, w.kind], [.i32])
  | convert op => some ([op.source], [op.target])
  | refNull k => if k.isReference then some ([], [k]) else none
  | refFunc f => do
    guard (f < c.funcs.size)
    guard (c.declared.contains f)
    return ([], [.funcref])
  | atomicLoad access arg => do
    let k ← c.accessKind? arg access.logBytes true
    return ([k], [access.kind])
  | atomicWait32 arg => do
    let k ← c.accessKind? arg 2 true
    return ([k, .i32, .i64], [.i32])
  | checkedOnly _ none params results => some (params, results)
  | checkedOnly _ (some a) params results => do
    let k ← c.accessKind? a.arg a.logBytes a.exact
    return (k :: params, results)
  | _ => none

/-! ## Open blocks -/

/-- What opened a block. -/
inductive Opener where
  | block
  | loop
  | if_
  | else_
  deriving DecidableEq, Repr

/-- An open block: its type, the operands of the code around it, and whether the rest of its own
code can be reached. -/
structure OpenBlock where
  opener : Opener
  params : List Kind
  results : List Kind
  outer : List (Option Kind)
  dead : Bool
  deriving Repr

namespace OpenBlock

/-- The kinds a branch to the block carries. -/
def branchKinds (b : OpenBlock) : List Kind :=
  if b.opener = .loop then b.params else b.results

end OpenBlock

/-- The operands of the innermost block, top first, and the open blocks, innermost first. An operand
of unknown kind is `none`. -/
structure TypingState where
  operands : List (Option Kind)
  blocks : List OpenBlock
  deriving Repr

namespace TypingState

/-- The innermost block is dead code. -/
def isDead (s : TypingState) : Bool :=
  match s.blocks with
  | b :: _ => b.dead
  | [] => false

/-- Takes an operand of any kind. -/
def popAny (s : TypingState) : Option (Option Kind × TypingState) :=
  match s.operands with
  | k :: rest => some (k, { s with operands := rest })
  | [] => if s.isDead then some (none, s) else none

/-- Takes an operand of a kind. -/
def pop (s : TypingState) (kind : Kind) : Option TypingState := do
  let (k, s) ← s.popAny
  guard (k.all (· = kind))
  return s

/-- Takes operands of the given kinds, the last one first. -/
def popAll (s : TypingState) (kinds : List Kind) : Option TypingState :=
  kinds.reverse.foldlM pop s

/-- Leaves operands of the given kinds. -/
def push (s : TypingState) (kinds : List Kind) : TypingState :=
  { s with operands := kinds.reverse.map some ++ s.operands }

/-- The rest of the innermost block cannot be reached. -/
def die (s : TypingState) : TypingState :=
  match s.blocks with
  | b :: rest => ⟨[], { b with dead := true } :: rest⟩
  | [] => s

/-- Opens a block whose parameters have been taken. -/
def enter (s : TypingState) (opener : Opener) (type : Signature) : TypingState :=
  ⟨type.params.reverse.map some,
    ⟨opener, type.params, type.results, s.operands, false⟩ :: s.blocks⟩

/-- Closes the innermost block, whose operands must be exactly its results. The operands outside
come back. -/
def leave (s : TypingState) : Option (OpenBlock × TypingState) := do
  match s.blocks with
  | [] => none
  | b :: rest =>
    let s ← s.popAll b.results
    guard s.operands.isEmpty
    return (b, ⟨b.outer, rest⟩)

/-- The operands a branch needs. -/
def branch? (s : TypingState) (depth : Nat) : Option (List Kind) :=
  s.blocks[depth]?.map OpenBlock.branchKinds

end TypingState

/-- Types one instruction. -/
def TypingState.step (c : Context) (s : TypingState) (i : Instr) : Option TypingState := do
  guard (i.feature?.all c.features.has)
  match i with
  | .unreachable => return s.die
  | .block t =>
    let type ← c.blockSignature? t
    guard (type.results.all c.allows)
    return (← s.popAll type.params).enter .block type
  | .loop t =>
    let type ← c.blockSignature? t
    guard (type.results.all c.allows)
    return (← s.popAll type.params).enter .loop type
  | .if_ t =>
    let type ← c.blockSignature? t
    guard (type.results.all c.allows)
    return (← (← s.pop .i32).popAll type.params).enter .if_ type
  | .else_ =>
    let (b, s) ← s.leave
    guard (b.opener = .if_)
    return s.enter .else_ ⟨b.params, b.results⟩
  | .end_ =>
    let (b, s) ← s.leave
    -- Without an `else`, the parameters pass through unchanged.
    guard (b.opener ≠ .if_ || b.params = b.results)
    return s.push b.results
  | .br depth => return (← s.popAll (← s.branch? depth)).die
  | .brIf depth =>
    let s ← s.pop .i32
    let kinds ← s.branch? depth
    return (← s.popAll kinds).push kinds
  | .brTable depths last =>
    let s ← s.pop .i32
    let kinds ← s.branch? last
    for depth in depths do
      let others ← s.branch? depth
      guard (others.length = kinds.length)
      let _ ← s.popAll others
    return (← s.popAll kinds).die
  | .return_ => return (← s.popAll c.results).die
  | .returnCall f =>
    let type ← c.signature? f
    guard (type.results = c.results)
    return (← s.popAll type.params).die
  | .returnCallIndirect type table =>
    let (params, results) ← (Instr.callIndirect type table).stackType? c
    guard (results = c.results)
    return (← s.popAll params).die
  | .drop => return (← s.popAny).2
  | .select none =>
    let s ← s.pop .i32
    let (a, s) ← s.popAny
    let (b, s) ← s.popAny
    guard (a.all (!·.isReference) && b.all (!·.isReference))
    guard (a.isNone || b.isNone || a = b)
    return { s with operands := (a <|> b) :: s.operands }
  | .refIsNull =>
    let (k, s) ← s.popAny
    guard (k.all Kind.isReference)
    return s.push [.i32]
  | _ =>
    let (params, results) ← i.stackType? c
    return (← s.popAll params).push results

/-- The state before the first instruction of a body: the body itself is a block. -/
def TypingState.initial (results : List Kind) : TypingState :=
  ⟨[], [⟨.block, [], results, [], false⟩]⟩

/-- Types instructions in order; nothing may follow the end of the outermost block. -/
def TypingState.run (c : Context) (s : TypingState) : List Instr → Option TypingState
  | [] => some s
  | i :: rest => if s.blocks.isEmpty then none else (s.step c i).bind fun s => s.run c rest

/-- The body of a function is well typed: its instructions close every block, the outermost last. -/
def Context.bodyTyped (c : Context) (code : List Instr) : Bool :=
  ((TypingState.initial c.results).run c code).any fun s => s.blocks.isEmpty

end WasmHost.Wasm
