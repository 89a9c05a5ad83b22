import WasmHost.Guest.Numeric
import WasmHost.Guest.Store

/-!
# Running guest code

A thread is a stack of activations, one for each guest function that has been entered and not left,
innermost first. `step` executes one instruction of the innermost. `advance` goes on until the
thread finishes, traps, or calls a host function; `resume` continues a thread with what the host
function gave.

Code that has been checked never meets operands of the wrong kind or a missing item; where that is
needed, `execute` gives nothing, and the thread is stuck. One sort of checked code does get there: vector
arithmetic, and atomic instructions other than loads and 32-bit waits, are checked like the rest but have no
meaning here (`Instr.checkedOnly`). A thread that comes to such an instruction is stuck, where a machine
that has it would go on. Modules that hold such code are otherwise treated like any other, and what is
said about guests that end, trap or call out does not concern the threads that are stuck.
-/

namespace WasmHost.Guest

open Wasm

/-- Where a branch out of a block continues, how many operands it carries, and the operands that
stand below those of the block. -/
structure Label where
  target : Nat
  arity : Nat
  outer : List Value
  deriving Inhabited

/-- A guest function that is being executed. -/
structure Activation where
  instance_ : Nat
  /-- The index of the function in its module. -/
  func : Nat
  body : Body
  /-- How many results the function gives. -/
  arity : Nat
  /-- The position of the next instruction. -/
  pc : Nat
  locals : Array Value
  /-- The operand stack, top first. -/
  operands : List Value
  labels : List Label
  /-- Fuel charged here and not yet put on the store's account. -/
  unsaved : Nat
  /-- The deadline as it was when last looked at. -/
  deadline : Nat
  deriving Inhabited

namespace Activation

/-- Moves on to the next instruction. -/
def next (a : Activation) : Activation := { a with pc := a.pc + 1 }

/-- Replaces the operands and moves on. -/
def leaving (a : Activation) (operands : List Value) : Activation :=
  { a with operands, pc := a.pc + 1 }

/-- Branches out of as many blocks as given, and of one more. A branch out of the outermost block
goes to the end of the body. -/
def branch (a : Activation) (depth : Nat) : Activation :=
  match a.labels.drop depth with
  | label :: rest =>
    { a with
      pc := label.target
      operands := a.operands.take label.arity ++ label.outer
      labels := rest }
  | [] =>
    { a with
      pc := a.body.code.size
      operands := a.operands.take a.arity
      labels := [] }

/-- The offset in the module of the instruction being executed. -/
def offset (a : Activation) : Nat :=
  ((a.body.code[a.pc]?).map (·.offset)).getD a.body.start

/-- Bytes of stack that an activation takes. -/
def stackCost (a : Activation) : Nat := 64 + 8 * a.locals.size

end Activation

/-- What the execution of an instruction leads to. -/
inductive Step where
  | next (s : Store) (a : Activation)
  | call (s : Store) (a : Activation) (place : Nat) (args : List Value)
  | tailCall (s : Store) (place : Nat) (args : List Value)
  | leave (s : Store) (results : List Value)
  | trap (s : Store) (cause : TrapCause)

/-- What a thread stops for. A host function is called by an instance, unless it is where the thread
begins. -/
inductive Event where
  | finished (results : List Value)
  | trapped (cause : TrapCause) (frames : List Frame)
  | called (key : Nat) (type : Signature) (args : List Value) (caller : Option Nat)
      (thread : List Activation)
  /-- There is no meaning to go on with: the next instruction is one that is only checked. -/
  | stuck
  | timeout

/-! ## Fuel and deadlines -/

/-- What an instruction costs. -/
def fuelCost : Instr → Nat
  | .nop | .drop | .block _ | .loop _ | .unreachable | .return_ | .else_ | .end_ => 0
  | _ => 1

/-- Puts the fuel charged in an activation on the store's account. -/
def saveFuel (s : Store) (a : Activation) : Store × Activation :=
  ({ s with charged := s.charged + a.unsaved }, { a with unsaved := 0 })

/-- Looks whether fuel has run out or the deadline has passed, in this order. -/
def checkMeters (epoch : Nat) (s : Store) (a : Activation) : Except TrapCode Unit :=
  if s.meters.fuel && s.granted ≤ s.charged + a.unsaved then .error .outOfFuel
  else if s.meters.deadline && a.deadline ≤ epoch && s.deadline ≤ epoch then .error .interrupt
  else .ok ()

/-- The store after a check that failed: running out of fuel is put on the account. -/
def afterFailedCheck (s : Store) (a : Activation) : TrapCode → Store
  | .outOfFuel => (saveFuel s a).1
  | _ => s

/-! ## Memory access -/

/-- The address an access goes to. -/
def effectiveAddress? (arg : MemArg) (base : Value) : Option Nat :=
  base.toIndex?.map (· + arg.offset)

/-- The value of a kind that little-endian bytes stand for. -/
def loadedValue? (access : Access) (bytes : List UInt8) : Option Value :=
  let n := Memory.ofLittleEndian bytes
  let bits := 8 * Nat.pow 2 access.logBytes
  match access.kind with
  | .i32 =>
    some (.i32 (if access.signed then (BitVec.ofNat bits n).signExtend 32 else BitVec.ofNat 32 n))
  | .i64 =>
    some (.i64 (if access.signed then (BitVec.ofNat bits n).signExtend 64 else BitVec.ofNat 64 n))
  | .f32 => some (.f32 (BitVec.ofNat 32 n))
  | .f64 => some (.f64 (BitVec.ofNat 64 n))
  | _ => none

/-- The number whose low bytes are stored for a value. -/
def storedNumber? : Value → Option Nat
  | .i32 x => some x.toNat
  | .i64 x => some x.toNat
  | .f32 x => some x.toNat
  | .f64 x => some x.toNat
  | _ => none

/-! ## Instructions -/

section Execute

variable (epoch : Nat) (s : Store) (a : Activation)

/-- The instance of the activation. -/
def instanceOf? : Option Instance := s.instances[a.instance_]?

/-- The place of a memory of the instance, and the memory. -/
def memoryOf? (index : Nat) : Option (Nat × Memory) := do
  let i ← instanceOf? s a
  let place ← i.memories[index]?
  return (place, ← s.memories[place]?)

/-- The place of a table of the instance, and the table. -/
def tableOf? (index : Nat) : Option (Nat × Table) := do
  let i ← instanceOf? s a
  let place ← i.tables[index]?
  return (place, ← s.tables[place]?)

/-- Replaces a memory. -/
def Store.putMemory (place : Nat) (m : Memory) : Store :=
  { s with memories := s.memories.setIfInBounds place m }

/-- Replaces a table. -/
def Store.putTable (place : Nat) (t : Table) : Store :=
  { s with tables := s.tables.setIfInBounds place t }

/-- The position behind the end of the block that an instruction opens. -/
def behindBlock (pc : Nat) : Nat :=
  let first := (a.body.jumps[pc]?).getD a.body.code.size
  match a.body.code[first]? with
  | some ⟨_, .else_⟩ => (a.body.jumps[first]?).getD a.body.code.size + 1
  | _ => first + 1

/-- The numbers of parameters and results of a block. -/
def blockArity? (type : BlockType) : Option (Nat × Nat) :=
  match type with
  | .empty => some (0, 0)
  | .result _ => some (0, 1)
  | .indexed t => do
    let i ← instanceOf? s a
    let type ← i.module.types[t]?
    return (type.params.length, type.results.length)

/-- Opens a block. -/
def openBlock? (type : BlockType) (operands : List Value) (pc : Nat) : Option Activation := do
  let (params, results) ← blockArity? s a type
  return { a with
    pc
    operands
    labels := ⟨behindBlock a a.pc, results, operands.drop params⟩ :: a.labels }

/-- The function a table element refers to, if it may be called with a type. -/
def indirectTarget (table : Table) (index : Nat) (type : Signature) : Except TrapCause Nat :=
  match table.get? index with
  | none => .error (.coded .tableOutOfBounds)
  | some (.func (some place)) =>
    match s.funcs[place]? with
    | some f =>
      if f.type = type then .ok place else .error (.coded .badSignature)
    | none => .error (.coded .indirectCallToNull)
  | some _ => .error (.coded .indirectCallToNull)

/-- Control instructions. -/
def executeControl (i : Instr) : Option Step :=
  match i, a.operands with
  | .unreachable, _ => some (.trap (saveFuel s a).1 (.coded .unreachableCodeReached))
  | .nop, _ => some (.next s a.next)
  | .block type, ops => (openBlock? s a type ops (a.pc + 1)).map (.next s)
  | .loop type, ops =>
    match checkMeters epoch s a with
    | .error code => some (.trap (afterFailedCheck s a code) (.coded code))
    | .ok () => do
      let (params, _) ← blockArity? s a type
      return .next s { a with
        pc := a.pc + 1
        deadline := if a.deadline ≤ epoch then s.deadline else a.deadline
        labels := ⟨a.pc, params, ops.drop params⟩ :: a.labels }
  | .if_ type, .i32 c :: ops =>
    if c ≠ 0 then (openBlock? s a type ops (a.pc + 1)).map (.next s)
    else
      let first := (a.body.jumps[a.pc]?).getD a.body.code.size
      match a.body.code[first]? with
      | some ⟨_, .else_⟩ => (openBlock? s a type ops (first + 1)).map (.next s)
      | _ => some (.next s { a with pc := first + 1, operands := ops })
  | .else_, _ =>
    -- Reached from above: the first part of the block is done, and so is the block.
    some (.next s { a with
      pc := (a.body.jumps[a.pc]?).getD a.body.code.size + 1
      labels := a.labels.drop 1 })
  | .end_, ops =>
    match a.labels with
    | _ :: rest => some (.next s { a with pc := a.pc + 1, labels := rest })
    | [] => some (.leave (saveFuel s a).1 (ops.take a.arity).reverse)
  | .br depth, _ => some (.next s (a.branch depth))
  | .brIf depth, .i32 c :: ops =>
    let a := { a with operands := ops }
    some (.next s (if c ≠ 0 then a.branch depth else a.next))
  | .brTable depths last, .i32 c :: ops =>
    some (.next s ({ a with operands := ops }.branch ((depths[c.toNat]?).getD last)))
  | .return_, ops => some (.leave (saveFuel s a).1 (ops.take a.arity).reverse)
  | .call f, ops => do
    let place ← (← instanceOf? s a).funcs[f]?
    let func ← s.funcs[place]?
    let count := func.type.params.length
    let (s, a) := saveFuel s { a with operands := ops.drop count }
    return .call s a place (ops.take count).reverse
  | .callIndirect type table, index :: ops => do
    let i ← instanceOf? s a
    let type ← i.module.types[type]?
    let (_, table) ← tableOf? s a table
    let count := type.params.length
    let (s, a) := saveFuel s { a with operands := ops.drop count }
    match indirectTarget s table (← index.toIndex?) type with
    | .ok place => return .call s a place (ops.take count).reverse
    | .error cause => return .trap s cause
  | .returnCall f, ops => do
    let place ← (← instanceOf? s a).funcs[f]?
    let func ← s.funcs[place]?
    return .tailCall (saveFuel s a).1 place (ops.take func.type.params.length).reverse
  | .returnCallIndirect type table, index :: ops => do
    let i ← instanceOf? s a
    let type ← i.module.types[type]?
    let (_, table) ← tableOf? s a table
    match indirectTarget s table (← index.toIndex?) type with
    | .ok place =>
      return .tailCall (saveFuel s a).1 place (ops.take type.params.length).reverse
    | .error cause => return .trap (saveFuel s a).1 cause
  | _, _ => none

/-- Instructions on variables and operands. -/
def executeVariable (i : Instr) : Option Step :=
  match i, a.operands with
  | .drop, _ :: ops => some (.next s (a.leaving ops))
  | .select _, .i32 c :: y :: x :: ops =>
    some (.next s (a.leaving ((if c ≠ 0 then x else y) :: ops)))
  | .localGet n, ops => (a.locals[n]?).map fun v => .next s (a.leaving (v :: ops))
  | .localSet n, v :: ops =>
    some (.next s { a with
      locals := a.locals.setIfInBounds n v
      operands := ops
      pc := a.pc + 1 })
  | .localTee n, v :: _ =>
    some (.next s { a with locals := a.locals.setIfInBounds n v, pc := a.pc + 1 })
  | .globalGet n, ops => do
    let place ← (← instanceOf? s a).globals[n]?
    let g ← s.globals[place]?
    return .next s (a.leaving (g.value :: ops))
  | .globalSet n, v :: ops => do
    let place ← (← instanceOf? s a).globals[n]?
    let g ← s.globals[place]?
    return .next { s with globals := s.globals.setIfInBounds place { g with value := v } }
      (a.leaving ops)
  | .refNull k, ops => some (.next s (a.leaving (.ref (.null k) :: ops)))
  | .refIsNull, .ref r :: ops => some (.next s (a.leaving (.ofBool r.isNull :: ops)))
  | .refFunc f, ops => do
    let place ← (← instanceOf? s a).funcs[f]?
    return .next s (a.leaving (.ref (.func (some place)) :: ops))
  | _, _ => none

/-- Replaces the operands by a value, or traps. -/
def valueOrTrap (ops : List Value) (r : Except TrapCause Value) : Step :=
  match r with
  | .ok v => .next s (a.leaving (v :: ops))
  | .error cause => .trap s cause

/-- What a numeric instruction makes of the operands: a value or a trap, and what stands below. -/
def numericResult? (i : Instr) (operands : List Value) :
    Option (Except TrapCause Value × List Value) :=
  let value (ops : List Value) (v : Value) : Option (Except TrapCause Value × List Value) :=
    some (.ok v, ops)
  match i, operands with
  | .i32Const x, ops => value ops (.i32 x)
  | .i64Const x, ops => value ops (.i64 x)
  | .f32Const x, ops => value ops (.f32 x)
  | .f64Const x, ops => value ops (.f64 x)
  | .v128Const x, ops => value ops (.v128 x)
  | .intUnary .w32 op, .i32 x :: ops => value ops (.i32 (intUnary op x))
  | .intUnary .w64 op, .i64 x :: ops => value ops (.i64 (intUnary op x))
  | .intBinary .w32 op, .i32 y :: .i32 x :: ops => some ((intBinary op x y).map .i32, ops)
  | .intBinary .w64 op, .i64 y :: .i64 x :: ops => some ((intBinary op x y).map .i64, ops)
  | .intTest .w32, .i32 x :: ops => value ops (.ofBool (x == 0))
  | .intTest .w64, .i64 x :: ops => value ops (.ofBool (x == 0))
  | .intRelation .w32 op, .i32 y :: .i32 x :: ops => value ops (.ofBool (intRelation op x y))
  | .intRelation .w64 op, .i64 y :: .i64 x :: ops => value ops (.ofBool (intRelation op x y))
  | .floatUnary .f32 op, .f32 x :: ops =>
    value ops (.f32 (BitVec.ofNat 32 (floatUnary .single op x.toNat)))
  | .floatUnary .f64 op, .f64 x :: ops =>
    value ops (.f64 (BitVec.ofNat 64 (floatUnary .double op x.toNat)))
  | .floatBinary .f32 op, .f32 y :: .f32 x :: ops =>
    value ops (.f32 (BitVec.ofNat 32 (floatBinary .single op x.toNat y.toNat)))
  | .floatBinary .f64 op, .f64 y :: .f64 x :: ops =>
    value ops (.f64 (BitVec.ofNat 64 (floatBinary .double op x.toNat y.toNat)))
  | .floatRelation .f32 op, .f32 y :: .f32 x :: ops =>
    value ops (.ofBool (floatRelation .single op x.toNat y.toNat))
  | .floatRelation .f64 op, .f64 y :: .f64 x :: ops =>
    value ops (.ofBool (floatRelation .double op x.toNat y.toNat))
  | .convert op, v :: ops => (convert op v).map fun r => (r, ops)
  | _, _ => none

/-- Numeric instructions. -/
def executeNumeric (i : Instr) : Option Step :=
  (numericResult? i a.operands).map fun (r, ops) => valueOrTrap s a ops r

/-- A trap for an address or index out of bounds. -/
def outside (code : TrapCode) : Option Step := some (.trap s (.coded code))

/-- Instructions on memories. -/
def executeMemory (i : Instr) : Option Step :=
  match i, a.operands with
  | .load access arg, base :: ops => do
    let (_, m) ← memoryOf? s a arg.memory
    match m.read? (← effectiveAddress? arg base) (Nat.pow 2 access.logBytes) with
    | some bytes => return .next s (a.leaving ((← loadedValue? access bytes) :: ops))
    | none => outside s .memoryOutOfBounds
  | .atomicLoad access arg, base :: ops => do
    let (_, m) ← memoryOf? s a arg.memory
    let address ← effectiveAddress? arg base
    if address % Nat.pow 2 access.logBytes ≠ 0 then outside s .heapMisaligned
    else
      match m.read? address (Nat.pow 2 access.logBytes) with
      | some bytes => return .next s (a.leaving ((← loadedValue? access bytes) :: ops))
      | none => outside s .memoryOutOfBounds
  | .atomicWait32 arg, _ :: .i32 expected :: base :: ops => do
    let (_, m) ← memoryOf? s a arg.memory
    let address ← effectiveAddress? arg base
    if address % 4 ≠ 0 then outside s .heapMisaligned
    else if m.size ≤ address + 4 then outside s .memoryOutOfBounds
    else if !m.type.shared then return .trap s .waitOnUnsharedMemory
    else
      -- Nobody else runs, so a wait for the expected value ends by its time limit.
      let found := Memory.ofLittleEndian (m.slice address 4)
      return .next s (a.leaving ((if found = expected.toNat then .i32 2 else .i32 1) :: ops))
  | .store access arg, v :: base :: ops => do
    let (place, m) ← memoryOf? s a arg.memory
    let bytes := Memory.littleEndian (Nat.pow 2 access.logBytes) (← storedNumber? v)
    match m.write? (← effectiveAddress? arg base) bytes with
    | some m => return .next (s.putMemory place m) (a.leaving ops)
    | none => outside s .memoryOutOfBounds
  | .memorySize n, ops => do
    let (_, m) ← memoryOf? s a n
    return .next s (a.leaving (.ofIndex m.type.wide m.pages :: ops))
  | .memoryGrow n, delta :: ops => do
    let (place, m) ← memoryOf? s a n
    match m.grow? (← delta.toIndex?) with
    | some grown =>
      return .next (s.putMemory place grown) (a.leaving (.ofIndex m.type.wide m.pages :: ops))
    | none => return .next s (a.leaving (.failedGrowth m.type.wide :: ops))
  | .memoryFill n, len :: .i32 b :: target :: ops => do
    let (place, m) ← memoryOf? s a n
    let len ← len.toIndex?
    let target ← target.toIndex?
    if m.fits target len then
      let bytes := List.replicate len (UInt8.ofNat b.toNat)
      return .next (s.putMemory place (m.put target bytes)) (a.leaving ops)
    else outside s .memoryOutOfBounds
  | .memoryCopy t f, len :: source :: target :: ops => do
    let (place, m) ← memoryOf? s a t
    let (_, from_) ← memoryOf? s a f
    let len ← len.toIndex?
    match from_.read? (← source.toIndex?) len with
    | none => outside s .memoryOutOfBounds
    | some bytes =>
      match m.write? (← target.toIndex?) bytes with
      | some m => return .next (s.putMemory place m) (a.leaving ops)
      | none => outside s .memoryOutOfBounds
  | .memoryInit segment n, .i32 len :: .i32 source :: target :: ops => do
    let (place, m) ← memoryOf? s a n
    let i ← instanceOf? s a
    let dropped ← i.droppedDatas[segment]?
    let data ← i.module.datas[segment]?
    let bytes := if dropped then [] else data.bytes.toList
    if bytes.length < source.toNat + len.toNat then outside s .memoryOutOfBounds
    else
      match m.write? (← target.toIndex?) ((bytes.drop source.toNat).take len.toNat) with
      | some m => return .next (s.putMemory place m) (a.leaving ops)
      | none => outside s .memoryOutOfBounds
  | .dataDrop segment, _ => do
    let i ← instanceOf? s a
    let i := { i with droppedDatas := i.droppedDatas.setIfInBounds segment true }
    return .next { s with instances := s.instances.setIfInBounds a.instance_ i } a.next
  | _, _ => none

/-- The reference that an item of an element segment of a kind stands for. -/
def elementRef (i : Instance) (kind : Kind) (expr : ConstExpr) : Ref :=
  match expr with
  | [.refFunc f] => .func (i.funcs[f]?)
  | [.refNull k] => .null k
  | [.globalGet g] =>
    match (i.globals[g]?).bind (s.globals[·]?) with
    | some ⟨_, .ref r⟩ => r
    | _ => .null kind
  | _ => .null kind

/-- The references of an element segment. -/
def elementRefs (i : Instance) (segment : Nat) : List Ref :=
  match i.droppedElements[segment]?, i.module.elements[segment]? with
  | some false, some e => e.items.map (elementRef s i e.kind)
  | _, _ => []

/-- Instructions on tables. -/
def executeTable (i : Instr) : Option Step :=
  match i, a.operands with
  | .tableGet n, index :: ops => do
    let (_, t) ← tableOf? s a n
    match t.get? (← index.toIndex?) with
    | some r => return .next s (a.leaving (.ref r :: ops))
    | none => outside s .tableOutOfBounds
  | .tableSet n, .ref r :: index :: ops => do
    let (place, t) ← tableOf? s a n
    match t.set? (← index.toIndex?) r with
    | some t => return .next (s.putTable place t) (a.leaving ops)
    | none => outside s .tableOutOfBounds
  | .tableSize n, ops => do
    let (_, t) ← tableOf? s a n
    return .next s (a.leaving (.ofIndex false t.size :: ops))
  | .tableGrow n, delta :: .ref r :: ops => do
    let (place, t) ← tableOf? s a n
    match t.grow? (← delta.toIndex?) r with
    | some grown =>
      return .next (s.putTable place grown) (a.leaving (.ofIndex false t.size :: ops))
    | none => return .next s (a.leaving (.failedGrowth false :: ops))
  | .tableFill n, len :: .ref r :: index :: ops => do
    let (place, t) ← tableOf? s a n
    match t.write? (← index.toIndex?) (List.replicate (← len.toIndex?) r) with
    | some t => return .next (s.putTable place t) (a.leaving ops)
    | none => outside s .tableOutOfBounds
  | .tableCopy target source, len :: from_ :: to_ :: ops => do
    let (place, t) ← tableOf? s a target
    let (_, f) ← tableOf? s a source
    let len ← len.toIndex?
    let from_ ← from_.toIndex?
    if f.size < from_ + len then outside s .tableOutOfBounds
    else
      match t.write? (← to_.toIndex?) ((f.elements.toList.drop from_).take len) with
      | some t => return .next (s.putTable place t) (a.leaving ops)
      | none => outside s .tableOutOfBounds
  | .tableInit segment n, .i32 len :: .i32 source :: index :: ops => do
    let (place, t) ← tableOf? s a n
    let refs := elementRefs s (← instanceOf? s a) segment
    if refs.length < source.toNat + len.toNat then outside s .tableOutOfBounds
    else
      match t.write? (← index.toIndex?) ((refs.drop source.toNat).take len.toNat) with
      | some t => return .next (s.putTable place t) (a.leaving ops)
      | none => outside s .tableOutOfBounds
  | .elemDrop segment, _ => do
    let i ← instanceOf? s a
    let i := { i with droppedElements := i.droppedElements.setIfInBounds segment true }
    return .next { s with instances := s.instances.setIfInBounds a.instance_ i } a.next
  | _, _ => none

/-- Executes one instruction, whose cost has been charged. Those that are only checked have no
meaning. -/
def execute (i : Instr) : Option Step :=
  match i with
  | .unreachable | .nop | .block _ | .loop _ | .if_ _ | .else_ | .end_ | .br _ | .brIf _
  | .brTable .. | .return_ | .call _ | .callIndirect .. | .returnCall _ | .returnCallIndirect .. =>
    executeControl epoch s a i
  | .drop | .select _ | .localGet _ | .localSet _ | .localTee _ | .globalGet _ | .globalSet _
  | .refNull _ | .refIsNull | .refFunc _ => executeVariable s a i
  | .tableGet _ | .tableSet _ | .tableSize _ | .tableGrow _ | .tableFill _ | .tableCopy ..
  | .tableInit .. | .elemDrop _ => executeTable s a i
  | .load .. | .store .. | .memorySize _ | .memoryGrow _ | .memoryFill _ | .memoryCopy ..
  | .memoryInit .. | .dataDrop _ | .atomicLoad .. | .atomicWait32 _ => executeMemory s a i
  | .checkedOnly .. => none
  | _ => executeNumeric s a i

end Execute

/-! ## Threads -/

/-- The frame of an activation. -/
def Activation.frame (s : Store) (a : Activation) : Frame :=
  match s.instances[a.instance_]? with
  | some i => i.frame a.func a.body.start a.offset
  | none => default

/-- The frame of an activation that has only just been entered. -/
def Activation.entryFrame (s : Store) (a : Activation) : Frame :=
  match s.instances[a.instance_]? with
  | some i => i.frame a.func a.body.start a.body.start
  | none => default

/-- The frames of a thread, innermost first. -/
def frames (s : Store) (thread : List Activation) : List Frame := thread.map (·.frame s)

/-- The frames of a failure to enter a function. -/
def entryTrace (s : Store) (thread : List Activation) (a : Activation) : List Frame :=
  s.backtrace (a.entryFrame s :: frames s thread)

/-- Whether a thread goes on. -/
inductive Progress where
  | running (s : Store) (thread : List Activation)
  | stopped (s : Store) (event : Event)

/-- Enters a function, for an instance if it is one that calls it. Guest code needs room on the stack,
fuel, and time. -/
def enter (epoch : Nat) (caller : Option Nat) (s : Store) (thread : List Activation) (place : Nat)
    (args : List Value) : Progress :=
  match s.funcs[place]? with
  | none => .stopped s .stuck
  | some (.host key type) => .stopped s (.called key type args caller thread)
  | some (.guest instance_ func type body) =>
    let a : Activation :=
      { instance_, func, body
        arity := type.results.length
        pc := 0
        locals := (args ++ body.locals.map Value.zero).toArray
        operands := []
        labels := []
        unsaved := 1
        deadline := s.deadline }
    let stackUsed := s.stackUsed + a.stackCost
    if s.meters.stack < stackUsed then
      .stopped s (.trapped (.coded .stackOverflow) (entryTrace s thread a))
    else
      match checkMeters epoch s a with
      | .error code =>
        .stopped (afterFailedCheck s a code) (.trapped (.coded code) (entryTrace s thread a))
      | .ok () => .running { s with stackUsed } (a :: thread)

/-- Goes on with the results of the innermost call. -/
def resume (s : Store) (thread : List Activation) (results : List Value) : Progress :=
  match thread with
  | [] => .stopped s (.finished results)
  | a :: rest => .running s (a.leaving (results.reverse ++ a.operands) :: rest)

/-- Executes one instruction of the innermost activation. -/
def step (epoch : Nat) (s : Store) (thread : List Activation) : Progress :=
  match thread with
  | [] => .stopped s .stuck
  | a :: rest =>
    match a.body.code[a.pc]? with
    | none =>
      -- A branch out of the outermost block has left the body.
      let (s, _) := saveFuel s a
      let s := { s with stackUsed := s.stackUsed - a.stackCost }
      resume s rest (a.operands.take a.arity).reverse
    | some located =>
      let a := { a with unsaved := a.unsaved + fuelCost located.instr }
      match execute epoch s a located.instr with
      | none => .stopped s .stuck
      | some (.next s a) => .running s (a :: rest)
      | some (.call s a place args) => enter epoch (some a.instance_) s (a :: rest) place args
      | some (.tailCall s place args) =>
        enter epoch (some a.instance_) { s with stackUsed := s.stackUsed - a.stackCost } rest place args
      | some (.leave s results) =>
        resume { s with stackUsed := s.stackUsed - a.stackCost } rest results
      | some (.trap s cause) =>
        .stopped s (.trapped cause (s.backtrace (frames s (a :: rest))))

/-- Executes at most `fuel` instructions. -/
def advance (epoch : Nat) : Nat → Progress → Store × Event
  | _, .stopped s event => (s, event)
  | 0, .running s _ => (s, .timeout)
  | fuel + 1, .running s thread => advance epoch fuel (step epoch s thread)

end WasmHost.Guest
