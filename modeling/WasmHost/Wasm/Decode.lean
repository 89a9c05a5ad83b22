import WasmHost.Wasm.Module
import WasmHost.Wasm.Opcode

/-!
# Modules in the binary format

A module is a header and sections, each with its size. Known sections come at most once and in a
fixed order; custom sections may stand anywhere. Of the custom sections only the one that gives
names is looked into, and a mistake inside it merely ends the list of names.
-/

namespace WasmHost.Wasm

open Reader

/-- The four bytes every binary module begins with. -/
def magic : List UInt8 := [0x00, 0x61, 0x73, 0x6d]

/-- The whole header: the magic and version one. -/
def header : List UInt8 := magic ++ [0x01, 0x00, 0x00, 0x00]

/-- Limits of a table or memory, with the bits that say what they are. -/
def limitsWith (flags : Nat) (wide : Bool) : Reader Limits := do
  let bits := if wide then 64 else 32
  let min ← unsigned bits
  if flags % 2 = 1 then
    let max ← unsigned bits
    return ⟨UInt64.ofNat min, some (UInt64.ofNat max)⟩
  else return ⟨UInt64.ofNat min, none⟩

/-- The type of a table; 64-bit tables and shared tables are not known. -/
def tableType : Reader TableType := do
  let element ← referenceKind
  let flags ← byte
  require (flags < 2) .invalidByte
  return ⟨element, ← limitsWith flags false⟩

/-- The type of a memory. -/
def memoryType : Reader MemoryType := do
  let flags ← byte
  require (flags < 8) .invalidByte
  let wide := flags / 4 = 1
  return ⟨← limitsWith flags wide, wide, (flags / 2) % 2 = 1⟩

/-- The type of a global. -/
def globalType : Reader GlobalType := do
  let content ← kind
  match ← byte with
  | 0 => return ⟨content, false⟩
  | 1 => return ⟨content, true⟩
  | _ => fail .invalidByte

/-- A function type. -/
def signature : Reader Signature := do
  require ((← byte) = 0x60) .invalidByte
  let params ← vector kind
  let results ← vector kind
  require (params.size ≤ 1000 && results.size ≤ 1000) .limitExceeded
  return ⟨params.toList, results.toList⟩

/-- An import. -/
def importEntry : Reader Import := do
  let module ← name
  let field ← name
  match ← byte with
  | 0 => return ⟨module, field, .func (← u32)⟩
  | 1 => return ⟨module, field, .table (← tableType)⟩
  | 2 => return ⟨module, field, .memory (← memoryType)⟩
  | 3 => return ⟨module, field, .global (← globalType)⟩
  | _ => fail .invalidByte

/-- Instructions up to the first one that ends a block, which is read but not kept. -/
def constExprFrom (features : Features) : Nat → List Instr → Reader ConstExpr
  | 0, _ => fail .unexpectedEnd
  | fuel + 1, acc => do
    match ← instr features with
    | .end_ => return acc.reverse
    | i => constExprFrom features fuel (i :: acc)

/-- A constant expression. -/
def constExpr (features : Features) : Reader ConstExpr := do
  constExprFrom features (← remaining) []

/-- A global definition. -/
def globalDef (features : Features) : Reader GlobalDef := do
  let type ← globalType
  return ⟨type, ← constExpr features⟩

/-- An export. -/
def exportEntry : Reader Export := do
  let field ← name
  match ← byte with
  | 0 => return ⟨field, .func, ← u32⟩
  | 1 => return ⟨field, .table, ← u32⟩
  | 2 => return ⟨field, .memory, ← u32⟩
  | 3 => return ⟨field, .global, ← u32⟩
  | _ => fail .invalidByte

/-- An element segment. The three flag bits say whether it is active, whether it names its table or
is declared, and whether its items are expressions. -/
def elementSegment (features : Features) : Reader ElementSegment := do
  let flags ← u32
  require (flags < 8) .invalidByte
  let inactive := flags % 2 = 1
  let second := (flags / 2) % 2 = 1
  let exprs := flags / 4 = 1
  let mode ←
    if inactive then pure (if second then SegmentMode.declared else .passive)
    else do
      let table ← if second then u32 else pure 0
      pure (.active table (← constExpr features))
  let kind ←
    if inactive || second then
      if exprs then referenceKind
      else do
        require ((← byte) = 0) .invalidByte
        pure .funcref
    else pure .funcref
  let items ←
    if exprs then vector (constExpr features)
    else vector (do return [Instr.refFunc (← u32)])
  return ⟨kind, mode, items.toList⟩

/-- A data segment. -/
def dataSegment (features : Features) : Reader DataSegment := do
  let mode ← match ← u32 with
    | 0 => pure (SegmentMode.active 0 (← constExpr features))
    | 1 => pure .passive
    | 2 => do
      let memory ← u32
      pure (.active memory (← constExpr features))
    | _ => fail .invalidByte
  let size ← u32
  return ⟨mode, ← take size⟩

/-- Functions with more locals than this are refused. -/
def maxLocals : Nat := 50000

/-- The groups of local variables of a body. -/
def localGroups : Nat → List Kind → Reader (List Kind)
  | 0, acc => return acc
  | groups + 1, acc => do
    let count ← u32
    require (acc.length + count ≤ maxLocals) .limitExceeded
    let k ← kind
    localGroups groups (acc ++ List.replicate count k)

/-- Instructions up to the end of the window. -/
def instrsFrom (features : Features) : Nat → Array LocatedInstr → Reader (Array LocatedInstr)
  | 0, acc => return acc
  | fuel + 1, acc => do
    if (← remaining) = 0 then return acc
    else
      let offset ← position
      let i ← instr features
      instrsFrom features fuel (acc.push ⟨offset, i⟩)

/-- A function body with its size. -/
def body (features : Features) : Reader Body :=
  sized do
    let start ← position
    let locals ← localGroups (← u32) []
    let code ← instrsFrom features (← remaining) #[]
    return .ofCode start locals code

/-! ## Names -/

/-- Function names, as far as they can be read. Names of functions that do not exist are skipped,
and a later name for a function wins. -/
def functionNames (functions : Nat) : Nat → Cursor → List (Nat × String) → List (Nat × String)
  | 0, _, names => names
  | count + 1, c, names =>
    match (do return (← u32, ← name) : Reader (Nat × String)).run c with
    | .error _ => names
    | .ok ((index, text), c) =>
      functionNames functions count c (if index < functions then (index, text) :: names else names)

/-- The subsections of a name section, as far as they can be read. -/
def nameSubsections : Nat → Module → Cursor → Module
  | 0, m, _ => m
  | fuel + 1, m, c =>
    match (do return (← byte, ← u32) : Reader (Nat × Nat)).run c with
    | .error _ => m
    | .ok ((id, size), c) =>
      if c.stop < c.pos + size then m
      else
        let inner := { c with stop := c.pos + size }
        let next := { c with pos := c.pos + size }
        match id with
        | 0 =>
          match name.run inner with
          | .error _ => m
          | .ok (text, rest) =>
            if rest.pos = rest.stop then nameSubsections fuel { m with name := some text } next
            else m
        | 1 =>
          match u32.run inner with
          | .error _ => m
          | .ok (count, inner) =>
            let names := functionNames m.funcTypes.size (min count size) inner m.funcNames
            nameSubsections fuel { m with funcNames := names } next
        | _ => nameSubsections fuel m next

/-- A custom section: its own name, and, if it is the name section, the names in it. -/
def customSection (m : Module) : Reader Module := do
  let title ← name
  let c ← get
  set { c with pos := c.stop }
  return if title = "name" then nameSubsections (c.stop - c.pos) m c else m

/-! ## Sections -/

/-- The place of a section in the order of sections. -/
def sectionRank (id : Nat) : Option Nat :=
  [1, 2, 3, 4, 5, 6, 7, 8, 9, 12, 10, 11].idxOf? id

/-- The contents of a known section. -/
def sectionContents (features : Features) (id : Nat) (m : Module) : Reader Module := do
  match id with
  | 1 => return { m with types := ← vector signature }
  | 2 => return { m with imports := ← vector importEntry }
  | 3 => return { m with funcs := ← vector u32 }
  | 4 => return { m with tables := ← vector tableType }
  | 5 => return { m with memories := ← vector memoryType }
  | 6 => return { m with globals := ← vector (globalDef features) }
  | 7 => return { m with exports := ← vector exportEntry }
  | 8 => return { m with start := some (← u32) }
  | 9 => return { m with elements := ← vector (elementSegment features) }
  | 10 => return { m with bodies := ← vector (body features) }
  | 11 => return { m with datas := ← vector (dataSegment features) }
  | 12 => return { m with dataCount := some (← u32) }
  | _ => fail .invalidByte

/-- Sections up to the end. `rank` is one more than the place of the last known section. -/
def sectionsFrom (features : Features) : Nat → Nat → Module → Reader Module
  | 0, _, m => return m
  | fuel + 1, rank, m => do
    if (← remaining) = 0 then return m
    else
      let id ← byte
      if id = 0 then sectionsFrom features fuel rank (← sized (customSection m))
      else
        match sectionRank id with
        | none => fail .invalidByte
        | some place =>
          require (rank ≤ place) .sectionOrder
          sectionsFrom features fuel (place + 1) (← sized (sectionContents features id m))

/-- A whole module. Every declared function has a body, and a count of data segments given ahead of
them is right. -/
def wholeModule (features : Features) : Reader Module := do
  let start ← take 8
  require (start.toList == header) .invalidByte
  let m ← sectionsFrom features (← remaining) 0 .empty
  require (m.funcs.size = m.bodies.size) .inconsistentCounts
  require (m.dataCount.all (· = m.datas.size)) .inconsistentCounts
  return m

/-- Decodes a binary module. -/
def decode (features : Features) (bytes : ByteArray) : Except Malformed Module :=
  ((wholeModule features).run ⟨bytes, 0, bytes.size⟩).map (·.1)

end WasmHost.Wasm
