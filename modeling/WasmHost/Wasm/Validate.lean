import WasmHost.Wasm.Typing
import WasmHost.Wasm.Decode

/-!
# Valid modules

A decoded module is valid if every index refers to something, every type is allowed by the features,
limits are in range, constant expressions and bodies are well typed, and export names are distinct.
-/

namespace WasmHost.Wasm

/-- The most pages a memory may ask for. -/
def maxPages (wide : Bool) : UInt64 := if wide then 281474976710656 else 65536

/-- The most elements a table may start with. -/
def maxTableEntries : UInt64 := 10000000

/-- The most tables, or memories, of a module. -/
def maxItems : Nat := 100

/-- The least size is not above the greatest. -/
def Limits.ordered (l : Limits) : Bool := l.max.all (l.min ≤ ·)

/-- A kind the features allow. -/
def Features.allowsKind (f : Features) : Kind → Bool
  | .v128 => f.simd
  | .funcref | .externref => f.referenceTypes
  | _ => true

/-- A table type the features allow; tables of functions are as old as the format. -/
def Features.allowsTable (f : Features) (t : TableType) : Bool :=
  t.element.isReference && (t.element = .funcref || f.referenceTypes) && Limits.ordered t.limits &&
    t.limits.min ≤ maxTableEntries

/-- A memory type the features allow; a shared memory needs a greatest size. -/
def Features.allowsMemory (f : Features) (m : MemoryType) : Bool :=
  (!m.wide || f.memory64) && (!m.shared || (f.threads && m.limits.max.isSome)) &&
    Limits.ordered m.limits && m.limits.min ≤ maxPages m.wide &&
    m.limits.max.all (· ≤ maxPages m.wide)

/-- A function type the features allow. -/
def Features.allowsSignature (f : Features) (s : Signature) : Bool :=
  s.params.all f.allowsKind && s.results.all f.allowsKind &&
    (f.multiValue || s.results.length ≤ 1)

/-- The context of a module as a whole, outside any body. -/
def Module.context (features : Features) (m : Module) : Context :=
  { features
    types := m.types
    funcs := m.funcTypes
    tables := m.tableTypes
    memories := m.memoryTypes
    globals := m.globalTypes
    importedGlobals := m.importedGlobals.size
    elements := m.elements.map (·.kind)
    dataCount := m.dataCount
    declared :=
      (m.exports.toList.filterMap fun e => if e.kind = .func then some e.index else none) ++
      (m.globals.toList.flatMap fun g => refs g.init) ++
      (m.elements.toList.flatMap fun e => e.items.flatMap refs)
    locals := #[]
    results := [] }
where
  /-- The functions an expression takes references to. -/
  refs (e : ConstExpr) : List Nat :=
    e.filterMap fun | .refFunc f => some f | _ => none

/-- An instruction that may stand in a constant expression. A global must be imported and constant,
and be one of the first `visible`. -/
def Context.constInstr (c : Context) (visible : Nat) : Instr → Bool
  | .i32Const _ | .i64Const _ | .f32Const _ | .f64Const _ | .v128Const _ | .refNull _ => true
  | .refFunc f => f < c.funcs.size
  | .globalGet g =>
    g < visible && g < c.importedGlobals && (c.globals[g]?).any (!·.writable)
  | .intBinary _ op => op = .add || op = .sub || op = .mul
  | _ => false

/-- A constant expression of a kind. -/
def Context.constTyped (c : Context) (visible : Nat) (expr : ConstExpr) (kind : Kind) : Bool :=
  let c := { c with
    results := [kind]
    declared := List.range c.funcs.size }
  expr.all (c.constInstr visible) && c.bodyTyped (expr ++ [.end_])

/-- An index that an export, or the start, may name. -/
def Context.hasIndex (c : Context) : ItemKind → Nat → Bool
  | .func, i => i < c.funcs.size
  | .table, i => i < c.tables.size
  | .memory, i => i < c.memories.size
  | .global, i => i < c.globals.size

/-- An element segment fits its table. -/
def Context.elementTyped (c : Context) (e : ElementSegment) : Bool :=
  e.kind.isReference && (e.kind = .funcref || c.features.referenceTypes) &&
  (match e.mode with
    | .active table offset =>
      (c.tables[table]?).any (·.element = e.kind) &&
        c.constTyped c.globals.size offset .i32
    | _ => c.features.bulkMemory) &&
  e.items.all fun item => c.constTyped c.globals.size item e.kind

/-- A data segment fits its memory. -/
def Context.dataTyped (c : Context) (d : DataSegment) : Bool :=
  match d.mode with
  | .active memory offset =>
    (c.memories[memory]?).any fun m =>
      c.constTyped c.globals.size offset (Context.addressKind m)
  | _ => true

/-- A function body has the type its function declares. -/
def Context.functionTyped (c : Context) (type : Nat) (b : Body) : Bool :=
  match c.types[type]? with
  | none => false
  | some s =>
    b.locals.all c.allows && s.params.length + b.locals.length ≤ maxLocals &&
      Context.bodyTyped
        { c with
          locals := (s.params ++ b.locals).toArray
          results := s.results }
        (b.code.toList.map LocatedInstr.instr)

/-- An import asks for something of an allowed type. -/
def Context.importTyped (c : Context) (i : Import) : Bool :=
  match i.desc with
  | .func t => t < c.types.size
  | .table t => c.features.allowsTable t
  | .memory m => c.features.allowsMemory m
  | .global g => c.features.allowsKind g.content

/-- A list without repetitions. -/
def distinct (names : List String) : Bool :=
  (names.mergeSort (· ≤ ·)) |> fun sorted => (sorted.zip (sorted.drop 1)).all fun (a, b) => a != b

/-- The module is valid under the features. -/
def Module.isValid (features : Features) (m : Module) : Bool :=
  let c := m.context features
  m.types.all features.allowsSignature &&
  m.imports.all c.importTyped &&
  m.funcs.all (· < m.types.size) &&
  m.tables.all features.allowsTable &&
  m.memories.all features.allowsMemory &&
  c.tables.size ≤ (if features.referenceTypes then maxItems else 1) &&
  c.memories.size ≤ (if features.multiMemory then maxItems else 1) &&
  (List.range m.globals.size).all (fun i => (m.globals[i]?).any fun g =>
    features.allowsKind g.type.content &&
      c.constTyped (c.importedGlobals + i) g.init g.type.content) &&
  m.exports.all (fun e => c.hasIndex e.kind e.index) &&
  distinct (m.exports.toList.map (·.name)) &&
  m.start.all (fun f => (c.signature? f).any fun s => s.params.isEmpty && s.results.isEmpty) &&
  m.elements.all c.elementTyped &&
  m.datas.all c.dataTyped &&
  (List.range m.funcs.size).all fun i =>
    (m.bodies[i]?).any (c.functionTyped ((m.funcs[i]?).getD 0))

theorem Module.isValid_empty : Module.empty.isValid .standard = true := by decide +kernel

/-- Decodes a binary module and checks it; `none` if it is not a valid module. -/
def load? (features : Features) (bytes : ByteArray) : Option Module :=
  match decode features bytes with
  | .ok m => if m.isValid features then some m else none
  | .error _ => none

theorem isValid_of_load? {features : Features} {bytes : ByteArray} {m : Module}
    (h : load? features bytes = some m) : m.isValid features = true := by
  unfold load? at h
  split at h
  · split at h
    · cases h
      assumption
    · cases h
  · cases h

end WasmHost.Wasm
