import WasmHost.Wasm.Instr
import WasmHost.Wasm.Reader

/-!
# Instructions in the binary format

Reads one instruction. Consecutive opcodes of a family are looked up in the lists below, which
follow the order of the format. Some immediates are read differently when a feature is off: an
index that the feature introduced is then a single zero byte.
-/

namespace WasmHost.Wasm

open Reader

/-- Loads from `0x28` on. -/
def loadAccesses : List Access :=
  [⟨.i32, 2, false⟩, ⟨.i64, 3, false⟩, ⟨.f32, 2, false⟩, ⟨.f64, 3, false⟩,
    ⟨.i32, 0, true⟩, ⟨.i32, 0, false⟩, ⟨.i32, 1, true⟩, ⟨.i32, 1, false⟩,
    ⟨.i64, 0, true⟩, ⟨.i64, 0, false⟩, ⟨.i64, 1, true⟩, ⟨.i64, 1, false⟩,
    ⟨.i64, 2, true⟩, ⟨.i64, 2, false⟩]

/-- Stores from `0x36` on. -/
def storeAccesses : List Access :=
  [⟨.i32, 2, false⟩, ⟨.i64, 3, false⟩, ⟨.f32, 2, false⟩, ⟨.f64, 3, false⟩,
    ⟨.i32, 0, false⟩, ⟨.i32, 1, false⟩,
    ⟨.i64, 0, false⟩, ⟨.i64, 1, false⟩, ⟨.i64, 2, false⟩]

/-- Integer comparisons in order. -/
def intRelations : List IntRelation := [.eq, .ne, .ltS, .ltU, .gtS, .gtU, .leS, .leU, .geS, .geU]

/-- Float comparisons in order. -/
def floatRelations : List FloatRelation := [.eq, .ne, .lt, .gt, .le, .ge]

/-- Integer operations of one operand in order. -/
def intUnaries : List IntUnary := [.clz, .ctz, .popcnt]

/-- Integer operations of two operands in order. -/
def intBinaries : List IntBinary :=
  [.add, .sub, .mul, .divS, .divU, .remS, .remU, .and, .or, .xor, .shl, .shrS, .shrU, .rotl, .rotr]

/-- Float operations of one operand in order. -/
def floatUnaries : List FloatUnary := [.abs, .neg, .ceil, .floor, .trunc, .nearest, .sqrt]

/-- Float operations of two operands in order. -/
def floatBinaries : List FloatBinary := [.add, .sub, .mul, .div, .min, .max, .copysign]

/-- Conversions from `0xa7` on. -/
def conversions : List Conversion :=
  [.wrap,
    .truncate .w32 .f32 true false, .truncate .w32 .f32 false false,
    .truncate .w32 .f64 true false, .truncate .w32 .f64 false false,
    .extend true, .extend false,
    .truncate .w64 .f32 true false, .truncate .w64 .f32 false false,
    .truncate .w64 .f64 true false, .truncate .w64 .f64 false false,
    .ofInt .f32 .w32 true, .ofInt .f32 .w32 false, .ofInt .f32 .w64 true, .ofInt .f32 .w64 false,
    .demote,
    .ofInt .f64 .w32 true, .ofInt .f64 .w32 false, .ofInt .f64 .w64 true, .ofInt .f64 .w64 false,
    .promote,
    .reinterpret .i32 .f32, .reinterpret .i64 .f64,
    .reinterpret .f32 .i32, .reinterpret .f64 .i64]

/-- Every instruction from `0x45` to `0xc4`: comparisons, arithmetic, conversions and sign
extensions. -/
def numericInstrs : Array Instr := List.toArray <|
  [.intTest .w32] ++ intRelations.map (.intRelation .w32) ++
  [.intTest .w64] ++ intRelations.map (.intRelation .w64) ++
  floatRelations.map (.floatRelation .f32) ++ floatRelations.map (.floatRelation .f64) ++
  intUnaries.map (.intUnary .w32) ++ intBinaries.map (.intBinary .w32) ++
  intUnaries.map (.intUnary .w64) ++ intBinaries.map (.intBinary .w64) ++
  floatUnaries.map (.floatUnary .f32) ++ floatBinaries.map (.floatBinary .f32) ++
  floatUnaries.map (.floatUnary .f64) ++ floatBinaries.map (.floatBinary .f64) ++
  conversions.map .convert ++
  [.intUnary .w32 .extend8, .intUnary .w32 .extend16,
    .intUnary .w64 .extend8, .intUnary .w64 .extend16, .intUnary .w64 .extend32]

/-- Truncations that clamp, from `0xfc 0x00` on. -/
def saturatingTruncations : List Conversion :=
  [.truncate .w32 .f32 true true, .truncate .w32 .f32 false true,
    .truncate .w32 .f64 true true, .truncate .w32 .f64 false true,
    .truncate .w64 .f32 true true, .truncate .w64 .f32 false true,
    .truncate .w64 .f64 true true, .truncate .w64 .f64 false true]

/-- Alignment, memory and offset of an access. -/
def memArg (features : Features) : Reader MemArg := do
  let flags ← u32
  let hasMemory := features.multiMemory && (flags / 64) % 2 == 1
  let memory ← if hasMemory then u32 else pure 0
  let align := if hasMemory then flags - 64 else flags
  require (align < 64) .invalidByte
  let offset ← if features.memory64 then unsigned 64 else u32
  return ⟨align, memory, offset⟩

/-- An index that is a single zero byte while its feature is off. -/
def gatedIndex (enabled : Bool) : Reader Nat := do
  if enabled then u32
  else
    require ((← byte) = 0) .invalidByte
    return 0

/-- The type of a block. -/
def blockType : Reader BlockType := do
  let b ← peek
  if b = 0x40 then
    let _ ← byte
    return .empty
  else if b / 64 = 1 then return .result (← kind)
  else
    let index ← signed 33
    require (0 ≤ index) .invalidByte
    return .indexed index.toNat

/-- A lane index below a bound. -/
def lane (bound : Nat) : Reader Unit := do
  require ((← byte) < bound) .invalidByte

/-- Vector instructions that only compute: operands and results by opcode. Loads, stores, constants,
shuffles and lane accesses are not among them. -/
def vectorSignature? (code : Nat) : Option (List Kind × List Kind) :=
  let unary := some ([Kind.v128], [Kind.v128])
  let binary := some ([Kind.v128, .v128], [Kind.v128])
  let ternary := some ([Kind.v128, .v128, .v128], [Kind.v128])
  let test := some ([Kind.v128], [Kind.i32])
  let shift := some ([Kind.v128, .i32], [Kind.v128])
  let among (codes : List Nat) : Bool := codes.contains code
  let within (low high : Nat) : Bool := low ≤ code && code ≤ high
  if code = 14 then binary
  else if within 15 17 then some ([.i32], [.v128])
  else if code = 18 then some ([.i64], [.v128])
  else if code = 19 then some ([.f32], [.v128])
  else if code = 20 then some ([.f64], [.v128])
  else if within 35 76 then binary
  else if code = 77 then unary
  else if within 78 81 then binary
  else if code = 82 then ternary
  else if among [83, 99, 100, 131, 132, 163, 164, 195, 196] then test
  else if among [107, 108, 109, 139, 140, 141, 171, 172, 173, 203, 204, 205] then shift
  else if among [94, 95, 96, 97, 98, 103, 104, 105, 106, 116, 117, 122, 124, 125, 126, 127, 128,
      129, 135, 136, 137, 138, 148, 160, 161, 167, 168, 169, 170, 192, 193, 199, 200, 201, 202,
      224, 225, 227, 236, 237, 239] then unary
  else if within 248 255 || within 257 260 then unary
  else if among [154, 162, 165, 166, 175, 176, 178, 179, 180, 187, 194, 197, 198, 207, 208, 210,
      211, 212, 226, 238] then none
  else if within 101 247 then binary
  else if code = 256 || within 269 274 then binary
  else if within 261 268 || code = 275 then ternary
  else none

/-- A vector instruction, after its prefix byte. -/
def vectorInstr (features : Features) : Reader Instr := do
  let code ← u32
  let accessed (logBytes : Nat) (params results : List Kind) : Reader Instr := do
    let arg ← memArg features
    return .checkedOnly .simd (some ⟨arg, logBytes, false⟩) params results
  let laneAccess (logBytes bound : Nat) (results : List Kind) : Reader Instr := do
    let arg ← memArg features
    lane bound
    return .checkedOnly .simd (some ⟨arg, logBytes, false⟩) [.v128] results
  let laneOp (bound : Nat) (params results : List Kind) : Reader Instr := do
    lane bound
    return .checkedOnly .simd none params results
  match code with
  | 0 => accessed 4 [] [.v128]
  | 1 | 2 | 3 | 4 | 5 | 6 | 10 | 93 => accessed 3 [] [.v128]
  | 7 => accessed 0 [] [.v128]
  | 8 => accessed 1 [] [.v128]
  | 9 | 92 => accessed 2 [] [.v128]
  | 11 => accessed 4 [.v128] []
  | 12 => return .v128Const (BitVec.ofNat 128 (littleEndian (← take 16)))
  | 13 =>
    let lanes ← take 16
    require (lanes.toList.all (· < 32)) .invalidByte
    return .checkedOnly .simd none [.v128, .v128] [.v128]
  | 21 | 22 => laneOp 16 [.v128] [.i32]
  | 23 => laneOp 16 [.v128, .i32] [.v128]
  | 24 | 25 => laneOp 8 [.v128] [.i32]
  | 26 => laneOp 8 [.v128, .i32] [.v128]
  | 27 => laneOp 4 [.v128] [.i32]
  | 28 => laneOp 4 [.v128, .i32] [.v128]
  | 29 => laneOp 2 [.v128] [.i64]
  | 30 => laneOp 2 [.v128, .i64] [.v128]
  | 31 => laneOp 4 [.v128] [.f32]
  | 32 => laneOp 4 [.v128, .f32] [.v128]
  | 33 => laneOp 2 [.v128] [.f64]
  | 34 => laneOp 2 [.v128, .f64] [.v128]
  | 84 => laneAccess 0 16 [.v128]
  | 85 => laneAccess 1 8 [.v128]
  | 86 => laneAccess 2 4 [.v128]
  | 87 => laneAccess 3 2 [.v128]
  | 88 => laneAccess 0 16 []
  | 89 => laneAccess 1 8 []
  | 90 => laneAccess 2 4 []
  | 91 => laneAccess 3 2 []
  | _ =>
    match vectorSignature? code with
    | some (params, results) => return .checkedOnly .simd none params results
    | none => fail .invalidByte

/-- Widths of a family of atomic instructions, in order. -/
def atomicAccesses : List Access :=
  [⟨.i32, 2, false⟩, ⟨.i64, 3, false⟩, ⟨.i32, 0, false⟩, ⟨.i32, 1, false⟩,
    ⟨.i64, 0, false⟩, ⟨.i64, 1, false⟩, ⟨.i64, 2, false⟩]

/-- An atomic instruction, after its prefix byte. -/
def atomicInstr (features : Features) : Reader Instr := do
  let code ← u32
  let checked (logBytes : Nat) (params results : List Kind) : Reader Instr := do
    let arg ← memArg features
    return .checkedOnly .threads (some ⟨arg, logBytes, true⟩) params results
  match code with
  | 0 => checked 2 [.i32] [.i32]
  | 1 => return .atomicWait32 (← memArg features)
  | 2 => checked 3 [.i64, .i64] [.i32]
  | 3 =>
    require ((← byte) = 0) .invalidByte
    return .checkedOnly .threads none [] []
  | _ =>
    require (0x10 ≤ code && code < 0x4f) .invalidByte
    match atomicAccesses[(code - 0x10) % 7]? with
    | none => fail .invalidByte
    | some access =>
      match (code - 0x10) / 7 with
      | 0 => return .atomicLoad access (← memArg features)
      | 1 => checked access.logBytes [access.kind] []
      | 8 => checked access.logBytes [access.kind, access.kind] [access.kind]
      | _ => checked access.logBytes [access.kind] [access.kind]

/-- An instruction of the miscellaneous group, after its prefix byte. -/
def miscInstr (features : Features) : Reader Instr := do
  let code ← u32
  match saturatingTruncations[code]? with
  | some c => return .convert c
  | none =>
    match code with
    | 8 =>
      let segment ← u32
      return .memoryInit segment (← gatedIndex features.multiMemory)
    | 9 => return .dataDrop (← u32)
    | 10 =>
      let target ← gatedIndex features.multiMemory
      return .memoryCopy target (← gatedIndex features.multiMemory)
    | 11 => return .memoryFill (← gatedIndex features.multiMemory)
    | 12 =>
      let segment ← u32
      return .tableInit segment (← u32)
    | 13 => return .elemDrop (← u32)
    | 14 =>
      let target ← u32
      return .tableCopy target (← u32)
    | 15 => return .tableGrow (← u32)
    | 16 => return .tableSize (← u32)
    | 17 => return .tableFill (← u32)
    | _ => fail .invalidByte

/-- One instruction. -/
def instr (features : Features) : Reader Instr := do
  let code ← byte
  match code with
  | 0x00 => return .unreachable
  | 0x01 => return .nop
  | 0x02 => return .block (← blockType)
  | 0x03 => return .loop (← blockType)
  | 0x04 => return .if_ (← blockType)
  | 0x05 => return .else_
  | 0x0b => return .end_
  | 0x0c => return .br (← u32)
  | 0x0d => return .brIf (← u32)
  | 0x0e =>
    let depths ← vector u32
    return .brTable depths.toList (← u32)
  | 0x0f => return .return_
  | 0x10 => return .call (← u32)
  | 0x11 =>
    let type ← u32
    return .callIndirect type (← gatedIndex features.referenceTypes)
  | 0x12 => return .returnCall (← u32)
  | 0x13 =>
    let type ← u32
    return .returnCallIndirect type (← u32)
  | 0x1a => return .drop
  | 0x1b => return .select none
  | 0x1c =>
    require ((← u32) = 1) .invalidByte
    return .select (some (← kind))
  | 0x20 => return .localGet (← u32)
  | 0x21 => return .localSet (← u32)
  | 0x22 => return .localTee (← u32)
  | 0x23 => return .globalGet (← u32)
  | 0x24 => return .globalSet (← u32)
  | 0x25 => return .tableGet (← u32)
  | 0x26 => return .tableSet (← u32)
  | 0x3f => return .memorySize (← gatedIndex features.multiMemory)
  | 0x40 => return .memoryGrow (← gatedIndex features.multiMemory)
  | 0x41 => return .i32Const (BitVec.ofInt 32 (← signed 32))
  | 0x42 => return .i64Const (BitVec.ofInt 64 (← signed 64))
  | 0x43 => return .f32Const (BitVec.ofNat 32 (littleEndian (← take 4)))
  | 0x44 => return .f64Const (BitVec.ofNat 64 (littleEndian (← take 8)))
  | 0xd0 => return .refNull (← referenceKind)
  | 0xd1 => return .refIsNull
  | 0xd2 => return .refFunc (← u32)
  | 0xfc => miscInstr features
  | 0xfd => vectorInstr features
  | 0xfe => atomicInstr features
  | _ =>
    if 0x28 ≤ code ∧ code ≤ 0x3e then
      match loadAccesses[code - 0x28]? with
      | some access => return .load access (← memArg features)
      | none =>
        match storeAccesses[code - 0x36]? with
        | some access => return .store access (← memArg features)
        | none => fail .invalidByte
    else if 0x45 ≤ code then
      match numericInstrs[code - 0x45]? with
      | some i => return i
      | none => fail .invalidByte
    else fail .invalidByte

end WasmHost.Wasm
