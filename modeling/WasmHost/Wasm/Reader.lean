import WasmHost.Kind

/-!
# Reading bytes

A reader walks a window of a byte array and either answers or says why the bytes are malformed.
Integers are in LEB128: seven bits to a byte, least significant first, with no more bytes than the
width needs and no bits beyond it.
-/

namespace WasmHost.Wasm

/-- Why bytes are no module. -/
inductive Malformed where
  | unexpectedEnd
  | integerTooLong
  | invalidText
  | invalidByte
  | sectionOrder
  | sectionSize
  | inconsistentCounts
  | limitExceeded
  deriving DecidableEq, Repr

/-- A position in a window of a byte array. -/
structure Cursor where
  bytes : ByteArray
  pos : Nat
  stop : Nat

/-- Something that reads from a window. -/
abbrev Reader := StateT Cursor (Except Malformed)

namespace Reader

/-- Gives up. -/
def fail {α : Type} (why : Malformed) : Reader α := throw why

/-- The offset of the next byte. -/
def position : Reader Nat := return (← get).pos

/-- The bytes left in the window. -/
def remaining : Reader Nat := do
  let c ← get
  return c.stop - c.pos

/-- Gives up unless the condition holds. -/
def require (condition : Bool) (why : Malformed) : Reader Unit :=
  if condition then pure () else fail why

/-- The next byte. -/
def byte : Reader Nat := do
  let c ← get
  if h : c.pos < c.bytes.size then
    if c.pos < c.stop then
      set { c with pos := c.pos + 1 }
      return c.bytes[c.pos].toNat
    else fail .unexpectedEnd
  else fail .unexpectedEnd

/-- The next byte, left in place. -/
def peek : Reader Nat := do
  let c ← get
  let b ← byte
  set c
  return b

/-- The next `count` bytes. -/
def take (count : Nat) : Reader ByteArray := do
  let c ← get
  if c.pos + count ≤ c.stop then
    set { c with pos := c.pos + count }
    return c.bytes.extract c.pos (c.pos + count)
  else fail .unexpectedEnd

/-- Little-endian value of bytes. -/
def littleEndian (bytes : ByteArray) : Nat :=
  bytes.toList.foldr (fun b acc => b.toNat + 256 * acc) 0

/-- The groups of an unsigned integer of `bits` bits that start at bit `shift`. -/
def unsignedFrom (bits : Nat) : Nat → Nat → Nat → Reader Nat
  | 0, _, _ => fail .integerTooLong
  | groups + 1, shift, acc => do
    let b ← byte
    let low := b % 128
    require (shift + 7 ≤ bits || low < Nat.pow 2 (bits - shift)) .integerTooLong
    let acc := acc + low * Nat.pow 2 shift
    if b < 128 then return acc else unsignedFrom bits groups (shift + 7) acc

/-- An unsigned integer of at most `bits` bits. -/
def unsigned (bits : Nat) : Reader Nat := unsignedFrom bits ((bits + 6) / 7) 0 0

/-- The groups of a signed integer of `bits` bits that start at bit `shift`. -/
def signedFrom (bits : Nat) : Nat → Nat → Int → Reader Int
  | 0, _, _ => fail .integerTooLong
  | groups + 1, shift, acc => do
    let b ← byte
    let low : Int := (b % 128 : Nat)
    if b < 128 then
      let value := if low < 64 then low else low - 128
      let bound : Int := (Nat.pow 2 (bits - shift - 1) : Nat)
      require (shift + 7 ≤ bits || (-bound ≤ value && value < bound)) .integerTooLong
      return acc + value * (Nat.pow 2 shift : Nat)
    else
      require (shift + 7 < bits) .integerTooLong
      signedFrom bits groups (shift + 7) (acc + low * (Nat.pow 2 shift : Nat))

/-- A signed integer of at most `bits` bits. -/
def signed (bits : Nat) : Reader Int := signedFrom bits ((bits + 6) / 7) 0 0

/-- An index or a count. -/
def u32 : Reader Nat := unsigned 32

/-- Reads `count` things after those already read. -/
def manyFrom {α : Type} (item : Reader α) : Nat → Array α → Reader (Array α)
  | 0, acc => return acc
  | count + 1, acc => do manyFrom item count (acc.push (← item))

/-- A count and that many things. -/
def vector {α : Type} (item : Reader α) : Reader (Array α) := do
  manyFrom item (← u32) #[]

/-- Names longer than this are refused. -/
def maxNameSize : Nat := 100000

/-- A length and that many bytes of text. -/
def name : Reader String := do
  let size ← u32
  require (size ≤ maxNameSize) .limitExceeded
  match String.fromUTF8? (← take size) with
  | some text => return text
  | none => fail .invalidText

/-- A size, and something that must take up exactly that many bytes. -/
def sized {α : Type} (inner : Reader α) : Reader α := do
  let size ← u32
  let c ← get
  require (c.pos + size ≤ c.stop) .unexpectedEnd
  set { c with stop := c.pos + size }
  let answer ← inner
  let after ← get
  require (after.pos = c.pos + size) .sectionSize
  set { after with stop := c.stop }
  return answer

/-- The kind of a value. -/
def kind : Reader Kind := do
  match ← byte with
  | 0x7f => return .i32
  | 0x7e => return .i64
  | 0x7d => return .f32
  | 0x7c => return .f64
  | 0x7b => return .v128
  | 0x70 => return .funcref
  | 0x6f => return .externref
  | _ => fail .invalidByte

/-- The kind of a reference. -/
def referenceKind : Reader Kind := do
  match ← byte with
  | 0x70 => return .funcref
  | 0x6f => return .externref
  | _ => fail .invalidByte

end Reader

end WasmHost.Wasm
