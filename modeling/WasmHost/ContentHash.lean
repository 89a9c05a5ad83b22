import WasmHost.Text.Integer

/-!
# Content hashes

A module is identified by a keyed hash of the bytes it was built from: SipHash with one round for
each word and three to finish, with a key of zeros. The bytes are preceded by their number as a
64-bit little-endian integer.
-/

namespace WasmHost.ContentHash

/-- The four words of state. -/
structure State where
  v0 : UInt64
  v1 : UInt64
  v2 : UInt64
  v3 : UInt64
  deriving DecidableEq, Repr

/-- The state for a key of zeros. -/
def State.initial : State :=
  ⟨0x736f6d6570736575, 0x646f72616e646f6d, 0x6c7967656e657261, 0x7465646279746573⟩

/-- Rotation to the left. -/
def rotate (x : UInt64) (by' : UInt64) : UInt64 := (x <<< by') ||| (x >>> (64 - by'))

/-- One round. -/
def State.round (s : State) : State :=
  let v0 := s.v0 + s.v1
  let v1 := rotate s.v1 13 ^^^ v0
  let v0 := rotate v0 32
  let v2 := s.v2 + s.v3
  let v3 := rotate s.v3 16 ^^^ v2
  let v0 := v0 + v3
  let v3 := rotate v3 21 ^^^ v0
  let v2 := v2 + v1
  let v1 := rotate v1 17 ^^^ v2
  let v2 := rotate v2 32
  ⟨v0, v1, v2, v3⟩

/-- Takes in one word. -/
def State.absorb (s : State) (word : UInt64) : State :=
  let s := { s with v3 := s.v3 ^^^ word }.round
  { s with v0 := s.v0 ^^^ word }

/-- The little-endian word of at most eight bytes. -/
def word (bytes : List UInt8) : UInt64 :=
  bytes.foldr (fun b acc => acc * 256 + b.toUInt64) 0

/-- Takes in the last bytes with the length of the whole, and mixes. -/
def State.finish (s : State) (length : Nat) (tail : List UInt8) : UInt64 :=
  let last := word tail ||| (UInt64.ofNat (length % 256) <<< 56)
  let s := s.absorb last
  let s := { s with v2 := s.v2 ^^^ 0xff }.round.round.round
  s.v0 ^^^ s.v1 ^^^ s.v2 ^^^ s.v3

/-- Takes in all bytes, eight at a time. `length` is the length of the whole message. -/
def State.run (s : State) (length : Nat) : List UInt8 → UInt64
  | a :: b :: c :: d :: e :: f :: g :: h :: rest =>
    (s.absorb (word [a, b, c, d, e, f, g, h])).run length rest
  | tail => s.finish length tail

/-- The hash of a message. -/
def hash (message : List UInt8) : UInt64 := State.initial.run message.length message

/-- The eight little-endian bytes of a length. -/
def lengthBytes (n : Nat) : List UInt8 :=
  (List.range 8).map fun i => UInt8.ofNat (n / Nat.pow 256 i % 256)

/-- The text under which a module made from these bytes is known: sixteen digits of base sixteen. -/
def ofBytes (bytes : ByteArray) : String :=
  let content := bytes.toList
  Text.hexPadded 16 (hash (lengthBytes content.length ++ content)).toNat

end WasmHost.ContentHash
