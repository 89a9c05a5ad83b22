/-!
# Language features

Modules are checked against a set of language features. Seven of them can be switched by the
embedder; `Features.standard` is what applies where no switch is set.
-/

namespace WasmHost.Wasm

/-- The features an embedder can switch. -/
inductive Feature where
  | referenceTypes
  | simd
  | bulkMemory
  | multiValue
  | multiMemory
  | memory64
  | threads
  deriving DecidableEq, Repr

/-- Which of the switchable features are on. -/
structure Features where
  referenceTypes : Bool
  simd : Bool
  bulkMemory : Bool
  multiValue : Bool
  multiMemory : Bool
  memory64 : Bool
  threads : Bool
  deriving DecidableEq, Repr

namespace Features

/-- Everything but 64-bit memories. -/
def standard : Features := ⟨true, true, true, true, true, false, true⟩

/-- A feature is on. -/
def has (f : Features) : Feature → Bool
  | .referenceTypes => f.referenceTypes
  | .simd => f.simd
  | .bulkMemory => f.bulkMemory
  | .multiValue => f.multiValue
  | .multiMemory => f.multiMemory
  | .memory64 => f.memory64
  | .threads => f.threads

end Features

end WasmHost.Wasm
