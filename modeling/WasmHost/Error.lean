import WasmHost.ItemType
import WasmHost.Trap

/-!
# Errors

Everything an operation of the embedding can return instead of a result, by cause. `EngineFault`
lists the reasons for which the engine refuses a request, `Error` all the others with it; the
wording of each is in `message`.
-/

namespace WasmHost

/-- Which part of an item's type does not fit the import it is given for. -/
inductive ImportMismatch where
  | signature (expected found : Signature)
  | sort (expected found : ItemKind)
  | writable (expected : Bool)
  | content (expected found : Kind)
  | shared (expected : Bool)
  | wide (expected : Bool)
  | memoryLimits (expected found : Limits)
  | element (expected found : Kind)
  | tableLimits (expected found : Limits)
  deriving DecidableEq, Repr

namespace ImportMismatch

/-- The engine's word for the sort of an item it was given. -/
def foundWord : ItemKind → String
  | .func => "function"
  | k => k.text

/-- The wording of a mismatch. -/
def message : ImportMismatch → String
  | signature e f =>
    "types incompatible: expected type \x60" ++ e.guestText ++ "\x60, found type \x60" ++
      f.guestText ++ "\x60"
  | sort e f => "expected " ++ e.text ++ ", but found " ++ foundWord f
  | writable e => choice "global" "mutable" "immutable" e
  | content e f => kinds "global" e f
  | shared e => choice "memory" "shared" "non-shared" e
  | wide e => choice "memory" "64-bit" "32-bit" e
  | memoryLimits e f => limits "memory" e f
  | element e f => kinds "table" e f
  | tableLimits e f => limits "table" e f
where
  choice (what yes no : String) (expected : Bool) : String :=
    what ++ " types incompatible: expected " ++ (if expected then yes else no) ++ " " ++ what ++
      ", found " ++ (if expected then no else yes) ++ " " ++ what
  kinds (what : String) (e f : Kind) : String :=
    what ++ " types incompatible: expected " ++ what ++ " of type \x60" ++ e.text ++
      "\x60, found " ++ what ++ " of type \x60" ++ f.text ++ "\x60"
  limits (what : String) (e f : Limits) : String :=
    what ++ " types incompatible: expected " ++ what ++ " limits (" ++ e.text ++
      ") doesn't match provided " ++ what ++ " limits (" ++ f.text ++ ")"

end ImportMismatch

/-- Why the engine refused a request. -/
inductive EngineFault where
  | growMemory (delta : Nat)
  | growTable (delta : Nat)
  | tableIndex
  | fuelNotConfigured
  | immutableGlobal
  | immutableGlobalNative
  | unknownKind (byte : Nat)
  | unknownMutability (byte : Nat)
  | notReferenceKind (byte : Nat)
  | notReference
  | narrowing
  | unsupportedValue
  | globalInitialiser (expected found : String)
  | tableInitialiser (expected found : String)
  | emptyStack
  | vectorsDisabled
  | foreignEngine
  | defaultNotFunc (module name : String) (kind : ItemKind)
  | incompatibleImport (module name : String) (why : ImportMismatch)
  | segmentTable
  | segmentMemory
  | invalidModule
  | invalidArtifact
  | uncoded (message : String)
  deriving DecidableEq, Repr

/-- The wording of a refusal. -/
def EngineFault.message : EngineFault → String
  | growMemory d => "failed to grow memory by \x60" ++ toString d ++ "\x60"
  | growTable d => "failed to grow table by \x60" ++ toString d ++ "\x60"
  | tableIndex => "table element index out of bounds"
  | fuelNotConfigured => "fuel is not configured in this store"
  | immutableGlobal => "cannot set an immutable global"
  | immutableGlobalNative => "immutable global cannot be set"
  | unknownKind b => "unknown value kind " ++ toString b
  | unknownMutability b => "unknown mutability " ++ toString b
  | notReferenceKind b => "value kind " ++ toString b ++ " is not a reference"
  | notReference => "table elements must be references"
  | narrowing => "number too large to fit in target type"
  | unsupportedValue => "unsupported value type"
  | globalInitialiser e f =>
    "type mismatch: initial value provided does not match the type of this global: " ++
      "type mismatch: expected " ++ e ++ ", found " ++ f
  | tableInitialiser e f =>
    "type mismatch: value does not match table element type: " ++
      "type mismatch: expected " ++ e ++ ", found " ++ f
  | emptyStack => "max_wasm_stack size cannot be zero"
  | vectorsDisabled =>
    "cannot disable the simd proposal but enable the relaxed simd proposal"
  | foreignEngine => "module was compiled for a different engine than the store's"
  | defaultNotFunc m n k =>
    "default export \x60" ++ m ++ "::" ++ n ++ "\x60 is a " ++ k.text ++ ", not a func"
  | incompatibleImport m n why =>
    "incompatible import type for \x60" ++ m ++ "::" ++ n ++ "\x60: " ++ why.message
  | segmentTable => "table out of bounds: elements segment does not fit"
  | segmentMemory => "memory out of bounds: data segment does not fit"
  | invalidModule => "failed to parse WebAssembly module"
  | invalidArtifact => "bytes are not a compatible serialized module"
  | uncoded m => m

/-- Everything an operation of the embedding can return instead of a result. -/
inductive Error where
  | wrongKind (expected actual : Kind)
  | argumentCount (expected actual : Nat)
  | argumentType (index : Nat) (expected actual : Kind)
  | importCount (expected actual : Nat)
  | unknownImport (module name : String)
  | duplicateDefinition (module name : String)
  | memoryAccess (offset len size : Nat)
  | trap (trap : Trap)
  | engine (fault : EngineFault)
  | invalidConfig (reason : String)
  | wat (message : String)
  | io (message : String)
  deriving DecidableEq, Repr

namespace Error

/-- The name of the kind of error. -/
def kindName : Error → String
  | wrongKind .. => "WrongKind"
  | argumentCount .. => "ArgumentCount"
  | argumentType .. => "ArgumentType"
  | importCount .. => "ImportCount"
  | unknownImport .. => "UnknownImport"
  | duplicateDefinition .. => "DuplicateDefinition"
  | memoryAccess .. => "MemoryAccess"
  | trap _ => "Trap"
  | engine _ => "Engine"
  | invalidConfig _ => "InvalidConfig"
  | wat _ => "Wat"
  | io _ => "Io"

/-- The wording of an error. -/
def message : Error → String
  | wrongKind e a => "Wrong value kind: expected " ++ e.text ++ ", found " ++ a.text
  | argumentCount e a =>
    "Wrong number of arguments: expected " ++ toString e ++ ", got " ++ toString a
  | argumentType i e a =>
    "Argument " ++ toString i ++ " has kind " ++ a.text ++ ", expected " ++ e.text
  | importCount e a =>
    "Wrong number of imports: module expects " ++ toString e ++ ", got " ++ toString a
  | unknownImport m n => "Unknown import: " ++ m ++ "::" ++ n
  | duplicateDefinition m n => "Import " ++ m ++ "::" ++ n ++ " defined twice"
  | memoryAccess offset len size =>
    "Out of bounds memory access: " ++ toString len ++ " bytes at offset " ++ toString offset ++
      ", memory size " ++ toString size
  | trap t => "Wasm trap: " ++ t.text
  | engine f => "Engine error: " ++ f.message
  | invalidConfig r => "Invalid configuration: " ++ r
  | wat m => "Failed to parse wat: " ++ m
  | io m => "IO error: " ++ m

/-- The trap inside an error. -/
def trap? : Error → Option Trap
  | trap t => some t
  | _ => none

/-- The error is a trap. -/
def isTrap (e : Error) : Bool := e.trap?.isSome

/-- The error is a trap due to a limit that the embedder set. -/
def isResourceLimit (e : Error) : Bool := e.trap?.any Trap.isResourceLimit

end Error

end WasmHost
