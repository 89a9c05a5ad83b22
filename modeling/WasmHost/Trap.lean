import WasmHost.Text.Integer

/-!
# Traps

A trap is a failure that running guest code can end in: a message, the code of the cause if the
engine raised it, and the guest frames that were active, innermost first. A trap that a host
function raises has a message only.
-/

namespace WasmHost

/-- The causes of an engine trap that have a name of their own. -/
inductive TrapCode where
  | stackOverflow
  | memoryOutOfBounds
  | heapMisaligned
  | tableOutOfBounds
  | indirectCallToNull
  | badSignature
  | integerOverflow
  | integerDivisionByZero
  | badConversionToInteger
  | unreachableCodeReached
  | interrupt
  | outOfFuel
  deriving DecidableEq, Repr, Inhabited

namespace TrapCode

/-- Every code, in the order of declaration. -/
def all : List TrapCode :=
  [stackOverflow, memoryOutOfBounds, heapMisaligned, tableOutOfBounds, indirectCallToNull,
    badSignature, integerOverflow, integerDivisionByZero, badConversionToInteger,
    unreachableCodeReached, interrupt, outOfFuel]

/-- The identifier of a code. -/
def name : TrapCode → String
  | stackOverflow => "StackOverflow"
  | memoryOutOfBounds => "MemoryOutOfBounds"
  | heapMisaligned => "HeapMisaligned"
  | tableOutOfBounds => "TableOutOfBounds"
  | indirectCallToNull => "IndirectCallToNull"
  | badSignature => "BadSignature"
  | integerOverflow => "IntegerOverflow"
  | integerDivisionByZero => "IntegerDivisionByZero"
  | badConversionToInteger => "BadConversionToInteger"
  | unreachableCodeReached => "UnreachableCodeReached"
  | interrupt => "Interrupt"
  | outOfFuel => "OutOfFuel"

/-- The words for a code. -/
def text : TrapCode → String
  | stackOverflow => "stack overflow"
  | memoryOutOfBounds => "memory out of bounds"
  | heapMisaligned => "heap misaligned"
  | tableOutOfBounds => "table out of bounds"
  | indirectCallToNull => "indirect call to null"
  | badSignature => "bad signature"
  | integerOverflow => "integer overflow"
  | integerDivisionByZero => "integer division by zero"
  | badConversionToInteger => "bad conversion to integer"
  | unreachableCodeReached => "unreachable code reached"
  | interrupt => "interrupt"
  | outOfFuel => "out of fuel"

/-- The code an identifier stands for. -/
def ofName? (word : String) : Option TrapCode := all.find? fun c => c.name == word

/-- Running out of fuel or of time is a limit set by the embedder, not a fault of the guest. -/
def isResourceLimit : TrapCode → Bool
  | interrupt | outOfFuel => true
  | _ => false

/-- The byte of a code on the wire. -/
def byte : TrapCode → Nat
  | stackOverflow => 0
  | memoryOutOfBounds => 1
  | heapMisaligned => 2
  | tableOutOfBounds => 3
  | indirectCallToNull => 4
  | badSignature => 5
  | integerOverflow => 6
  | integerDivisionByZero => 7
  | badConversionToInteger => 8
  | unreachableCodeReached => 9
  | interrupt => 10
  | outOfFuel => 11

/-- The code a byte stands for. -/
def ofByte? : Nat → Option TrapCode
  | 0 => some stackOverflow
  | 1 => some memoryOutOfBounds
  | 2 => some heapMisaligned
  | 3 => some tableOutOfBounds
  | 4 => some indirectCallToNull
  | 5 => some badSignature
  | 6 => some integerOverflow
  | 7 => some integerDivisionByZero
  | 8 => some badConversionToInteger
  | 9 => some unreachableCodeReached
  | 10 => some interrupt
  | 11 => some outOfFuel
  | _ => none

theorem mem_all (c : TrapCode) : c ∈ all := by cases c <;> decide

theorem ofName?_name (c : TrapCode) : ofName? c.name = some c := by cases c <;> decide

theorem ofByte?_byte (c : TrapCode) : ofByte? c.byte = some c := by cases c <;> rfl

end TrapCode

/-- Everything the engine can trap for. All but one of the causes have a code. -/
inductive TrapCause where
  | coded (code : TrapCode)
  | waitOnUnsharedMemory
  deriving DecidableEq, Repr, Inhabited

namespace TrapCause

/-- The byte by which the engine's side tells a cause, if it has a code. -/
def byte? : TrapCause → Option Nat
  | coded c => some c.byte
  | waitOnUnsharedMemory => none

/-- The code of a cause as the byte is read on the host's side, if there is one. -/
def code? (c : TrapCause) : Option TrapCode := c.byte?.bind TrapCode.ofByte?

/-- The engine's words for a cause. -/
def detail : TrapCause → String
  | coded .stackOverflow => "call stack exhausted"
  | coded .memoryOutOfBounds => "out of bounds memory access"
  | coded .heapMisaligned => "unaligned atomic"
  | coded .tableOutOfBounds => "undefined element: out of bounds table access"
  | coded .indirectCallToNull => "uninitialized element"
  | coded .badSignature => "indirect call type mismatch"
  | coded .integerOverflow => "integer overflow"
  | coded .integerDivisionByZero => "integer divide by zero"
  | coded .badConversionToInteger => "invalid conversion to integer"
  | coded .unreachableCodeReached => "wasm \x60unreachable\x60 instruction executed"
  | coded .interrupt => "interrupt"
  | coded .outOfFuel => "all fuel consumed by WebAssembly"
  | waitOnUnsharedMemory => "atomic wait on non-shared memory"

/-- The message of the trap a cause leads to. -/
def message (c : TrapCause) : String := "wasm trap: " ++ c.detail

/-- A code arrives as it was told. -/
theorem code?_eq_some {cause : TrapCause} {c : TrapCode} :
    cause.code? = some c ↔ cause = coded c := by
  cases cause <;> simp [code?, byte?, TrapCode.ofByte?_byte]

end TrapCause

/-- A guest function that was active when a trap was raised. Names come from the module's own name
section, offsets are counted in bytes. -/
structure Frame where
  funcIndex : Nat
  funcName : Option String
  funcOffset : Option Nat
  moduleName : Option String
  moduleOffset : Option Nat
  deriving DecidableEq, Repr, Inhabited

namespace Frame

/-- The name of the function, or its index where it has none. -/
def funcText (f : Frame) : String :=
  f.funcName.getD ("<wasm function " ++ toString f.funcIndex ++ ">")

/-- Module, function and offset, as far as they are known. -/
def text (f : Frame) : String :=
  (match f.moduleName with | some m => m ++ "!" | none => "") ++ f.funcText ++
    (match f.funcOffset with | some o => " @ " ++ Text.hexOffset o | none => "")

/-- One line of the engine's own listing of frames. -/
def listing (index : Nat) (f : Frame) : String :=
  padLeft 5 (toString index) ++ ": " ++
    (match f.moduleOffset with
      | some o => padLeft 6 (Text.hexOffset o) ++ " - "
      | none => "") ++
    f.moduleName.getD "<unknown>" ++ "!" ++ f.funcText
where
  padLeft (width : Nat) (s : String) : String :=
    String.ofList (List.replicate (width - s.length) ' ') ++ s

end Frame

/-- A failure raised by, or through, guest code. -/
structure Trap where
  message : String
  code : Option TrapCode
  frames : List Frame
  deriving DecidableEq, Repr, Inhabited

namespace Trap

/-- A trap with a message and nothing else: the kind host functions raise. -/
def ofMessage (message : String) : Trap := ⟨message, none, []⟩

/-- What a user is shown for a trap. -/
def text (t : Trap) : String := t.message

/-- The trap is due to a limit that the embedder set. -/
def isResourceLimit (t : Trap) : Bool := t.code.any TrapCode.isResourceLimit

end Trap

end WasmHost
