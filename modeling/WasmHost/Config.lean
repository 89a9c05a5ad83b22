import WasmHost.Error
import WasmHost.Wasm.Features

/-!
# Configuration

What an embedder sets for an engine, and for each execution. Options that are not set take the
engine's own default. `EngineConfig.supports` says whether limits on an execution can be enforced
by an engine at all.
-/

namespace WasmHost

/-- How hard the compiler tries. -/
inductive OptLevel where
  | none
  | speed
  | speedAndSize
  deriving DecidableEq, Repr, Inhabited

namespace OptLevel

/-- Every level. -/
def all : List OptLevel := [none, speed, speedAndSize]

/-- The word for a level in configuration text. -/
def word : OptLevel → String
  | none => "none"
  | speed => "speed"
  | speedAndSize => "speed_and_size"

/-- The identifier of a level. -/
def name : OptLevel → String
  | none => "None"
  | speed => "Speed"
  | speedAndSize => "SpeedAndSize"

/-- The level a word stands for. -/
def ofWord? (w : String) : Option OptLevel := all.find? fun l => l.word == w

theorem ofWord?_word (l : OptLevel) : ofWord? l.word = some l := by cases l <;> decide

end OptLevel

/-- Switches for language features; one that is not set leaves the engine's default. -/
structure FeatureSwitches where
  referenceTypes : Option Bool
  simd : Option Bool
  bulkMemory : Option Bool
  multiValue : Option Bool
  multiMemory : Option Bool
  memory64 : Option Bool
  threads : Option Bool
  deriving DecidableEq, Repr

namespace FeatureSwitches

/-- No switch is set. -/
def unset : FeatureSwitches := ⟨none, none, none, none, none, none, none⟩

instance : Inhabited FeatureSwitches := ⟨unset⟩

/-- The features that result. -/
def features (s : FeatureSwitches) : Wasm.Features :=
  let d := Wasm.Features.standard
  { referenceTypes := s.referenceTypes.getD d.referenceTypes
    simd := s.simd.getD d.simd
    bulkMemory := s.bulkMemory.getD d.bulkMemory
    multiValue := s.multiValue.getD d.multiValue
    multiMemory := s.multiMemory.getD d.multiMemory
    memory64 := s.memory64.getD d.memory64
    threads := s.threads.getD d.threads }

end FeatureSwitches

/-- What is set for an engine. -/
structure EngineConfig where
  consumeFuel : Bool
  epochInterruption : Bool
  debugInfo : Bool
  optLevel : OptLevel
  maxWasmStack : Option UInt64
  features : FeatureSwitches
  deriving DecidableEq, Repr

/-- What is set for one execution. -/
structure ExecutionConfig where
  fuel : Option UInt64
  epochDeadline : Option UInt64
  deriving DecidableEq, Repr

/-- No limits at all. -/
def ExecutionConfig.default : ExecutionConfig := ⟨none, none⟩

instance : Inhabited ExecutionConfig := ⟨ExecutionConfig.default⟩

namespace EngineConfig

/-- Nothing metered, optimised for speed, every feature at its default. -/
def default : EngineConfig := ⟨false, false, false, .speed, none, .unset⟩

instance : Inhabited EngineConfig := ⟨default⟩

/-- The reason for which an engine cannot enforce fuel. -/
def fuelUnsupported : String := "fuel was configured but the engine does not consume fuel"

/-- The reason for which an engine cannot enforce a deadline. -/
def deadlineUnsupported : String :=
  "an epoch deadline was configured but epoch interruption is disabled"

/-- Fuel needs an engine that counts it, and a deadline one that checks it. -/
def supports (c : EngineConfig) (e : ExecutionConfig) : Except Error Unit :=
  if e.fuel.isSome && !c.consumeFuel then .error (.invalidConfig fuelUnsupported)
  else if e.epochDeadline.isSome && !c.epochInterruption then
    .error (.invalidConfig deadlineUnsupported)
  else .ok ()

/-- The combinations no engine can be built for. -/
def check (c : EngineConfig) : Except Error Unit :=
  if c.maxWasmStack = some 0 then .error (.engine .emptyStack)
  else if c.features.simd = some false then .error (.engine .vectorsDisabled)
  else .ok ()

/-- How an engine built from the configuration is shown. -/
def debugText (c : EngineConfig) : String :=
  let bool (b : Bool) : String := if b then "true" else "false"
  "Engine \x7b consume_fuel: " ++ bool c.consumeFuel ++ ", epoch_interruption: " ++
    bool c.epochInterruption ++ ", opt_level: " ++ c.optLevel.name ++ ", .. \x7d"

/-- Bytes of stack that guest code may use. -/
def stackBytes (c : EngineConfig) : Nat := ((c.maxWasmStack.map (·.toNat)).getD 524288)

end EngineConfig

/-- Settings of an engine together with those of its executions. -/
structure RuntimeConfig where
  engine : EngineConfig
  execution : ExecutionConfig
  deriving DecidableEq, Repr

/-- The defaults of both. -/
def RuntimeConfig.default : RuntimeConfig := ⟨.default, .default⟩

instance : Inhabited RuntimeConfig := ⟨RuntimeConfig.default⟩

/-- What is logged, and in which form. -/
structure LoggingConfig where
  filter : String
  json : Bool
  deriving DecidableEq, Repr

/-- Informational messages, as plain text. -/
def LoggingConfig.default : LoggingConfig := ⟨"info", false⟩

/-- The contents of a configuration file. -/
structure ConfigFile where
  runtime : RuntimeConfig
  logging : LoggingConfig
  deriving DecidableEq, Repr

/-- The defaults of both parts. -/
def ConfigFile.default : ConfigFile := ⟨.default, .default⟩

/-- Why a configuration file cannot be used. -/
inductive ConfigFileError where
  | io (path reason : String)
  | parse (reason : String)
  deriving DecidableEq, Repr

namespace ConfigFileError

/-- What stands before the reason of a text that cannot be parsed. -/
def parseLead : String := "Failed to parse config file: "

/-- The wording of the error. -/
def message : ConfigFileError → String
  | io path reason => "Failed to read config file '" ++ path ++ "': " ++ reason
  | parse reason => parseLead ++ reason

end ConfigFileError

end WasmHost
