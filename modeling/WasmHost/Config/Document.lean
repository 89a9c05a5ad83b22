import WasmHost.Config
import WasmHost.Document

/-!
# Configuration as documents

Each part of the configuration is read from a record. Members that are not set take their defaults,
and members with other names are passed over. Each part is also written as a record in which every
member is present.
-/

namespace WasmHost

open Document

namespace OptLevel

/-- Reads a level by its word. -/
def ofDocument? (dialect : Dialect) (d : Document) : Option OptLevel :=
  (d.alternative? dialect).bind ofWord?

/-- A level as a text. -/
def toDocument (l : OptLevel) : Document := .text l.word

end OptLevel

namespace FeatureSwitches

/-- The names of the switches, in order. -/
def names : List String :=
  ["reference_types", "simd", "bulk_memory", "multi_value", "multi_memory", "memory64", "threads"]

/-- A list holds an item for each switch. -/
def isComplete : Document → Bool
  | .list items => names.length ≤ items.length
  | _ => true

/-- Reads the switches. Unlike other records, one written as a list must be complete. -/
def ofDocument? (dialect : Dialect) (d : Document) : Option FeatureSwitches := do
  let ms ← d.named? dialect names
  guard (isComplete d)
  let switch (name : String) := member ms name none (optional? bool?)
  return {
    referenceTypes := ← switch "reference_types"
    simd := ← switch "simd"
    bulkMemory := ← switch "bulk_memory"
    multiValue := ← switch "multi_value"
    multiMemory := ← switch "multi_memory"
    memory64 := ← switch "memory64"
    threads := ← switch "threads" }

/-- A switch that is not set is null. -/
def toDocument (s : FeatureSwitches) : Document :=
  let switch (b : Option Bool) : Document := match b with | some b => .bool b | none => .null
  .record [("reference_types", switch s.referenceTypes), ("simd", switch s.simd),
    ("bulk_memory", switch s.bulkMemory), ("multi_value", switch s.multiValue),
    ("multi_memory", switch s.multiMemory), ("memory64", switch s.memory64),
    ("threads", switch s.threads)]

end FeatureSwitches

/-- A number that may be missing. -/
def Document.ofWord (n : Option UInt64) : Document :=
  match n with
  | some n => .integer n.toNat
  | none => .null

namespace EngineConfig

/-- The names of the settings, in order. -/
def names : List String :=
  ["consume_fuel", "epoch_interruption", "debug_info", "opt_level", "max_wasm_stack", "features"]

/-- Reads the settings of an engine. -/
def ofDocument? (dialect : Dialect) (d : Document) : Option EngineConfig := do
  let ms ← d.named? dialect names
  return {
    consumeFuel := ← member ms "consume_fuel" default.consumeFuel bool?
    epochInterruption := ← member ms "epoch_interruption" default.epochInterruption bool?
    debugInfo := ← member ms "debug_info" default.debugInfo bool?
    optLevel := ← member ms "opt_level" default.optLevel (OptLevel.ofDocument? dialect)
    maxWasmStack := ← member ms "max_wasm_stack" default.maxWasmStack (optional? word?)
    features := ← member ms "features" default.features (FeatureSwitches.ofDocument? dialect) }

/-- All settings of an engine. -/
def toDocument (c : EngineConfig) : Document :=
  .record [("consume_fuel", .bool c.consumeFuel), ("epoch_interruption", .bool c.epochInterruption),
    ("debug_info", .bool c.debugInfo), ("opt_level", c.optLevel.toDocument),
    ("max_wasm_stack", .ofWord c.maxWasmStack), ("features", c.features.toDocument)]

end EngineConfig

namespace ExecutionConfig

/-- The names of the settings, in order. -/
def names : List String := ["fuel", "epoch_deadline"]

/-- Reads the settings of an execution. -/
def ofDocument? (dialect : Dialect) (d : Document) : Option ExecutionConfig := do
  let ms ← d.named? dialect names
  return {
    fuel := ← member ms "fuel" default.fuel (optional? word?)
    epochDeadline := ← member ms "epoch_deadline" default.epochDeadline (optional? word?) }

/-- All settings of an execution. -/
def toDocument (c : ExecutionConfig) : Document :=
  .record [("fuel", .ofWord c.fuel), ("epoch_deadline", .ofWord c.epochDeadline)]

end ExecutionConfig

namespace RuntimeConfig

/-- The names of the two parts. -/
def names : List String := ["engine", "execution"]

/-- Reads both parts. -/
def ofDocument? (dialect : Dialect) (d : Document) : Option RuntimeConfig := do
  let ms ← d.named? dialect names
  return {
    engine := ← member ms "engine" default.engine (EngineConfig.ofDocument? dialect)
    execution := ← member ms "execution" default.execution (ExecutionConfig.ofDocument? dialect) }

/-- Both parts. -/
def toDocument (c : RuntimeConfig) : Document :=
  .record [("engine", c.engine.toDocument), ("execution", c.execution.toDocument)]

end RuntimeConfig

namespace LoggingConfig

/-- The names of the settings, in order. -/
def names : List String := ["filter", "json"]

/-- Reads the settings of the log. -/
def ofDocument? (dialect : Dialect) (d : Document) : Option LoggingConfig := do
  let ms ← d.named? dialect names
  return {
    filter := ← member ms "filter" default.filter text?
    json := ← member ms "json" default.json bool? }

/-- All settings of the log. -/
def toDocument (c : LoggingConfig) : Document :=
  .record [("filter", .text c.filter), ("json", .bool c.json)]

end LoggingConfig

namespace ConfigFile

/-- The names of the two parts. -/
def names : List String := ["runtime", "logging"]

/-- Reads the contents of a configuration file. -/
def ofDocument? (dialect : Dialect) (d : Document) : Option ConfigFile := do
  let ms ← d.named? dialect names
  return {
    runtime := ← member ms "runtime" default.runtime (RuntimeConfig.ofDocument? dialect)
    logging := ← member ms "logging" default.logging (LoggingConfig.ofDocument? dialect) }

/-- All settings of a file. -/
def toDocument (c : ConfigFile) : Document :=
  .record [("runtime", c.runtime.toDocument), ("logging", c.logging.toDocument)]

end ConfigFile

end WasmHost
