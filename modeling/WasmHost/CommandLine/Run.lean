import WasmHost.CommandLine.Help
import WasmHost.Config.Text
import WasmHost.FloatFormat.Literal
import WasmHost.Host.Limits
import WasmHost.Host.Logging
import WasmHost.Host.TypeLists

/-!
# What the commands do

`run` makes an engine and a store as configured, loads a module, links it with the standard closures
and may call one of its functions. `inspect` lists what a module asks for and offers. Both end with
a report: what is printed, and how the program exits.
-/

namespace WasmHost.CommandLine

open WasmHost.Host

/-! ## Arguments of the invoked function -/

/-- Why words do not fit the function they are meant for. -/
inductive ArgumentError where
  | count (function : String) (expected given : Nat)
  | integer (e : Text.IntegerError)
  | float (e : FloatFormat.LiteralError)
  | unsupported (kind : Kind)
  deriving DecidableEq, Repr

/-- The wording of the error. -/
def ArgumentError.message : ArgumentError → String
  | count f e g =>
    "\x60" ++ f ++ "\x60 takes " ++ toString e ++ " arguments, " ++ toString g ++ " given"
  | integer e => e.message
  | float e => e.message
  | unsupported k => "unsupported argument type " ++ k.text

/-- The value that a word stands for as an argument of a kind. -/
def parseArgument (kind : Kind) (word : String) : Except ArgumentError Val :=
  match kind with
  | .i32 => ((Text.parseSigned 32 word).map Val.i32).mapError .integer
  | .i64 => ((Text.parseSigned 64 word).map Val.i64).mapError .integer
  | .f32 => ((FloatFormat.single.parse word).map fun x => Val.f32 (.ofNat 32 x)).mapError .float
  | .f64 => ((FloatFormat.double.parse word).map fun x => Val.f64 (.ofNat 64 x)).mapError .float
  | k => .error (.unsupported k)

/-- The values that words stand for, from left to right up to the first that stands for none. -/
def parseEach : List Kind → List String → Except ArgumentError (List Val)
  | kind :: kinds, word :: words => do
    let v ← parseArgument kind word
    return v :: (← parseEach kinds words)
  | _, _ => .ok []

/-- The arguments for a function, which takes as many as there are words. -/
def parseArguments (function : String) (kinds : List Kind) (words : List String) :
    Except ArgumentError (List Val) :=
  if words.length = kinds.length then parseEach kinds words
  else .error (.count function kinds.length words.length)

/-! ## Commands -/

/-- The files that commands read: their contents, or why they cannot be read. -/
def Files : Type := String → Except String ByteArray

/-- How a command ends. -/
inductive Ending where
  | success (lines : List String)
  | failed (message : String)
  | trapped (t : Trap)
  deriving Repr

/-- Actions of a command. There are no closures but those of the library. -/
abbrev Task (α : Type) : Type 1 := Act (Code Empty) Unit α

/-- The meaning of the closures. -/
def host : Runner (Code Empty) Unit := Code.host fun code _ => nomatch code

/-- Loads a module from a file. -/
def loadModule (files : Files) (features : Wasm.Features) (path : String) :
    Except Error CompiledModule :=
  match files path with
  | .ok content => CompiledModule.ofFile features content
  | .error reason => .error (.io reason)

/-- The message for a module that cannot be loaded. -/
def loadFailure (path : String) : String := "failed to load \x60" ++ path ++ "\x60"

/-- Calls a function of an instance with words for arguments. -/
def invoke (s : Nat) (i : Handle) (name : String) (words : List String) : Task Ending := do
  match ← Instance.getFunc s i name with
  | none => return .failed ("module has no exported function \x60" ++ name ++ "\x60")
  | some f =>
    match parseArguments name (← Func.type s f).params words with
    | .error e => return .failed e.message
    | .ok args =>
      match ← Act.attempt (Func.call host s f args) with
      | .ok results => return .success (results.map Val.text)
      | .error (.trap t) => return .trapped t
      | .error _ => return .failed ("failed to invoke \x60" ++ name ++ "\x60")

/-- The configuration of a run; fuel that is given turns the counting of fuel on. -/
def withFuel (config : RuntimeConfig) (fuel : Option UInt64) : RuntimeConfig :=
  match fuel with
  | none => config
  | some n =>
    { engine := { config.engine with consumeFuel := true }
      execution := { config.execution with fuel := some n } }

/-- Runs a module. -/
def runModule (files : Files) (config : RuntimeConfig) (o : RunOptions) : Task Ending := do
  let config := withFuel config o.fuel
  let e ← Engine.create config.engine
  let s ← Store.createWith e config.execution
  match loadModule files config.engine.features.features o.module with
  | .error _ => return .failed (loadFailure o.module)
  | .ok compiled =>
    let m ← Act.make (·.newModule e compiled)
    let sink ← Act.make (·.newLog)
    let l ← Act.make (·.newLinker e)
    registerAll s l sink
    match ← Act.attempt (Linker.instantiate host s l m) with
    | .error (.trap t) => return .trapped t
    | .error e => Act.fail e
    | .ok i =>
      match o.invoke with
      | none => return .success []
      | some name => invoke s i name o.args

/-- The end of an action that starts from nothing. -/
def endingOf (task : Task Ending) : Ending :=
  match (task (.empty ())).1 with
  | .value e => e
  | .failure e => .failed e.message
  | .panic _ => .failed "host function panicked"
  | .aborted _ => .failed "aborted"
  | .exhausted => .failed "exhausted"

/-- The configuration of a run, from its file if it has one. -/
def readConfig (files : Files) : Option String → Except ConfigFileError ConfigFile
  | none => .ok .default
  | some path =>
    match files path with
    | .ok content => ConfigFile.ofBytes path content
    | .error reason => .error (.io path reason)

/-- What `inspect` lists. -/
def inspection (m : CompiledModule) : List String :=
  ["content hash: " ++ m.hash, "imports:"] ++
    ((Wire.listImports m.code).map fun i =>
      "  " ++ i.module ++ "::" ++ i.name ++ ": " ++ i.type.describe) ++
    ["exports:"] ++
    (Wire.listExports m.code).map fun e => "  " ++ e.name ++ ": " ++ e.type.describe

/-- Carries out a command. -/
def Command.perform (files : Files) : Command → Ending
  | .run o =>
    match readConfig files o.config with
    | .error e => .failed e.message
    | .ok config => endingOf (runModule files config.runtime o)
  | .inspect path =>
    match loadModule files .standard path with
    | .error _ => .failed (loadFailure path)
    | .ok m => .success (inspection m)

/-! ## Reports -/

/-- What a program prints, and the code it exits with. -/
structure Report where
  exit : Nat
  out : String
  err : String
  deriving DecidableEq, Repr

/-- Lines of text, each of them ended. -/
def unlines (lines : List String) : String := String.join (lines.map (· ++ "\n"))

/-- What is printed for a trap: its message, its code, and the frames with their offsets. -/
def trapLines (t : Trap) : List String :=
  ["error: wasm trap: " ++ t.message] ++
    (t.code.map fun c => "  code: " ++ c.name).toList ++
    t.frames.zipIdx.map fun (f, i) =>
      "  " ++ toString i ++ ": " ++ f.text ++
        (match f.moduleOffset with
          | some o => " (module offset " ++ Text.hexOffset o ++ ")"
          | none => "")

/-- The report of a command. -/
def Ending.report : Ending → Report
  | success lines => ⟨0, unlines lines, ""⟩
  | failed message => ⟨1, "", unlines ["Error: " ++ message]⟩
  | trapped t => ⟨1, "", unlines (trapLines t)⟩

/-- The line that names the program's version. -/
def versionLine : String := "wasmbridge 0.1.0"

/-- Carries out a request. -/
def Request.report (files : Files) (env : Option String) : Request → Report
  | .perform c => (c.perform files).report
  | .help t => ⟨0, helpText env t, ""⟩
  | .version => ⟨0, unlines [versionLine], ""⟩
  | .nothing => ⟨2, "", helpText env .program⟩
  | .misuse m =>
    ⟨2, "", unlines ["error: " ++ m.message, "", "For more information, try '--help'."]⟩

/-- The files that a request reads. -/
def Request.paths : Request → List String
  | .perform (.run o) => o.config.toList ++ [o.module]
  | .perform (.inspect path) => [path]
  | _ => []

/-- Runs the program on a command line. -/
def run (files : Files) (env : Option String) (words : List String) : Report :=
  (read env words).report files env

end WasmHost.CommandLine
