import WasmHost.CompiledModule
import WasmHost.Config
import WasmHost.Host.World
import WasmHost.Script.Stock

/-!
# Scripts

A script is a list of steps, each of which asks for one operation of the library on named objects.
The closures that a script makes are either stock closures or run steps themselves, on behalf of
whoever called them.

This module holds what scripts are made of; `Script.Session` holds what they work on, and
`Script.Run` says what the steps do.
-/

namespace WasmHost.Script

open WasmHost.Host

/-- Why a step cannot be carried out. -/
inductive Complaint where
  | noObject (name : String)
  /-- There is nothing to take away under the name. -/
  | nothingThere
  | noStore
  | busy
  /-- The object is of another type than the one that is named. -/
  | notA (type : String)
  | notItem
  | notFuncExpr
  | notRefExpr
  | notValueExpr
  | notClosable
  | notInCallback
  | noArgument
  | noDefault
  /-- The step itself makes no sense. -/
  | malformed (message : String)
  deriving DecidableEq, Repr

/-- The wording of a complaint. -/
def Complaint.message : Complaint → String
  | noObject name => "no object \x60" ++ name ++ "\x60"
  | nothingThere => "no such object"
  | noStore => "no such store"
  | busy => "store is busy"
  | notA type => (if type = "Engine" then "not an " else "not a ") ++ type
  | notItem => "not an extern"
  | notFuncExpr => "not a func"
  | notRefExpr => "not a ref"
  | notValueExpr => "not a value"
  | notClosable => "cannot be closed"
  | notInCallback => "not in a callback"
  | noArgument => "arg"
  | noDefault => "no default"
  | malformed message => message

/-- An expression for a value. -/
inductive Expr where
  | val (v : Val)
  /-- A reference to the function of a name. -/
  | func (name : String)
  /-- A reference to the host object of a name. -/
  | object (name : String)
  | default (kind : Kind)
  /-- The value that is kept under a name. -/
  | kept (name : String)
  /-- An argument of the closure that is running. -/
  | argument (index : Nat)
  | add (a b : Expr)
  | mul (a b : Expr)
  | malformed (message : String)
  deriving Repr, Inhabited

/-- A step: what is asked for, and how. -/
structure Line (R : Type) where
  request : R
  /-- The name under which the result is kept. -/
  keep : Option String
  /-- The store, where it is named. -/
  store : Option String
  /-- The step is run on a context that has been obtained before. -/
  viaContext : Bool
  /-- In a closure: a panic is taken for the result. -/
  catchPanic : Bool
  /-- In a closure: an error ends the closure with a trap. -/
  must : Bool
  deriving Inhabited

/-- What a closure does: steps, and then one way to end. -/
structure Body (R : Type) where
  steps : List (Line R)
  values : List Expr
  trap : Option String
  panic : Option Payload

/-- A body that does nothing and gives no values. -/
def Body.empty {R : Type} : Body R := ⟨[], [], none, none⟩

instance {R : Type} : Inhabited (Body R) := ⟨.empty⟩

/-- A closure: one body for each text of the first argument, and one for all others. -/
structure Callback (R : Type) where
  cases : List (String × Body R)
  otherwise : Body R
  deriving Inhabited

/-- The body for the text of the first argument. -/
def Callback.body {R : Type} (c : Callback R) (key : String) : Body R :=
  (c.cases.lookup key).getD c.otherwise

/-- What a step asks for. Objects are given by their names. -/
inductive Request where
  | malformed (message : String)
  -- without the context of a store
  | engine (config : EngineConfig)
  | engineSame (a b : String)
  | incrementEpoch (engine : String)
  | store (engine : String) (limits : Option ExecutionConfig)
  | dropStore (name : String)
  | storeEngineIs (name engine : String)
  | module (source : CompiledModule.Source) (engine : String)
  | reload (module engine : String)
  | moduleInfo (module : String)
  | linker (engine : String)
  | allowShadowing (linker : String) (allow : Bool)
  | define (linker module name item : String)
  | linkerGet (linker module name : String)
  | ref (data : HostData)
  | val (e : Expr)
  | valAs (value : String) (kind : Kind)
  | clone (name : String)
  | drop (name : String)
  | debug (name : String)
  | item (name : String)
  | sink
  | sinkTake (sink : String) (take : Bool)
  -- with the context of a store
  | touch
  | setFuel (fuel : Nat)
  | getFuel
  | setDeadline (ticks : Nat)
  | engineIs (engine : String)
  | callerExport (name : String)
  | funcNew (type : Signature) (label : String) (callback : Callback Request)
  | funcWrap (closure : Stock)
  | call (func : String) (args : List Expr) (into : List (Option String))
  | type (name : String)
  | globalNew (type : GlobalType) (init : Expr)
  | globalGet (global : String)
  | globalSet (global : String) (value : Expr)
  | memoryNew (type : MemoryType)
  | memorySize (memory : String)
  | memoryGrow (memory : String) (delta : Nat)
  | memoryRead (memory : String) (offset len : Nat)
  | memoryWrite (memory : String) (offset : Nat) (bytes : List UInt8)
  | memoryData (memory : String) (change : Option (Nat × UInt8))
  | tableNew (type : TableType) (init : Expr)
  | tableSize (table : String)
  | tableGet (table : String) (index : Nat)
  | tableSet (table : String) (index : Nat) (value : Expr)
  | tableGrow (table : String) (delta : Nat) (init : Expr)
  | close (name : String)
  | instance_ (module : String) (imports : List String)
  | getExport (instance_ name : String)
  | getFunc (instance_ name : String)
  | exports (instance_ : String) (keepAll : Option String)
  | linkerFuncNew (linker module name : String) (type : Signature) (label : String)
      (callback : Callback Request)
  | linkerFuncWrap (linker module name : String) (closure : Stock)
  | defineInstance (linker module instance_ : String)
  | defineModule (linker name module : String)
  | getDefault (linker module : String)
  | instantiate (linker module : String)
  | registerLogging (linker sink : String) (all : Bool)
  deriving Inhabited

/-- A step of a script. -/
abbrev Step : Type := Line Request

/-- A script: its steps, and what its first engine and store are made from if they are there at the
start. -/
structure Scenario where
  start : Option (EngineConfig × ExecutionConfig)
  steps : List Step

/-- The name of the engine that is there at the start. -/
def startEngine : String := "e"

/-- The name of the store that is there at the start, which steps use if they name no other. -/
def startStore : String := "s"

/-- The embedder's own closures. -/
inductive Program where
  | stock (closure : Stock)
  /-- Steps, under a label that the trace shows. -/
  | steps (label : String) (callback : Callback Request)

end WasmHost.Script
