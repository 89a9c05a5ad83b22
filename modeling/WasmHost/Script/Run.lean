import WasmHost.Host.TypeLists
import WasmHost.Script.Session

/-!
# Running scripts

What each step does, and what closures made of steps do. A closure runs its steps on behalf of its
caller, and a step may call functions again; `host` ties the two together for any depth of nesting.
-/

namespace WasmHost.Script

open WasmHost.Host

/-- On whose behalf a step runs: the meaning of closures, and for a step of a closure the caller and
the arguments. -/
structure Context where
  host : Runner (Code Program) Session
  caller : Option Caller
  args : List Val

/-! ## Finding objects and stores -/

/-- The step cannot be carried out. -/
def refuse {α : Type} (c : Complaint) : Job α := throw c

/-- An action as part of a step. -/
def act {α : Type} (m : Play α) : Job α := ExceptT.lift m

/-- The world as it is. -/
def scene : Job Scene := act Act.world

/-- The session as it is. -/
def session : Job Session := do return (← scene).user

/-- Changes the world. -/
def change (f : Scene → Scene) : Job Unit := act (Act.update f)

/-- The object of a name, held until the step ends. -/
def find (name : String) : Job Object := do
  match (← session).objects.lookup name with
  | none => refuse (.noObject name)
  | some o =>
    change fun w => hold (retain w o) o
    return o

/-- The engine of a name. -/
def engine (name : String) : Job Nat := do
  match ← find name with
  | .engine e => return e
  | _ => refuse (.notA "Engine")

/-- The module of a name. -/
def module (name : String) : Job Nat := do
  match ← find name with
  | .module m => return m
  | _ => refuse (.notA "Module")

/-- The linker of a name. -/
def linker (name : String) : Job Nat := do
  match ← find name with
  | .linker l => return l
  | _ => refuse (.notA "Linker")

/-- The instance of a name. -/
def instance_ (name : String) : Job Handle := do
  match ← find name with
  | .instance_ h => return h
  | _ => refuse (.notA "Instance")

/-- The log of a name. -/
def sink (name : String) : Job Nat := do
  match ← find name with
  | .sink k => return k
  | _ => refuse (.notA "Sink")

/-- The value of a name. -/
def value (name : String) : Job Val := do
  match ← find name with
  | .val v => return v
  | _ => refuse (.notA "Val")

/-- The item of a name. -/
def item (name : String) : Job Item := do
  match ← find name with
  | .item i => return i
  | _ => refuse .notItem

/-- The item of a name, which must be of a sort. -/
def itemOf (kind : ItemKind) (name : String) : Job Handle := do
  match ← find name with
  | .item i => if i.kind = kind then return i.handle else refuse (.notA (sortName kind))
  | _ => refuse (.notA (sortName kind))

/-- The store a step runs on: the one it names, or that of its caller, or the one that is there at
the start. A store that is running already can only be the caller's. -/
def storeFor (ctx : Context) (name : Option String) : Job Nat := do
  match name, ctx.caller with
  | none, some c => return c.store
  | _, _ =>
    let s ← session
    match s.stores.lookup (name.getD startStore) with
    | none => refuse .noStore
    | some n => if s.running.contains n then refuse .busy else return n

/-- A store that is running keeps its name. -/
def refuseRunning (name : String) : Job Unit := do
  let s ← session
  match s.stores.lookup name with
  | none => pure ()
  | some n => if s.running.contains n then refuse .busy else pure ()

/-- Runs the part of a step that needs a store. -/
def onStore {α : Type} (ctx : Context) (step : Step) (m : Nat → Job α) : Job α := do
  let s ← storeFor ctx step.store
  if step.viaContext then act <| Act.context s
  ExceptT.mk (whileRunning s (m s).run)

/-! ## Values -/

/-- The word that an expression stands for in arithmetic. -/
def word : Val → Job (BitVec 32)
  | .i32 x => return x
  | _ => refuse .notValueExpr

/-- The value of an expression. It lasts until the step ends. -/
def Expr.eval (args : List Val) : Expr → Job Val
  | .val v => return v
  | .func name => do
    match ← find name with
    | .item ⟨.func, h⟩ => return .funcref (some h)
    | _ => refuse .notFuncExpr
  | .object name => do
    match ← find name with
    | .ref o => return .externref (some o)
    | _ => refuse .notRefExpr
  | .default kind =>
    match Val.default? kind with
    | some v => return v
    | none => refuse .noDefault
  | .kept name => do
    match ← find name with
    | .val v => return v
    | _ => refuse .notValueExpr
  | .argument index =>
    match args[index]? with
    | some v => return v
    | none => refuse .noArgument
  | .add a b => do
    let x ← word (← a.eval args)
    let y ← word (← b.eval args)
    return .i32 (x + y)
  | .mul a b => do
    let x ← word (← a.eval args)
    let y ← word (← b.eval args)
    return .i32 (x * y)
  | .malformed message => refuse (.malformed message)

/-- How a value is shown at this point. -/
def showVal (v : Val) : Job Shown := do return shown (← scene) v

/-- The contents of a value, if it is of a kind. -/
def contentsAs (kind : Kind) (v : Val) : Job Unit := do
  if v.kind ≠ kind then act <| Act.fail (.wrongKind kind v.kind)

/-- What the contents of a reference are as an object. -/
def contentsObject : Val → Option Object
  | .funcref (some h) => some (.item ⟨.func, h⟩)
  | .externref (some o) => some (.ref o)
  | _ => none

/-- Keeps the results of a call under names, one by one; what has no name is released at the end of
the step. -/
def keepResults : List Val → List (Option String) → Job Unit
  | [], _ => pure ()
  | v :: vs, names => do
    act <| keepNew (names.head?.join) (.val v)
    keepResults vs names.tail

/-- Keeps an item under a name, and tells of what sort it is. -/
def keepItem (name : Option String) : Option Item → Job Answer
  | none => return .nothing
  | some i => do
    act <| keepNew name (.item i)
    return .text i.kind.text

/-! ## Steps -/

/-- The most bytes that a step reads at once. -/
def readBound : Nat := Nat.pow 2 20

/-- The number of bytes of a memory and their sum, after a byte has been changed if it is there. -/
def surveyMemory (change : Option (Nat × UInt8)) (m : Guest.Memory) :
    (Nat × Nat) × Guest.Memory :=
  let m :=
    match change with
    | some (index, byte) => (m.write? index [byte]).getD m
    | none => m
  ((m.size, m.sum), m)

/-- The modules an engine has serialised can be loaded by engines that compile in the same way. -/
def sameCode (a b : EngineConfig) : Bool :=
  a.consumeFuel == b.consumeFuel && a.epochInterruption == b.epochInterruption &&
    a.debugInfo == b.debugInfo && a.features.features == b.features.features

/-- The configuration of an engine. -/
def configOf (e : Nat) : Job EngineConfig := do
  return ((← scene).engines[e]?.map (·.config)).getD default

/-- Does what a step asks for. -/
def perform (ctx : Context) (step : Step) : Job Answer := do
  let on (m : Nat → Job Answer) : Job Answer := onStore ctx step m
  let eval (e : Expr) : Job Val := e.eval ctx.args
  let keep (o : Object) : Job Unit := act <| keepNew step.keep o
  match step.request with
  | .malformed message => refuse (.malformed message)
  | .engine config =>
    keep (.engine (← act <| Engine.create config))
    return .nothing
  | .engineSame a b =>
    let a ← engine a
    let b ← engine b
    return .flag (a = b)
  | .incrementEpoch e =>
    act <| Engine.incrementEpoch (← engine e)
    return .nothing
  | .store e limits =>
    let e ← engine e
    let name := step.keep.getD startStore
    refuseRunning name
    let s ← act <|
      match limits with
      | some limits => Store.createWith e limits
      | none => Store.create e
    act <| bindStore name s
    return .nothing
  | .dropStore name =>
    let s ← storeFor { ctx with caller := none } (some name)
    change fun w => onSession w fun u => { u with stores := unname u.stores name }
    act <| Act.deleteStore s
    return .nothing
  | .storeEngineIs name e =>
    let e ← engine e
    let s ← storeFor { ctx with caller := none } (some name)
    let w ← scene
    return .store ((w.stores[s]?).any (·.engine == e)) (Store.debugText (w.pending s))
  | .module source e =>
    let e ← engine e
    let config ← configOf e
    let compiled ← act <| Act.ofExcept (CompiledModule.ofSource config.features.features source)
    keep (.module (← act <| Act.make (·.newModule e compiled)))
    return .nothing
  | .reload m e =>
    let m ← module m
    let e ← engine e
    let cell ← act <| Act.orAbort .stuck (← scene).modules[m]?
    if !sameCode (← configOf cell.engine) (← configOf e) then
      act <| Act.fail (.engine .invalidArtifact)
    keep (.module (← act <| Act.make (·.newModule e cell.compiled)))
    return .nothing
  | .moduleInfo m =>
    let cell ← act <| Act.orAbort .stuck (← scene).modules[← module m]?
    return .interface (Wire.listImports cell.compiled.code) (Wire.listExports cell.compiled.code)
  | .linker e =>
    let e ← engine e
    let l ← act <| Act.make (·.newLinker e)
    keep (.linker l)
    return .flag ((← act <| Linker.cell l).engine = e)
  | .allowShadowing l allow =>
    act <| Linker.allowShadowing (← linker l) allow
    return .nothing
  | .define l module name i =>
    let l ← linker l
    let i ← item i
    change fun w => w.retainHandle i.handle
    act <| Linker.define l module name i
    return .nothing
  | .linkerGet l module name =>
    match ← act <| Linker.get? (← linker l) module name with
    | none => return .nothing
    | some i =>
      act <|
        match step.keep with
        | some name => bindName name (.item i)
        | none => release (.item i)
      return .text i.kind.text
  | .ref data =>
    keep (.ref (← act <| Act.make (·.newObject data [])))
    return .nothing
  | .val e =>
    let v ← e.eval []
    act <| keepClone step.keep (.val v)
    return .literal v.kind v.text v.debugText
  | .valAs name kind =>
    let v ← value name
    contentsAs kind v
    if let some o := contentsObject v then act <| keepClone step.keep o
    return .contents (← showVal v)
  | .clone name =>
    let o ← find name
    act <| keepClone step.keep o
    return .nothing
  | .drop name =>
    match (← session).objects.lookup name with
    | none => refuse .nothingThere
    | some o =>
      change fun w => onSession w fun s => { s with objects := unname s.objects name }
      act <| release o
      return .nothing
  | .debug name =>
    let o ← find name
    return .text (o.debugText (← scene))
  | .item name => return .sort (← item name).kind
  | .sink =>
    keep (.sink (← act <| Act.make (·.newLog)))
    return .nothing
  | .sinkTake name take =>
    let k ← sink name
    let log := (← scene).logs[k]?.getD .empty
    if take then change fun w => { w with logs := w.logs.modify k fun log => log.take.2 }
    return .entries log.entries
  | .touch => on fun s => do
    act <| Act.context s
    return .nothing
  | .setFuel fuel => on fun s => do
    act <| Store.setFuel s fuel
    return .nothing
  | .getFuel => on fun s => do return .number (← act <| Store.fuel s)
  | .setDeadline ticks => on fun s => do
    act <| Store.setDeadline s ticks
    return .nothing
  | .engineIs e =>
    let e ← engine e
    on fun s => do return .flag (((← scene).stores[s]?).any (·.engine == e))
  | .callerExport name =>
    match ctx.caller with
    | none => refuse .notInCallback
    | some c =>
      if step.viaContext then act <| Act.context c.store
      keepItem step.keep (← act <| c.getExport name)
  | .funcNew type label callback => on fun s => do
    keep (.item ⟨.func, ← act <| Func.create s type (.custom (.steps label callback)) []⟩)
    return .nothing
  | .funcWrap f => on fun s => do
    let type := (f.closure (κ := Code Program) (σ := Session)).type
    keep (.item ⟨.func, ← act <| Func.create s type (.custom (.stock f)) []⟩)
    return .nothing
  | .call f args into =>
    let f ← itemOf .func f
    let args ← args.mapM eval
    on fun s => do
      let results ← act <| Func.call ctx.host s f args
      let answer ← results.mapM showVal
      keepResults results into
      return .values answer
  | .type name =>
    let i ← item name
    on fun s => do return .type (← act <| Item.type s i)
  | .globalNew type init =>
    let init ← eval init
    on fun s => do
      keep (.item ⟨.global, ← act <| Global.create s type init⟩)
      return .nothing
  | .globalGet g =>
    let g ← itemOf .global g
    on fun s => do
      let v ← act <| Global.get s g
      let answer ← showVal v
      keep (.val v)
      return .value answer
  | .globalSet g v =>
    let g ← itemOf .global g
    let v ← eval v
    on fun s => do
      act <| Global.set s g v
      return .nothing
  | .memoryNew type => on fun s => do
    keep (.item ⟨.memory, ← act <| Memory.create s type⟩)
    return .nothing
  | .memorySize m =>
    let m ← itemOf .memory m
    on fun s => do
      let pages ← act <| Memory.pages s m
      return .numbers pages (← act <| Memory.size s m)
  | .memoryGrow m delta =>
    let m ← itemOf .memory m
    on fun s => do return .number (← act <| Memory.grow s m delta)
  | .memoryRead m offset len =>
    let m ← itemOf .memory m
    on fun s => do return .bytes (← act <| Memory.read s m offset (min len readBound))
  | .memoryWrite m offset bytes =>
    let m ← itemOf .memory m
    on fun s => do
      act <| Memory.write s m offset bytes
      return .nothing
  | .memoryData m byte =>
    let m ← itemOf .memory m
    on fun s => do
      let (size, sum) ← act <| Memory.withData s m (surveyMemory byte)
      return .numbers size sum
  | .tableNew type init =>
    let init ← eval init
    on fun s => do
      keep (.item ⟨.table, ← act <| Table.create s type init⟩)
      return .nothing
  | .tableSize t =>
    let t ← itemOf .table t
    on fun s => do return .number (← act <| Table.size s t)
  | .tableGet t index =>
    let t ← itemOf .table t
    on fun s => do
      match ← act <| Table.get s t index with
      | none => return .nothing
      | some v =>
        let answer ← showVal v
        keep (.val v)
        return .value answer
  | .tableSet t index v =>
    let t ← itemOf .table t
    let v ← eval v
    on fun s => do
      act <| Table.set s t index v
      return .nothing
  | .tableGrow t delta init =>
    let t ← itemOf .table t
    let init ← eval init
    on fun s => do return .number (← act <| Table.grow s t delta init)
  | .close name =>
    match (← session).objects.lookup name with
    | none => refuse .nothingThere
    | some o =>
      change fun w =>
        hold (onSession w fun s => { s with objects := unname s.objects name }) o
      match o with
      | .item ⟨_, h⟩ | .instance_ h => on fun s => do
        change fun w => onSession w fun u => { u with held := u.held.erase o }
        act <| close s h
        return .nothing
      | _ => refuse .notClosable
  | .instance_ m imports =>
    let m ← module m
    let imports ← imports.mapM item
    on fun s => do
      keep (.instance_ (← act <| Instance.create ctx.host s m imports))
      return .nothing
  | .getExport i name =>
    let i ← instance_ i
    on fun s => do keepItem step.keep (← act <| Instance.getExport s i name)
  | .getFunc i name =>
    let i ← instance_ i
    on fun s => do
      match ← act <| Instance.getFunc s i name with
      | none => return .flag false
      | some h =>
        keep (.item ⟨.func, h⟩)
        return .flag true
  | .exports i keepAll =>
    let i ← instance_ i
    on fun s => do
      let items ← act <| Instance.exports s i
      items.forM fun (name, i) => act <| keepNew (keepAll.map (· ++ name)) (.item i)
      return .names (items.map fun (name, i) => (name, i.kind))
  | .linkerFuncNew l module name type label callback =>
    let l ← linker l
    on fun s => do
      act <| Linker.defineFunc s l module name type (.custom (.steps label callback)) []
      return .nothing
  | .linkerFuncWrap l module name f =>
    let l ← linker l
    on fun s => do
      let type := (f.closure (κ := Code Program) (σ := Session)).type
      act <| Linker.defineFunc s l module name type (.custom (.stock f)) []
      return .nothing
  | .defineInstance l module i =>
    let l ← linker l
    let i ← instance_ i
    on fun s => do
      act <| Linker.defineInstance s l module i
      return .nothing
  | .defineModule l name m =>
    let l ← linker l
    let m ← module m
    on fun s => do
      act <| Linker.defineModule ctx.host s l name m
      return .nothing
  | .getDefault l module =>
    let l ← linker l
    on fun s => do
      keep (.item ⟨.func, ← act <| Linker.getDefault s l module .idle⟩)
      return .nothing
  | .instantiate l m =>
    let l ← linker l
    let m ← module m
    on fun s => do
      keep (.instance_ (← act <| Linker.instantiate ctx.host s l m))
      return .nothing
  | .registerLogging l k all =>
    let l ← linker l
    let k ← sink k
    on fun s => do
      if all then act <| registerAll s l k else act <| registerLogging s l k
      return .nothing

/-- The result of a step that ended without a panic. -/
def resultOf (request : Request) : Except Error (Except Complaint Answer) → Result
  | .ok (.ok a) => .answer a
  | .ok (.error c) => .refused c
  | .error e =>
    match request with
    | .module .. | .reload .. => .unloadable e
    | _ => .failed e

/-- Runs a step. -/
def runStep (ctx : Context) (step : Step) : Play Result :=
  holding do return resultOf step.request (← Act.attempt (perform ctx step).run)

/-- Runs a step and takes a panic for its result. -/
def runStepCatching (ctx : Context) (step : Step) : Play Result := do
  match ← Act.catchPanic (runStep ctx step) with
  | .ok r => return r
  | .error p => return .panicked p

/-! ## Closures -/

/-- Adds to the trace. -/
def record (e : Event) : Play Unit :=
  Act.update fun w => onSession w fun s => { s with trace := s.trace ++ [e] }

/-- The error of a step, if it ended with one. -/
def Result.error? : Result → Option Error
  | .failed e | .unloadable e => some e
  | _ => none

/-- Runs the steps of a closure, up to the first that must succeed and does not. -/
def runSteps (ctx : Context) : List Step → Play (Option Error)
  | [] => pure none
  | step :: rest => do
    let r ← if step.catchPanic then runStepCatching ctx step else runStep ctx step
    record (.performed r)
    match step.must, r.error? with
    | true, some e => return some e
    | _, _ => runSteps ctx rest

/-- The message of a closure whose result cannot be evaluated. -/
def badResult : String := "bad callback result"

/-- The values a closure gives, each with a share of its own. -/
def giveValues (ctx : Context) (es : List Expr) : Play (Option (List Val)) :=
  holding do
    match ← Act.attempt (es.mapM fun (e : Expr) => e.eval ctx.args).run with
    | .ok (.ok vs) =>
      Act.update fun w => vs.foldl (fun w v => w.retainVal v) w
      return some vs
    | _ => return none

/-- Runs a closure that is made of steps. -/
def runBody (ctx : Context) (label : String) (callback : Callback Request) :
    Play (Except Trap (List Val)) := do
  let body := callback.body ((ctx.args.head?.map Val.text).getD "")
  let w ← Act.world
  record (.entered label (ctx.args.map (shown w)))
  match ← runSteps ctx body.steps with
  | some e => return .error (.ofMessage e.message)
  | none =>
    match body.panic, body.trap with
    | some p, _ => Act.panic p
    | none, some message => return .error (.ofMessage message)
    | none, none =>
      match ← giveValues ctx body.values with
      | none => return .error (.ofMessage badResult)
      | some vs =>
        let w ← Act.world
        record (.left label (vs.map (shown w)))
        return .ok vs

/-- Runs one of the embedder's closures. -/
def Program.run (host : Runner (Code Program) Session) (p : Program) (caller : Caller)
    (args : List Val) : Play (Except Trap (List Val)) :=
  match p with
  | .stock f => f.closure.invoke caller args
  | .steps label callback => runBody ⟨host, some caller, args⟩ label callback

/-- The meaning of closures, nested up to a depth. -/
def hostTo : Nat → Runner (Code Program) Session
  | 0 => fun _ _ _ _ => Act.exhaust
  | depth + 1 => Code.host fun code _ => Program.run (hostTo depth) code

/-- A bound on nesting; guest code runs out of stack long before. -/
def depthBound : Nat := Nat.pow 2 32

/-- The meaning of closures. -/
def host : Runner (Code Program) Session := hostTo depthBound

/-! ## Whole scripts -/

/-- What is recorded of a step of a script. -/
structure Record where
  result : Result
  live : Nat
  pending : List (String × Nat)
  trace : List Event

/-- Runs a step of a script and records it. -/
def runRecorded (step : Step) : Play Record := do
  Act.update fun w => onSession w fun s => { s with trace := [] }
  let result ← runStepCatching ⟨host, none, []⟩ step
  let w ← Act.world
  return ⟨result, liveClosures w, pendingByName w, w.user.trace⟩

/-- Makes the engine and the store that are there at the start. -/
def setUp : Option (EngineConfig × ExecutionConfig) → Play Unit
  | none => pure ()
  | some (config, limits) => do
    let e ← Engine.create config
    bindName startEngine (.engine e)
    let s ← Store.createWith e limits
    bindStore startStore s

/-- Deletes stores in order. -/
def deleteStores : List Nat → Play Unit
  | [] => pure ()
  | s :: rest => do
    Act.deleteStore s
    deleteStores rest

/-- Deletes all stores, and then releases all objects. -/
def tearDown : Play Unit := do
  deleteStores ((← Act.world).user.stores.map (·.2))
  releaseAll ((← Act.world).user.objects.map (·.2))

/-- Runs a script, and tells how many closures are left when everything is gone. -/
def Scenario.run (script : Scenario) : Play (List Record × Nat) := do
  setUp script.start
  let records ← script.steps.mapM runRecorded
  tearDown
  return (records, liveClosures (← Act.world))

/-- Runs a script from the beginning. -/
def Scenario.outcome (script : Scenario) : Outcome (List Record × Nat) :=
  (script.run (.empty .empty)).1

end WasmHost.Script
