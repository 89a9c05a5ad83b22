import WasmHost.Host.Limits
import WasmHost.Host.Logging
import WasmHost.Host.Pool

/-!
# Embedders

An embedder is any program that uses the library through its interface. It asks for one operation
after another and goes on in whatever way it likes with each reply. Its closures are programs of the
same kind: while one runs, it can use the store of its caller, look at its arguments and at what it
keeps alive, and ask for any operation, calls included, to any depth.

Several programs may run as threads of their own on one world. Their steps come in any order.
-/

namespace WasmHost.Host

open Act

/-! ## Programs -/

/-- An argument of an operation: a value that refers to nothing, or a thing of the pool. -/
inductive Arg where
  | plain (v : Val)
  | thing (i : Nat)

/-- What is asked of the library with the context of a store. Things are given by their places. -/
inductive Query (κ : Type) where
  | touch
  | setFuel (fuel : Nat)
  | fuel
  | setDeadline (ticks : Nat)
  | func (raw : Wire.RawSignature) (code : Code κ) (captures : List Nat)
  | call (func : Nat) (args : List Arg)
  | type (item : Nat)
  | globalNew (type : GlobalType) (init : Arg)
  | globalGet (global : Nat)
  | globalSet (global : Nat) (value : Arg)
  | memoryNew (type : MemoryType)
  | memoryPages (memory : Nat)
  | memorySize (memory : Nat)
  | memoryGrow (memory delta : Nat)
  | memoryRead (memory offset len : Nat)
  | memoryWrite (memory offset : Nat) (bytes : List UInt8)
  | memoryData (memory : Nat) (f : Guest.Memory → List UInt8 × Guest.Memory)
  | tableNew (type : TableType) (init : Arg)
  | tableSize (table : Nat)
  | tableGet (table index : Nat)
  | tableSet (table index : Nat) (value : Arg)
  | tableGrow (table delta : Nat) (init : Arg)
  | close (wrapper : Nat)
  | instance_ (module : Nat) (imports : List Nat)
  | getExport (instance_ : Nat) (name : String)
  | getFunc (instance_ : Nat) (name : String)
  | exports (instance_ : Nat)
  | defineFunc (linker : Nat) (module name : String) (type : Signature) (code : Code κ)
      (captures : List Nat)
  | defineInstance (linker : Nat) (module : String) (instance_ : Nat)
  | defineModule (linker : Nat) (name : String) (module : Nat)
  | getDefault (linker : Nat) (module : String)
  | instantiate (linker module : Nat)

/-- A store that a program can use: one of its own, or that of the caller of its closure. -/
inductive StoreRef where
  | own (i : Nat)
  | caller

/-- What is asked of the library. -/
inductive Request (κ : Type) where
  | engine (config : EngineConfig)
  | incrementEpoch (engine : Nat)
  | store (engine : Nat) (limits : Option ExecutionConfig)
  | module (engine : Nat) (compiled : CompiledModule)
  | linker (engine : Nat)
  | allowShadowing (linker : Nat) (allow : Bool)
  | define (linker : Nat) (module name : String) (item : Nat)
  | get (linker : Nat) (module name : String)
  | object (data : HostData) (captures : List Nat)
  | log
  | clone (i : Nat)
  | drop (i : Nat)
  | argument (index : Nat)
  | captured (index : Nat)
  | callerExport (name : String)
  | query (store : StoreRef) (q : Query κ)

/-- What an operation gives: new things, by their places, and everything else that is told. -/
structure Answer where
  things : List Nat
  vals : List Val
  numbers : List Nat
  bytes : List UInt8
  names : List (String × ItemKind)
  type : Option ItemType

/-- Nothing is told. -/
def Answer.nothing : Answer := ⟨[], [], [], [], [], none⟩

/-- How a request ends. One that is refused names things that are not there, or that are in use. -/
inductive Reply where
  | answer (a : Answer)
  | failed (e : Error)
  | panicked (p : Payload)
  | refused

/-- A program: requests, and how it goes on after each reply. -/
inductive Program (κ α : Type) where
  | finish (a : α)
  | ask (r : Request κ) (next : Reply → Program κ α)

/-- How the program of a closure ends. Things that it gives are taken out of the pool. -/
inductive Ending where
  | values (vs : List Arg)
  | trap (t : Trap)
  | panic (p : Payload)

variable {κ α β : Type}

/-- What an embedder does to the world. -/
abbrev Job (κ α : Type) : Type 1 := Act (Code κ) Pool α

/-- The operations by which host code runs guest code. -/
structure Calls (κ : Type) where
  call : Nat → Handle → List Val → Job κ (List Val)
  instance_ : Nat → Nat → List Item → Job κ Handle
  instantiate : Nat → Nat → Nat → Job κ Handle
  defineModule : Nat → Nat → String → Nat → Job κ Unit

/-- Guest code runs with a meaning of closures. -/
def Calls.through (host : Runner (Code κ) Pool) : Calls κ where
  call := Func.call host
  instance_ := Instance.create host
  instantiate := Linker.instantiate host
  defineModule := Linker.defineModule host

/-- Where a program runs: in a closure it has a caller, arguments, and what the closure keeps
alive. -/
structure Setting (κ : Type) where
  calls : Calls κ
  caller : Option Caller
  args : List Val
  captures : List Capture

namespace Job

/-! ## The pool -/

/-- Changes the pool and gives a value. -/
def onPool (f : Pool → α × Pool) : Job κ α :=
  make fun w => ((f w.user).1, { w with user := (f w.user).2 })

/-- The reply to a request for things that are not there. -/
def refuse : Job κ Reply := pure .refused

/-- Runs an operation that refers to a thing. -/
def lending (i : Nat) (sort : Capture → Option β) (m : β → Job κ Reply) : Job κ Reply := do
  match ← onPool (·.lend i sort) with
  | some b => ensuring (onPool fun p => ((), p.restore i)) (m b)
  | none => refuse

/-- Runs an operation that refers to several things. -/
def lendingAll (sort : Capture → Option β) : List Nat → (List β → Job κ Reply) → Job κ Reply
  | [], m => m []
  | i :: is, m => lending i sort fun b => lendingAll sort is fun bs => m (b :: bs)

/-- A value as it is if it refers to nothing. -/
def plain (v : Val) : Val := if v.capture?.isSome then .i32 0 else v

/-- Runs an operation on an argument. -/
def lendingArg (a : Arg) (m : Val → Job κ Reply) : Job κ Reply :=
  match a with
  | .plain v => m (plain v)
  | .thing i => lending i Capture.val? m

/-- Runs an operation on arguments. -/
def lendingArgs : List Arg → (List Val → Job κ Reply) → Job κ Reply
  | [], m => m []
  | a :: as, m => lendingArg a fun v => lendingArgs as fun vs => m (v :: vs)

/-- Takes out what can be taken of several things. -/
def takeAll (sort : Capture → Option β) : List Nat → Job κ (List β)
  | [] => pure []
  | i :: is => do
    let b ← onPool (·.take i fun t => t.capture?.bind sort)
    let bs ← takeAll sort is
    return b.toList ++ bs

/-- Takes out what a closure gives. -/
def give : List Arg → Job κ (List Val)
  | [] => pure []
  | .plain v :: as => do
    let vs ← give as
    return plain v :: vs
  | .thing i :: as => do
    let v ← onPool (·.take i fun t => t.capture?.bind Capture.val?)
    let vs ← give as
    return v.getD (.i32 0) :: vs

/-- Puts a thing into the pool. -/
def own (t : Thing) : Job κ Nat := onPool (·.add t)

/-- Puts things into the pool. -/
def ownAll : List Capture → Job κ (List Nat)
  | [] => pure []
  | c :: cs => do
    let i ← own (.capture c)
    let is ← ownAll cs
    return i :: is

/-- Answers with new things, and whatever else is told. -/
def answer (cs : List Capture) (a : Answer) : Job κ Reply := do
  let things ← ownAll cs
  return .answer { a with things }

/-- Answers with a new wrapper. -/
def answerHandle (sort : HandleSort) (h : Handle) : Job κ Reply :=
  answer [.wrapper ⟨h, sort⟩] .nothing

/-- Answers with values. -/
def answerVals (vs : List Val) : Job κ Reply :=
  answer (vs.filterMap Val.capture?) { Answer.nothing with vals := vs }

/-- Answers with items under names. -/
def answerItems (items : List (String × Item)) : Job κ Reply :=
  answer (items.map fun i => .wrapper i.2.wrapper)
    { Answer.nothing with names := items.map fun i => (i.1, i.2.kind) }

/-- Answers with a number. -/
def answerNumber (n : Nat) : Job κ Reply := answer [] { Answer.nothing with numbers := [n] }

/-- Answers with bytes. -/
def answerBytes (bytes : List UInt8) : Job κ Reply := answer [] { Answer.nothing with bytes }

/-- Answers that it is done. -/
def answerDone : Job κ Reply := answer [] .nothing

/-- Runs an operation that makes closures or takes them away. -/
def counted (m : Job κ α) : Job κ α := do
  onPool fun p => ((), { p with making := p.making + 1 })
  ensuring (onPool fun p => ((), { p with making := p.making - 1 })) m

/-! ## Requests -/

/-- Lets go of a thing. A store is deleted. -/
def letGo : Thing → Job κ Unit
  | .store s => counted (deleteStore s)
  | .capture c => releaseCapture c

/-- Retains a thing once more and puts it into the pool. -/
def share (c : Capture) : Job κ Reply := do
  update (·.retainCapture c)
  answer [c] .nothing

/-- Retains a thing once more, if it is there. -/
def shareIf : Option Capture → Job κ Reply
  | some c => share c
  | none => refuse

/-- Runs an operation that refers to a handle of a sort. -/
def lendingHandle (sort : HandleSort) (i : Nat) (m : Handle → Job κ Reply) : Job κ Reply :=
  lending i (Capture.handle? sort) m

/-- Runs an operation that refers to an item of a sort. -/
def lendingItem (kind : ItemKind) (i : Nat) (m : Handle → Job κ Reply) : Job κ Reply :=
  lendingHandle (.item kind) i m

/-- Carries out a query in a store. -/
def query (calls : Calls κ) (s : Nat) : Query κ → Job κ Reply
  | .touch => do
    context s
    answerDone
  | .setFuel fuel => do
    Store.setFuel s fuel
    answerDone
  | .fuel => do answerNumber (← Store.fuel s)
  | .setDeadline ticks => do
    Store.setDeadline s ticks
    answerDone
  | .func raw code captures => do
    let captures ← takeAll some captures
    let h ← counted do
      context s
      Func.register s raw raw.shown code captures
    answerHandle (.item .func) h
  | .call f args => lendingItem .func f fun f => lendingArgs args fun args => do
    answerVals (← calls.call s f args)
  | .type i => lending i Capture.item? fun i => do
    answer [] { Answer.nothing with type := some (← Item.type s i) }
  | .globalNew type init => lendingArg init fun init => do
    answerHandle (.item .global) (← Global.create s type init)
  | .globalGet g => lendingItem .global g fun g => do answerVals [← Global.get s g]
  | .globalSet g v => lendingItem .global g fun g => lendingArg v fun v => do
    Global.set s g v
    answerDone
  | .memoryNew type => do answerHandle (.item .memory) (← Memory.create s type)
  | .memoryPages m => lendingItem .memory m fun m => do answerNumber (← Memory.pages s m)
  | .memorySize m => lendingItem .memory m fun m => do answerNumber (← Memory.size s m)
  | .memoryGrow m delta => lendingItem .memory m fun m => do answerNumber (← Memory.grow s m delta)
  | .memoryRead m offset len => lendingItem .memory m fun m => do
    answerBytes (← Memory.read s m offset len)
  | .memoryWrite m offset bytes => lendingItem .memory m fun m => do
    Memory.write s m offset bytes
    answerDone
  | .memoryData m f => lendingItem .memory m fun m => do answerBytes (← Memory.withData s m f)
  | .tableNew type init => lendingArg init fun init => do
    answerHandle (.item .table) (← Table.create s type init)
  | .tableSize t => lendingItem .table t fun t => do answerNumber (← Table.size s t)
  | .tableGet t index => lendingItem .table t fun t => do
    answerVals (← Table.get s t index).toList
  | .tableSet t index v => lendingItem .table t fun t => lendingArg v fun v => do
    Table.set s t index v
    answerDone
  | .tableGrow t delta init => lendingItem .table t fun t => lendingArg init fun init => do
    answerNumber (← Table.grow s t delta init)
  | .close i => do
    match ← onPool (·.take i fun t => t.capture?.bind Capture.wrapper?) with
    | some x =>
      close s x.handle
      answerDone
    | none => refuse
  | .instance_ m imports => lending m Capture.module? fun m =>
    lendingAll Capture.item? imports fun imports => do
      answerHandle .instance_ (← calls.instance_ s m imports)
  | .getExport i name => lendingHandle .instance_ i fun i => do
    answerItems ((← Instance.getExport s i name).toList.map fun item => (name, item))
  | .getFunc i name => lendingHandle .instance_ i fun i => do
    answerItems ((← Instance.getFunc s i name).toList.map fun h => (name, ⟨.func, h⟩))
  | .exports i => lendingHandle .instance_ i fun i => do answerItems (← Instance.exports s i)
  | .defineFunc l module name type code captures => lending l Capture.linker? fun l => do
    let captures ← takeAll some captures
    counted (Linker.defineFunc s l module name type code captures)
    answerDone
  | .defineInstance l module i => lending l Capture.linker? fun l =>
    lendingHandle .instance_ i fun i => do
      Linker.defineInstance s l module i
      answerDone
  | .defineModule l name m => lending l Capture.linker? fun l =>
    lending m Capture.module? fun m => do
      calls.defineModule s l name m
      answerDone
  | .getDefault l module => lending l Capture.linker? fun l => do
    answerHandle (.item .func) (← counted (Linker.getDefault s l module .idle))
  | .instantiate l m => lending l Capture.linker? fun l =>
    lending m Capture.module? fun m => do
      answerHandle .instance_ (← calls.instantiate s l m)

/-- Runs an operation on a store, which nobody else can use at the same time. -/
def onStore (at_ : Setting κ) (ref : StoreRef) (m : Nat → Job κ Reply) : Job κ Reply :=
  match ref, at_.caller with
  | .caller, some c => m c.store
  | .caller, none => refuse
  | .own i, _ => do
    match ← onPool (·.take i Thing.store?) with
    | some s => ensuring (onPool fun p => ((), p.put i (.store s))) (m s)
    | none => refuse

/-- Carries out a request. -/
def carryOut (at_ : Setting κ) : Request κ → Job κ Reply
  | .engine config => do answer [.engine (← Engine.create config)] .nothing
  | .incrementEpoch e => lending e Capture.engine? fun e => do
    Engine.incrementEpoch e
    answerDone
  | .store e limits => lending e Capture.engine? fun e => do
    let s ← counted (match limits with
      | some limits => Store.createWith e limits
      | none => Store.create e)
    let i ← own (.store s)
    return .answer { Answer.nothing with things := [i] }
  | .module e compiled => lending e Capture.engine? fun e => do
    answer [.module (← make (·.newModule e compiled))] .nothing
  | .linker e => lending e Capture.engine? fun e => do
    answer [.linker (← make (·.newLinker e))] .nothing
  | .allowShadowing l allow => lending l Capture.linker? fun l => do
    Linker.allowShadowing l allow
    answerDone
  | .define l module name i => lending l Capture.linker? fun l => do
    match ← onPool (·.take i fun t => t.capture?.bind Capture.item?) with
    | some item =>
      Linker.define l module name item
      answerDone
    | none => refuse
  | .get l module name => lending l Capture.linker? fun l => do
    answerItems ((← Linker.get? l module name).toList.map fun item => (name, item))
  | .object data captures => do
    let captures ← takeAll Capture.wrapper? captures
    answer [.object (← make (·.newObject data captures))] .nothing
  | .log => do answerNumber (← make (·.newLog))
  | .clone i => lending i some share
  | .drop i => do
    match ← onPool (·.take i some) with
    | some t =>
      letGo t
      answerDone
    | none => refuse
  | .argument index => shareIf ((at_.args[index]?).bind Val.capture?)
  | .captured index => shareIf at_.captures[index]?
  | .callerExport name =>
    match at_.caller with
    | some c => do answerItems ((← c.getExport name).toList.map fun item => (name, item))
    | none => refuse
  | .query ref q => onStore at_ ref fun s => query at_.calls s q

/-- The reply to a request. Errors and panics come back to the program. -/
def reply (at_ : Setting κ) (r : Request κ) : Job κ Reply := do
  match ← catchPanic (attempt (carryOut at_ r)) with
  | .ok (.ok reply) => return reply
  | .ok (.error e) => return .failed e
  | .error p => return .panicked p

end Job

/-! ## Running programs -/

/-- Runs a program. -/
def Program.run (at_ : Setting κ) : Program κ α → Job κ α
  | .finish a => pure a
  | .ask r next => do
    let reply ← Job.reply at_ r
    (next reply).run at_

/-- Runs the program of a closure. -/
def Program.runClosure (at_ : Setting κ) (p : Program κ Ending) :
    Job κ (Except Trap (List Val)) := do
  match ← p.run at_ with
  | .values vs => return .ok (← Job.give vs)
  | .trap t => return .error t
  | .panic p => panic p

/-- An embedder: the programs of its closures, for what each keeps alive and is called with. -/
abbrev Embedder (κ : Type) : Type := κ → List Capture → List Val → Program κ Ending

/-- The meaning of closures of an embedder whose calls have a meaning. -/
def Embedder.host (embedder : Embedder κ) (calls : Calls κ) : Runner (Code κ) Pool :=
  Code.host fun code captures caller args =>
    (embedder code captures args).runClosure ⟨calls, some caller, args, captures⟩

/-- The meaning of the closures of an embedder, nested up to a depth. -/
def Embedder.hostTo (embedder : Embedder κ) : Nat → Runner (Code κ) Pool
  | 0 => fun _ _ _ _ => exhaust
  | depth + 1 => embedder.host (Calls.through (embedder.hostTo depth))

/-! ## Threads -/

/-- Threads, each with what it has yet to do, and the world they share. -/
structure Threads (κ : Type) where
  rest : List (Job κ Unit)
  world : World (Code κ) Pool

/-- A thread takes one step. A thread that has ended stays as it is. -/
def Threads.step (t : Threads κ) (i : Nat) : Threads κ :=
  match t.rest[i]? with
  | some (.step f next) => ⟨t.rest.set i (next (f t.world).1), (f t.world).2⟩
  | _ => t

/-- Threads take steps in an order. -/
def Threads.run (t : Threads κ) (order : List Nat) : Threads κ := order.foldl Threads.step t

/-- Programs of an embedder at their start, on a world without contents. -/
def Embedder.start (embedder : Embedder κ) (depth : Nat) (programs : List (Program κ Unit)) :
    Threads κ where
  rest := programs.map (Program.run ⟨Calls.through (embedder.hostTo depth), none, [], []⟩)
  world := .empty .empty

end WasmHost.Host
