import WasmHost.Host.Limits
import WasmHost.Script.Step

/-!
# What scripts work on

A session has objects and stores under names. Each named object has a share of its own in what it
stands for. While a step runs it holds clones of the objects it names; they are released when the
step ends, and so is a result that is not kept.

The other fields are bookkeeping: which stores are running a step, what the running step holds, and
what closures have done since the last step of the script began.
-/

namespace WasmHost.Script

open WasmHost.Host

/-- A named object. -/
inductive Object where
  | engine (e : Nat)
  | module (m : Nat)
  | linker (l : Nat)
  | item (i : Item)
  | instance_ (h : Handle)
  | val (v : Val)
  | ref (o : ObjectId)
  | sink (k : Nat)
  deriving DecidableEq, Repr

/-- A value as an answer shows it: a function reference only by whether it is one, a host object by
its data and the names under which it is known. -/
inductive Shown where
  | i32 (bits : BitVec 32)
  | i64 (bits : BitVec 64)
  | f32 (bits : BitVec 32)
  | f64 (bits : BitVec 64)
  | funcref (isSome : Bool)
  | externref (object : Option (Option HostData × List String))
  deriving Repr

/-- What a step answers. -/
inductive Answer where
  | nothing
  | flag (b : Bool)
  | text (s : String)
  | number (n : Nat)
  | numbers (a b : Nat)
  | bytes (bs : List UInt8)
  | value (v : Shown)
  | values (vs : List Shown)
  /-- The contents of a value. -/
  | contents (v : Shown)
  | type (t : ItemType)
  | interface (imports : List ImportType) (exports : List ExportType)
  | entries (es : List LogEntry)
  | names (ns : List (String × ItemKind))
  | literal (kind : Kind) (text debug : String)
  | sort (kind : ItemKind)
  | store (same : Bool) (debug : String)
  deriving Repr

/-- How a step ends. -/
inductive Result where
  | answer (a : Answer)
  | failed (e : Error)
  /-- A module could not be loaded. -/
  | unloadable (e : Error)
  | refused (c : Complaint)
  | panicked (p : Payload)
  deriving Repr

/-- What a closure does that a trace shows. -/
inductive Event where
  | entered (label : String) (args : List Shown)
  | performed (r : Result)
  | left (label : String) (values : List Shown)
  deriving Repr

/-- The state of a script. -/
structure Session where
  objects : List (String × Object)
  stores : List (String × Nat)
  running : List Nat
  held : List Object
  trace : List Event

/-- Nothing has a name. -/
def Session.empty : Session := ⟨[], [], [], [], []⟩

/-- The world of a script. -/
abbrev Scene : Type := World (Code Program) Session

/-- What a script does to its world. -/
abbrev Play (α : Type) : Type 1 := Act (Code Program) Session α

/-- An action of a script that may be refused. -/
abbrev Job (α : Type) : Type 1 := ExceptT Complaint (Act (Code Program) Session) α

/-! ## Names -/

section

variable {α : Type}

/-- Forgets a name. -/
def unname (names : List (String × α)) (name : String) : List (String × α) :=
  names.filter (·.1 != name)

/-- Gives a name to something; what had the name has it no longer. -/
def rename (names : List (String × α)) (name : String) (a : α) : List (String × α) :=
  unname names name ++ [(name, a)]

end

/-! ## Sharing -/

/-- One share more of what an object stands for. -/
def retain (w : Scene) : Object → Scene
  | .engine e => w.retainEngine e
  | .module m => w.retainModule m
  | .linker l => w.retainLinker l
  | .item i => w.retainHandle i.handle
  | .instance_ h => w.retainHandle h
  | .val v => w.retainVal v
  | .ref o => w.retainObject o
  | .sink _ => w

/-- One share less of what an object stands for. -/
def release : Object → Play Unit
  | .engine e => Act.releaseEngine e
  | .module m => Act.releaseModule m
  | .linker l => Act.releaseLinker l
  | .item i => Act.releaseHandle i.handle
  | .instance_ h => Act.releaseHandle h
  | .val v => Act.releaseVal v
  | .ref o => Act.releaseObject o
  | .sink _ => pure ()

/-- Releases objects in order. -/
def releaseAll : List Object → Play Unit
  | [] => pure ()
  | o :: rest => do
    release o
    releaseAll rest

/-- Changes the session. -/
def onSession (w : Scene) (f : Session → Session) : Scene := { w with user := f w.user }

/-- Changes the session and gives something that was in it. -/
def exchange {α : Type} (get : Session → α) (f : Session → Session) : Play α :=
  Act.make fun w => (get w.user, onSession w f)

/-- The running step holds an object until it ends. -/
def hold (w : Scene) (o : Object) : Scene :=
  onSession w fun s => { s with held := o :: s.held }

/-- Names an object. An object that had the name is released. -/
def bindName (name : String) (o : Object) : Play Unit := do
  match ← exchange (·.objects.lookup name) fun s => { s with objects := rename s.objects name o } with
  | some old => release old
  | none => return ()

/-- Names a store. A store that had the name is deleted. -/
def bindStore (name : String) (number : Nat) : Play Unit := do
  match ← exchange (·.stores.lookup name) fun s => { s with stores := rename s.stores name number }
  with
  | some old => Act.deleteStore old
  | none => return ()

/-- Keeps a new object under a name, or until the running step ends. -/
def keepNew (name : Option String) (o : Object) : Play Unit :=
  match name with
  | some name => bindName name o
  | none => Act.update fun w => hold w o

/-- Keeps a clone of an object if there is a name for it. -/
def keepClone (name : Option String) (o : Object) : Play Unit :=
  match name with
  | some name => do
    Act.update fun w => retain w o
    bindName name o
  | none => return ()

/-- Runs an action with nothing held, and then releases what it holds. -/
def holding {α : Type} (m : Play α) : Play α := do
  let outer ← exchange (·.held) fun s => { s with held := [] }
  Act.ensuring (do releaseAll (← exchange (·.held) fun s => { s with held := outer })) m

/-- Runs an action while a store counts as running. -/
def whileRunning {α : Type} (s : Nat) (m : Play α) : Play α := do
  let outer ← exchange (·.running) fun u => { u with running := s :: u.running }
  Act.ensuring (Act.update fun w => onSession w fun u => { u with running := outer }) m

/-! ## What answers show -/

/-- The names under which a host object is known, in order. -/
def objectNames (s : Session) (o : ObjectId) : List String :=
  ((s.objects.filter fun n => n.2 == .ref o).map (·.1)).mergeSort (· ≤ ·)

/-- How a value is shown. -/
def shown (w : Scene) : Val → Shown
  | .i32 x => .i32 x
  | .i64 x => .i64 x
  | .f32 x => .f32 x
  | .f64 x => .f64 x
  | .funcref f => .funcref f.isSome
  | .externref none => .externref none
  | .externref (some o) =>
    .externref (some ((w.objects[o]?).map ObjectCell.data, objectNames w.user o))

/-- The identifier of a sort of item. -/
def sortName : ItemKind → String
  | .func => "Func"
  | .global => "Global"
  | .memory => "Memory"
  | .table => "Table"

/-- What hides the contents of an object that is shown. -/
def hidden (name : String) : String := name ++ " \x7b .. \x7d"

/-- How an object is shown. -/
def Object.debugText (w : Scene) : Object → String
  | .engine e => ((w.engines[e]?).map (·.config.debugText)).getD ""
  | .module m => ((w.modules[m]?).map (·.compiled.debugText)).getD ""
  | .linker l => ((w.linkers[l]?).map Linker.debugText).getD ""
  | .item i => sortName i.kind ++ "(" ++ hidden (sortName i.kind) ++ ")"
  | .instance_ _ => hidden "Instance"
  | .val v => v.debugText
  | .ref _ => hidden "ExternRef"
  | .sink k => toString (((w.logs[k]?).map (·.entries.length)).getD 0)

/-- The number of closures that scripts have made and that are still registered. -/
def liveClosures (w : Scene) : Nat :=
  (w.registry.values.filter fun r =>
    match r.code with
    | .custom _ => true
    | _ => false).length

/-- The number of handles that wait, for each named store. -/
def pendingByName (w : Scene) : List (String × Nat) :=
  w.user.stores.map fun (name, s) => (name, w.pending s)

end WasmHost.Script
