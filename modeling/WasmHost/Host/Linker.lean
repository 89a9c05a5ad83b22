import WasmHost.Host.Instance

/-!
# Linkers

A linker maps pairs of a module and a name to items, and finds the imports of a module by them.
While shadowing is off, a pair that is defined stays as it is.
-/

namespace WasmHost.Host

open Act

namespace Definitions

/-- The item of a pair. -/
def get? (defs : Definitions) (module name : String) : Option Item :=
  (defs.find? fun d => d.1.1 == module && d.1.2 == name).map (·.2)

/-- Replaces the item of a pair, or adds it. -/
def put (defs : Definitions) (module name : String) (item : Item) : Definitions :=
  match defs with
  | [] => [((module, name), item)]
  | d :: rest =>
    if d.1.1 = module ∧ d.1.2 = name then ((module, name), item) :: rest
    else d :: put rest module name item

/-- The items of imports in order, or the first import without one. -/
def resolve (defs : Definitions) : List ImportType → Except Error (List Item)
  | [] => .ok []
  | i :: rest =>
    match get? defs i.module i.name with
    | none => .error (.unknownImport i.module i.name)
    | some item => (resolve defs rest).map (item :: ·)

end Definitions

variable {κ σ : Type}

/-! ## Single steps -/

namespace World

/-- Defines a pair, which takes over the item's share. If the pair is taken, the item is left to be
released, and else what the pair stood for before. -/
def define (w : World κ σ) (l : Nat) (module name : String) (item : Item) :
    Option (Bool × List Item) × World κ σ :=
  match w.linkers[l]? with
  | none => (none, w)
  | some c =>
    let old := Definitions.get? c.definitions module name
    if !c.shadowing && old.isSome then (some (false, [item]), w)
    else
      (some (true, old.toList), { w with
        linkers := w.linkers.modify l fun c =>
          { c with definitions := Definitions.put c.definitions module name item } })

/-- Retains items in order. -/
def retainItems (w : World κ σ) (items : List Item) : World κ σ :=
  items.foldl (fun w i => w.retainHandle i.handle) w

/-- Items that the definitions of a linker choose. They are retained. -/
def takeItems (w : World κ σ) (l : Nat) (choose : Definitions → Except Error (List Item)) :
    Option (Except Error (List Item)) × World κ σ :=
  match (w.linkers[l]?).map fun c => choose c.definitions with
  | none => (none, w)
  | some (.error e) => (some (.error e), w)
  | some (.ok items) => (some (.ok items), w.retainItems items)

end World

namespace Linker

/-- A linker. -/
def cell (l : Nat) : Act κ σ LinkerCell := do orAbort .stuck (← world).linkers[l]?

/-- Turns shadowing on or off. -/
def allowShadowing (l : Nat) (allow : Bool) : Act κ σ Unit :=
  update fun w => { w with linkers := w.linkers.modify l fun c => { c with shadowing := allow } }

/-- Items that the definitions of a linker choose. They are retained. -/
def take (l : Nat) (choose : Definitions → Except Error (List Item)) : Act κ σ (List Item) := do
  ofExcept (← orAbort .stuck (← make (·.takeItems l choose)))

/-- The item of a pair. -/
def get? (l : Nat) (module name : String) : Act κ σ (Option Item) := do
  return (← take l fun defs => .ok (Definitions.get? defs module name).toList).head?

/-- Defines a pair. The linker takes over the item's share, or releases it if the pair is taken. -/
def define (l : Nat) (module name : String) (item : Item) : Act κ σ Unit := do
  let (defined, left) ← orAbort .stuck (← make (·.define l module name item))
  releaseItems left
  if !defined then fail (.duplicateDefinition module name)

/-- Defines several names of a module, up to the first that is taken; what is left is let go of. -/
def defineAll (l : Nat) (module : String) : List (String × Item) → Act κ σ Unit
  | [] => pure ()
  | (name, item) :: rest => do
    onUnwind (releaseItems (rest.map (·.2))) (define l module name item)
    defineAll l module rest

/-- Makes a function out of a closure and defines it. -/
def defineFunc (s l : Nat) (module name : String) (type : Signature) (code : κ)
    (captures : List Capture) : Act κ σ Unit := do
  define l module name ⟨.func, ← Func.create s type code captures⟩

/-- Defines all exports of an instance as the names of a module. -/
def defineInstance (s l : Nat) (module : String) (instance_ : Handle) : Act κ σ Unit := do
  defineAll l module (← Instance.exports s instance_)

/-- Makes an instance whose imports are found by name. -/
def instantiate (host : Runner κ σ) (s l : Nat) (module : Nat) : Act κ σ Handle := do
  let m ← orAbort .stuck (← world).modules[module]?
  let items ← take l (Definitions.resolve · m.compiled.imports)
  ensuring (releaseItems items) (Instance.create host s module items)

/-- Makes an instance and defines its exports as the names of a module. -/
def defineModule (host : Runner κ σ) (s l : Nat) (name : String) (module : Nat) :
    Act κ σ Unit := do
  let i ← instantiate host s l module
  ensuring (releaseHandle i) (defineInstance s l name i)

/-- The names under which a module's default function may be defined, the preferred one first. -/
def defaultNames : List String := ["", "_start"]

/-- The first of a module's default definitions. -/
def default? (defs : Definitions) (module : String) : Option (String × Item) :=
  defaultNames.findSome? fun name =>
    (Definitions.get? defs module name).map fun item => (name, item)

/-- The default definition of a module, if there is one; it must be a function. -/
def chooseDefault (module : String) (defs : Definitions) : Except Error (List Item) :=
  match default? defs module with
  | some (_, ⟨.func, h⟩) => .ok [⟨.func, h⟩]
  | some (name, item) => .error (.engine (.defaultNotFunc module name item.kind))
  | none => .ok []

/-- The default function of a module: the definition under the first of the default names, or a new
function that does nothing. -/
def getDefault (s l : Nat) (module : String) (idle : κ) : Act κ σ Handle := do
  match ← take l (chooseDefault module) with
  | item :: _ => return item.handle
  | [] => Func.create s ⟨[], []⟩ idle []

/-- How a linker is shown. -/
def debugText (c : LinkerCell) : String :=
  "Linker \x7b definitions: " ++ toString c.definitions.length ++ ", .. \x7d"

end Linker

end WasmHost.Host
