import WasmHost.Host.Item

/-!
# Instances

An instance is made from a module and a list of items, one for each import in the order of the
module. Its exports are handed out as new handles each time they are asked for; an export that the
host has no view of is skipped, but a handle has been made for it, and waits.
-/

namespace WasmHost.Host

open Act

variable {κ σ : Type}

/-- Hands out an export: a new handle, and the item unless the host has no view of it. -/
def handOut (s : Nat) (place : Guest.Place) : Act κ σ (Option Item) := do
  let (h, target) ← orAbort .stuck (← make (·.newExport s place))
  match target with
  | .item _ place => return some ⟨place.kind, h⟩
  | _ =>
    releaseHandle h
    return none

/-- Hands out the exports from an index on, one index after the other, until there is none at an index.
Those the host has no view of are left out. -/
def handOutFrom (s : Nat) (exports : List (String × Guest.Place)) (index : Nat) :
    Act κ σ (List (String × Item)) :=
  match h : exports[index]? with
  | none => pure []
  | some (name, place) => do
    have := (List.getElem?_eq_some_iff.mp h).1
    let item ← handOut s place
    let items ← handOutFrom s exports (index + 1)
    match item with
    | some item => return (name, item) :: items
    | none => return items
termination_by exports.length - index

/-- Hands out several exports, leaving out those the host has no view of. -/
def handOutAll (s : Nat) : List (String × Guest.Place) → Act κ σ (List (String × Item))
  | [] => pure []
  | (name, place) :: rest => do
    let item ← handOut s place
    let items ← handOutAll s rest
    match item with
    | some item => return (name, item) :: items
    | none => return items

/-- No export is missed by going through the indices: there is one at each until they end. -/
theorem handOutFrom_eq (s : Nat) (exports : List (String × Guest.Place)) (index : Nat) :
    (handOutFrom s exports index : Act κ σ (List (String × Item))) =
      handOutAll s (exports.drop index) := by
  fun_induction handOutFrom s exports index with
  | case1 index hnone =>
    rw [List.drop_eq_nil_of_le (List.getElem?_eq_none_iff.mp hnone)]
    rfl
  | case2 index name place hsome _ ih =>
    obtain ⟨hlt, hat⟩ := List.getElem?_eq_some_iff.mp hsome
    rw [List.drop_eq_getElem_cons hlt, hat, handOutAll]
    simp only [ih]

/-- Calls the start function of a new instance, if it has one. -/
def callStart (host : Runner κ σ) (s : Nat) (started : Guest.Started) :
    Act κ σ (Except Guest.Failure Unit) := do
  match started.start with
  | none => return .ok ()
  | some place => return (← callPlace host s place (some started.instance_) []).map fun _ => ()

namespace Instance

/-- The instance a handle stands for. -/
def at_ (s : Nat) (i : Handle) : Act κ σ Guest.Instance := do
  match (← check s i).target with
  | .instance_ t n =>
    hand s t
    orAbort .stuck ((← guest s).instances[n]?)
  | _ => abort (.dangling i)

/-- The places of items of a store. -/
def places (s : Nat) : List Item → Act κ σ (List Guest.Place)
  | [] => pure []
  | item :: rest => do
    let p ← place s item.handle
    let ps ← places s rest
    return p :: ps

/-- Checks that items belong to a store. -/
def checkAll (s : Nat) : List Item → Act κ σ Unit
  | [] => pure ()
  | item :: rest => do
    let _ ← check s item.handle
    checkAll s rest

/-- Makes an instance and runs its start function. -/
def create (host : Runner κ σ) (s : Nat) (module : Nat) (imports : List Item) :
    Act κ σ Handle := do
  context s
  let w ← world
  let cell ← orAbort .stuck w.modules[module]?
  let store ← orAbort .stuck w.stores[s]?
  if store.engine ≠ cell.engine then fail (.engine .foreignEngine)
  let expected := cell.compiled.code.imports.size
  if imports.length ≠ expected then fail (.importCount expected imports.length)
  checkAll s imports
  let bulk :=
    ((w.engines[store.engine]?).map fun e => e.config.features.features.bulkMemory).getD true
  let places ← places s imports
  match ← onGuest s fun g => Guest.instantiate g bulk cell.compiled.code places with
  | .error failure => raise s failure
  | .ok started =>
    match ← callStart host s started with
    | .error failure => raise s failure
    | .ok () => make (·.newHandle s (.instance_ s started.instance_))

/-- The export with a name, if the host has a view of it. -/
def getExport (s : Nat) (i : Handle) (name : String) : Act κ σ (Option Item) := do
  context s
  match (← at_ s i).export? name with
  | none => return none
  | some place => handOut s place

/-- The exported function with a name. An export of another sort is given back at once. -/
def getFunc (s : Nat) (i : Handle) (name : String) : Act κ σ (Option Handle) := do
  match ← getExport s i name with
  | some ⟨.func, h⟩ => return some h
  | some item =>
    releaseHandle item.handle
    return none
  | none => return none

/-- All exports the host has a view of, in order. -/
def exports (s : Nat) (i : Handle) : Act κ σ (List (String × Item)) := do
  context s
  handOutFrom s (← at_ s i).exports 0

theorem exports_eq (s : Nat) (i : Handle) : (exports s i : Act κ σ (List (String × Item))) =
    (do context s; handOutAll s (← at_ s i).exports) := by
  simp only [exports, handOutFrom_eq, List.drop_zero]

end Instance

namespace Caller

/-- The export with a name of the instance that called, if the host has a view of it. -/
def getExport (c : Caller) (name : String) : Act κ σ (Option Item) := do
  context c.store
  match c.instance_.bind ((← guest c.store).instances[·]?) with
  | none => return none
  | some i =>
    match i.export? name with
    | none => return none
    | some place => handOut c.store place

end Caller

end WasmHost.Host
