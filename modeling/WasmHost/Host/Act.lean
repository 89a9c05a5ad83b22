import WasmHost.Host.World
import WasmHost.Error

/-!
# Actions

An action is a tree of steps. Each step changes the world at one go and gives something on which the
rest of the action depends; between two steps, other threads may change the world as well. A thread
that is alone simply runs an action from its first step to its last (`Act.run`).

An action ends in one of five ways: with a value, with an error, with a panic that unwinds, because
a rule of ownership was broken, or because a bound on the work ran out. The last two do not happen
in runs of interest; nothing is cleaned up after them, and nothing else is claimed of them.
-/

namespace WasmHost.Host

/-- How an action ends. -/
inductive Outcome (α : Type) where
  | value (a : α)
  | failure (e : Error)
  | panic (p : Payload)
  | aborted (f : Fault)
  | exhausted
  deriving Repr

/-- An action came to an end of its own. -/
def Outcome.ends {α : Type} : Outcome α → Bool
  | aborted _ | exhausted => false
  | _ => true

/-- An action on the world. -/
inductive Act (κ σ α : Type) : Type 1 where
  | done (r : Outcome α)
  | step {β : Type} (f : World κ σ → β × World κ σ) (next : β → Act κ σ α)

variable {κ σ α β : Type}

/-- Goes on with the value of an outcome, if it is one. -/
def Outcome.go (r : Outcome α) (f : α → Act κ σ β) : Act κ σ β :=
  match r with
  | .value a => f a
  | .failure e => .done (.failure e)
  | .panic p => .done (.panic p)
  | .aborted f => .done (.aborted f)
  | .exhausted => .done .exhausted

namespace Act

/-- Runs an action to its end. -/
def run : Act κ σ α → World κ σ → Outcome α × World κ σ
  | .done r, w => (r, w)
  | .step f next, w =>
    match f w with
    | (b, w) => (next b).run w

instance : CoeFun (Act κ σ α) fun _ => World κ σ → Outcome α × World κ σ := ⟨run⟩

/-- Goes on after an action, however it ends. -/
def after : Act κ σ α → (Outcome α → Act κ σ β) → Act κ σ β
  | .done r, k => k r
  | .step f next, k => .step f fun b => (next b).after k

instance : Monad (Act κ σ) where
  pure a := .done (.value a)
  bind m f := m.after (·.go f)

/-! ## Single steps -/

/-- Changes the world and gives a value. -/
def make (f : World κ σ → α × World κ σ) : Act κ σ α := .step f fun a => .done (.value a)

/-- The world as it is. -/
def world : Act κ σ (World κ σ) := make fun w => (w, w)

/-- Changes the world. -/
def update (f : World κ σ → World κ σ) : Act κ σ Unit := make fun w => ((), f w)

/-- Records a broken rule and ends. -/
def abort (f : Fault) : Act κ σ α := .step (fun w => ((), w.fault f)) fun _ => .done (.aborted f)

/-! ## Ways to end -/

/-- Ends with an error. -/
def fail (e : Error) : Act κ σ α := .done (.failure e)

/-- Panics. -/
def panic (p : Payload) : Act κ σ α := .done (.panic p)

/-- A bound has run out. -/
def exhaust : Act κ σ α := .done .exhausted

/-- The value of an option, or a broken rule. -/
def orAbort (f : Fault) : Option α → Act κ σ α
  | some a => pure a
  | none => abort f

/-- Lifts a result that is already there. -/
def ofExcept : Except Error α → Act κ σ α
  | .ok a => pure a
  | .error e => fail e

/-! ## What happens however an action ends -/

/-- Turns an error of an action into a value. -/
def attempt (m : Act κ σ α) : Act κ σ (Except Error α) :=
  m.after fun
    | .failure e => pure (.error e)
    | r => r.go fun a => pure (.ok a)

/-- Turns a panic of an action into a value. -/
def catchPanic (m : Act κ σ α) : Act κ σ (Except Payload α) :=
  m.after fun
    | .panic p => pure (.error p)
    | r => r.go fun a => pure (.ok a)

/-- Does something at the end of an action, unless it came to no end of its own. -/
def ensuring (cleanup : Act κ σ Unit) (m : Act κ σ α) : Act κ σ α :=
  m.after fun r => if r.ends then cleanup.after (·.go fun _ => .done r) else .done r

/-- Does something if an action ends with an error or a panic. -/
def onUnwind (cleanup : Act κ σ Unit) (m : Act κ σ α) : Act κ σ α :=
  m.after fun
    | .failure e => cleanup.after (·.go fun _ => .done (.failure e))
    | .panic p => cleanup.after (·.go fun _ => .done (.panic p))
    | r => .done r

end Act

end WasmHost.Host
