import WasmHost.Proofs.GuestFunctions

/-!
# Guest functions that only pass on

A guest function may do no more than push its parameters, call a function of the same type, and end.
A chain of such functions ends at a host function. A thread that enters the chain comes to call the
host function with the very arguments it was entered with, unless it runs into one of its limits on
the way; and whatever the host function gives is what the thread finishes with.

Such functions are the simplest guest code that a call can go through, and they are there in
practice: a module that imports a function and exports it again under another name, or wraps it.
They are needed here to state what happens to values on their way through *guest code* without a
semantics of the guest that would be more than the code itself. The whole run is computed, step by
step. Pushing one parameter takes one step of fuel, so the run of one function has a length that
depends on its type; `advance_pushed` is the induction over the parameters.

The limits cannot be excluded. Entering a function may overflow the stack, exhaust the fuel or run
into the deadline, and where this happens depends on what has run before. So every statement has
this case beside the other one, and what it says of the case is that nothing was called.
-/

namespace WasmHost.Guest

open Wasm

/-! ## Chains -/

/-- The instructions of a function that passes its parameters on to another one. -/
def passingCode (params callee : Nat) : List Instr :=
  (List.range params).map Instr.localGet ++ [.call callee, .end_]

/-- From a place, functions that only pass on lead to the host function with a key. -/
inductive Store.Passes (s : Store) (key : Nat) (type : Signature) : Nat → Prop where
  /-- The host function itself. -/
  | host {place : Nat} (h : s.funcs[place]? = some (.host key type)) : Passes s key type place
  /-- A function that passes its parameters on. -/
  | guest {place instance_ func callee next : Nat} {body : Body} {i : Instance}
      (h : s.funcs[place]? = some (.guest instance_ func type body))
      (hcode : body.code.toList.map (·.instr) = passingCode type.params.length callee)
      (hi : s.instances[instance_]? = some i) (hcallee : i.funcs[callee]? = some next)
      (hnext : Passes s key type next) : Passes s key type place

/-- A chain leads to a function of the same type. -/
theorem Store.Passes.type_eq {s : Store} {key place : Nat} {type : Signature}
    (h : s.Passes key type place) : (s.funcs[place]?).map (·.type) = some type := by
  cases h with
  | host h => simp [h, Func.type]
  | guest h => simp [h, Func.type]

/-- The limits at which a thread may be stopped when it enters a function. -/
def LimitsEntry (code : TrapCode) : Prop :=
  code = .stackOverflow ∨ code = .outOfFuel ∨ code = .interrupt

/-! ## Back from the host function

The activations of a chain wait at their calls. With the results of the host function each of them
ends, from the innermost to the outermost. -/

/-- An activation that has called, with nothing left on its operand stack, and then ends. -/
structure Activation.Ending (a : Activation) (results : Nat) : Prop where
  arity : a.arity = results
  operands : a.operands = []
  labels : a.labels = []
  code : ∃ offset, a.body.code[a.pc + 1]? = some ⟨offset, .end_⟩

/-- What a thread that passes `args` on may come to. -/
inductive Passed (key : Nat) (type : Signature) (args : List Value) (thread : List Activation)
    (fuel : Nat) : Event → Prop where
  /-- It calls the host function with the same arguments. -/
  | called {passing : List Activation} {caller : Option Nat}
      (hends : ∀ a ∈ passing, a.Ending type.results.length) (hfuel : passing.length ≤ fuel) :
      Passed key type args thread fuel (.called key type args caller (passing ++ thread))
  /-- It is stopped by a limit. -/
  | limited {code : TrapCode} (h : LimitsEntry code) (frames : List Frame) :
      Passed key type args thread fuel (.trapped (.coded code) frames)
  /-- It would take more steps than there is fuel for. -/
  | timeout : Passed key type args thread fuel .timeout

variable {s : Store} {a : Activation} {thread : List Activation} {args : List Value}

/-- What the rest of a chain comes to, the whole chain comes to. -/
theorem Passed.through {key : Nat} {type : Signature} {fuel : Nat} {event : Event}
    (ha : a.Ending type.results.length) (h : Passed key type args (a :: thread) fuel event) :
    Passed key type args thread (fuel + 1) event := by
  cases h with
  | @called passing caller hends hfuel =>
    rw [show passing ++ a :: thread = (passing ++ [a]) ++ thread by simp]
    refine .called (fun b hb => ?_) (by simpa using hfuel)
    rcases List.mem_append.mp hb with hb | hb
    · exact hends b hb
    · obtain rfl := List.mem_singleton.mp hb
      exact ha
  | limited h frames => exact .limited h frames
  | timeout => exact .timeout

theorem Passed.mono {key : Nat} {type : Signature} {fuel fuel' : Nat} {event : Event}
    (h : Passed key type args thread fuel event) (hle : fuel ≤ fuel') :
    Passed key type args thread fuel' event := by
  cases h with
  | called hends hfuel => exact .called hends (Nat.le_trans hfuel hle)
  | limited h frames => exact .limited h frames
  | timeout => exact .timeout

end WasmHost.Guest
