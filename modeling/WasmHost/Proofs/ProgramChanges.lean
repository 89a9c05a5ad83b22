import WasmHost.Proofs.OperationChanges

/-!
# The changes of programs

Whatever a program asks for, each step of it makes one of the changes that were listed. So does each step
of a closure, to whatever depth closures call one another, and each step of a collector: this is all that
threads ever do to the world.

Between programs and operations stand requests. A request borrows what it names from the pool,
performs an operation on it, and gives what comes of it back to the pool; all but the operation are
changes of the pool alone (`Change.user`). So for each of the ways of borrowing and giving there is
a lemma, and a request is one of these around an operation.

The result is `Threads.Every.run`: if a property holds of every change on the list, every step of
any thread in any order has it. This is the form in which the modules about runs use the list.
-/

namespace WasmHost.Host

open Act

variable {κ α β : Type} {S : (World (Code κ) Pool → World (Code κ) Pool) → Prop} [Change.Permissive S]

namespace Job

/-! ## The pool -/

theorem onPool_every (f : Pool → α × Pool) : (onPool f : Job κ α).Every S :=
  .routine (.user fun p => (f p).2) trivial fun _ => rfl

theorem lending_every {i : Nat} {sort : Capture → Option β} {m : β → Job κ Reply}
    (hm : ∀ b, (m b).Every S) : (lending i sort m).Every S := by
  refine .bind (onPool_every _) fun o => ?_
  cases o with
  | none => exact .pure
  | some b => exact .ensuring (onPool_every _) (hm b)

theorem lendingAll_every {sort : Capture → Option β} {is : List Nat} {m : List β → Job κ Reply}
    (hm : ∀ bs, (m bs).Every S) : (lendingAll sort is m).Every S := by
  induction is generalizing m with
  | nil => exact hm []
  | cons i is ih => exact lending_every fun b => ih fun bs => hm (b :: bs)

theorem lendingArg_every {a : Arg} {m : Val → Job κ Reply}
    (hm : ∀ v, (m v).Every S) : (lendingArg a m).Every S := by
  cases a with
  | plain v => exact hm _
  | thing i => exact lending_every hm

theorem lendingArgs_every {as : List Arg} {m : List Val → Job κ Reply}
    (hm : ∀ vs, (m vs).Every S) : (lendingArgs as m).Every S := by
  induction as generalizing m with
  | nil => exact hm []
  | cons a as ih => exact lendingArg_every fun v => ih fun vs => hm (v :: vs)

theorem takeAll_every (sort : Capture → Option β) (is : List Nat) :
    (takeAll sort is : Job κ (List β)).Every S := by
  induction is with
  | nil => exact .pure
  | cons i is ih => exact .bind (onPool_every _) fun _ => .bind ih fun _ => .pure

theorem give_every (as : List Arg) : (give as : Job κ (List Val)).Every S := by
  induction as with
  | nil => exact .pure
  | cons a as ih =>
    cases a with
    | plain v => exact .bind ih fun _ => .pure
    | thing i => exact .bind (onPool_every _) fun _ => .bind ih fun _ => .pure

theorem counted_every {m : Job κ α} (hm : m.Every S) :
    (counted m).Every S :=
  .bind (onPool_every _) fun _ => .ensuring (onPool_every _) hm

theorem answer_every (cs : List Capture) (a : Answer) :
    (answer cs a : Job κ Reply).Every S := by
  refine .bind ?_ fun _ => .pure
  induction cs with
  | nil => exact .pure
  | cons c cs ih => exact .bind (onPool_every _) fun _ => .bind ih fun _ => .pure

/-- An answer comes after what it tells. -/
theorem answering_every {m : Job κ β} (hm : m.Every S) {cs : β → List Capture}
    {a : β → Answer} :
    (m >>= fun b => (answer (cs b) (a b) : Job κ Reply)).Every S :=
  .bind hm fun b => answer_every (cs b) (a b)

theorem letGo_every (t : Thing) : (letGo t : Job κ Unit).Every S := by
  cases t with
  | capture c => exact releaseCapture_every c
  | store s => exact counted_every (deleteStore_every s)

theorem share_every (c : Capture) : (share c : Job κ Reply).Every S :=
  .bind (.routine (.retainCapture c) trivial fun _ => rfl) fun _ => answer_every _ _

theorem shareIf_every (o : Option Capture) : (shareIf o : Job κ Reply).Every S := by
  cases o with
  | none => exact .pure
  | some c => exact share_every c

end Job

/-! ## Requests

One case for each kind of query and of request. -/

/-- Whatever the operations do by which host code runs guest code is of a sort, step by step. -/
structure Calls.Every (S : (World (Code κ) Pool → World (Code κ) Pool) → Prop) (calls : Calls κ) :
    Prop where
  call : ∀ s f args, (calls.call s f args).Every S
  instance_ : ∀ s module imports, (calls.instance_ s module imports).Every S
  instantiate : ∀ s l module, (calls.instantiate s l module).Every S
  defineModule : ∀ s l name module, (calls.defineModule s l name module).Every S

theorem Linker.defineInstance_every (s l : Nat) (module : String) (i : Handle) :
    (Linker.defineInstance s l module i : Job κ Unit).Every S :=
  .bind (Instance.exports_every s i) fun items => defineAll_every (fun _ _ => Change.Permissive.all _) items

theorem Linker.defineModule_every {host : Runner (Code κ) Pool}
    (hhost : WasmHost.Host.Every S host) (s l : Nat) (name : String) (module : Nat) :
    (Linker.defineModule host s l name module).Every S :=
  .bind (instantiate_every hhost s l module) fun i =>
    .ensuring (releaseHandle_every i) (defineInstance_every s l name i)

theorem Calls.every_through {host : Runner (Code κ) Pool}
    (hhost : WasmHost.Host.Every S host) : (Calls.through host).Every S where
  call := Func.call_every hhost
  instance_ := Instance.create_every hhost
  instantiate := Linker.instantiate_every hhost
  defineModule := Linker.defineModule_every hhost

namespace Job

theorem query_every {calls : Calls κ} (hcalls : calls.Every S) (s : Nat) (q : Query κ) :
    (query calls s q).Every S := by
  unfold query
  cases q with
  | touch => exact answering_every (context_every s)
  | setFuel fuel => exact answering_every (Store.setFuel_every s fuel)
  | fuel => exact answering_every (Store.fuel_every s)
  | setDeadline ticks => exact answering_every (Store.setDeadline_every s ticks)
  | func raw code captures =>
    refine .bind (takeAll_every _ _) fun captures => answering_every (counted_every ?_)
    exact .bind (context_every s) fun _ => Func.register_every s _ _ code captures
  | call f args =>
    exact lending_every fun f => lendingArgs_every fun args =>
      answering_every (hcalls.call s f args)
  | type i => exact lending_every fun item => answering_every (Item.type_every s item)
  | globalNew type init =>
    exact lendingArg_every fun v => answering_every (Global.create_every s type v)
  | globalGet g => exact lending_every fun g => answering_every (Global.get_every s g)
  | globalSet g v =>
    exact lending_every fun g => lendingArg_every fun v =>
      answering_every (Global.set_every s g v)
  | memoryNew type => exact answering_every (Memory.create_every s type)
  | memoryPages m => exact lending_every fun m => answering_every (Memory.pages_every s m)
  | memorySize m => exact lending_every fun m => answering_every (Memory.size_every s m)
  | memoryGrow m delta =>
    exact lending_every fun m => answering_every (Memory.grow_every s m delta)
  | memoryRead m offset len =>
    exact lending_every fun m => answering_every (Memory.read_every s m offset len)
  | memoryWrite m offset bytes =>
    exact lending_every fun m => answering_every (Memory.write_every s m offset bytes)
  | memoryData m f =>
    exact lending_every fun m => answering_every (Memory.withData_every s m f)
  | tableNew type init =>
    exact lendingArg_every fun v => answering_every (Table.create_every s type v)
  | tableSize t => exact lending_every fun t => answering_every (Table.size_every s t)
  | tableGet t index =>
    exact lending_every fun t => answering_every (Table.get_every s t index)
  | tableSet t index v =>
    exact lending_every fun t => lendingArg_every fun v =>
      answering_every (Table.set_every s t index v)
  | tableGrow t delta init =>
    exact lending_every fun t => lendingArg_every fun v =>
      answering_every (Table.grow_every s t delta v)
  | close i =>
    refine .bind (onPool_every _) fun o => ?_
    cases o with
    | none => exact .pure
    | some x => exact answering_every (close_every s x.handle)
  | instance_ m imports =>
    exact lending_every fun m => lendingAll_every fun items =>
      answering_every (hcalls.instance_ s m items)
  | getExport i name =>
    exact lending_every fun i => answering_every (Instance.getExport_every s i name)
  | getFunc i name =>
    exact lending_every fun i => answering_every (Instance.getFunc_every s i name)
  | exports i => exact lending_every fun i => answering_every (Instance.exports_every s i)
  | defineFunc l module name type code captures =>
    refine lending_every fun l => .bind (takeAll_every _ _) fun captures => ?_
    exact answering_every (counted_every (.bind (Func.create_every s type code captures)
      fun _ => Linker.define_every (Change.Permissive.all _)))
  | defineInstance l module i =>
    exact lending_every fun l => lending_every fun i =>
      answering_every (Linker.defineInstance_every s l module i)
  | defineModule l name m =>
    exact lending_every fun l => lending_every fun m =>
      answering_every (hcalls.defineModule s l name m)
  | getDefault l module =>
    exact lending_every fun l =>
      answering_every (counted_every (Linker.getDefault_every s l module Code.idle))
  | instantiate l m =>
    exact lending_every fun l => lending_every fun m =>
      answering_every (hcalls.instantiate s l m)

theorem onStore_every {at_ : Setting κ} {ref : StoreRef} {m : Nat → Job κ Reply}
    (hm : ∀ s, (m s).Every S) : (onStore at_ ref m).Every S := by
  unfold onStore
  split
  · exact hm _
  · exact .pure
  · refine .bind (onPool_every _) fun o => ?_
    cases o with
    | none => exact .pure
    | some s => exact .ensuring (onPool_every _) (hm s)

theorem carryOut_every {at_ : Setting κ} (hcalls : at_.calls.Every S) (r : Request κ) :
    (carryOut at_ r).Every S := by
  cases r with
  | engine config => exact answering_every (Engine.create_every config)
  | incrementEpoch e =>
    exact lending_every fun e => answering_every (Engine.incrementEpoch_every e)
  | store e limits =>
    refine lending_every fun e => .bind (counted_every ?_) fun s =>
      .bind (onPool_every _) fun i => .pure
    cases limits with
    | none => exact Store.create_every e
    | some limits => exact Store.createWith_every e limits
  | module e compiled =>
    exact lending_every fun e =>
      answering_every (.routine (.newModule e compiled) trivial fun _ => rfl)
  | linker e =>
    exact lending_every fun e => answering_every (.routine (.newLinker e) trivial fun _ => rfl)
  | allowShadowing l allow =>
    exact lending_every fun l =>
      answering_every (.change (.allowShadowing l allow) fun _ => rfl)
  | define l module name i =>
    refine lending_every fun l => .bind (onPool_every _) fun o => ?_
    cases o with
    | none => exact .pure
    | some item => exact answering_every (Linker.define_every (Change.Permissive.all _))
  | get l module name =>
    exact lending_every fun l => answering_every (Linker.get?_every l module name)
  | object data captures =>
    exact .bind (takeAll_every _ _) fun captures =>
      answering_every (.change (.newObject data captures) fun _ => rfl)
  | log => exact answering_every (.change .newLog fun _ => rfl)
  | clone i => exact lending_every share_every
  | drop i =>
    refine .bind (onPool_every _) fun o => ?_
    cases o with
    | none => exact .pure
    | some t => exact answering_every (letGo_every t)
  | argument index => exact shareIf_every _
  | captured index => exact shareIf_every _
  | callerExport name =>
    simp only [carryOut]
    split
    · exact answering_every (Caller.getExport_every _ name)
    · exact .pure
  | query ref q => exact onStore_every fun s => query_every hcalls s q

end Job

/-! ## Programs and closures

Closures are programs that run calls that run closures. The depth to which they may is given, and
the induction is on it. -/

theorem Program.run_every {at_ : Setting κ} (hcalls : at_.calls.Every S) (p : Program κ α) :
    (p.run at_ : Job κ α).Every S := by
  -- So it is of a program since it is of each of its requests, whatever the replies to them are.
  induction p with
  | finish a => exact .pure
  | ask r next ih =>
    refine .bind (.bind (Job.carryOut_every hcalls r).attempt.catchPanic fun res => ?_) ih
    obtain p | e | reply := res <;> exact .pure

namespace Embedder

variable (embedder : Embedder κ)

theorem every_host {calls : Calls κ} (hcalls : calls.Every S) :
    Every S (embedder.host calls) := by
  intro code captures caller args
  cases code with
  | idle => exact .pure
  | log sink =>
    show ((logClosure sink).invoke caller args).Every S
    unfold TypedClosure.invoke
    split
    · exact .pure
    · refine .bind (.bind (logLine_every (fun _ => Change.Permissive.all _) _ _ _ _)
        fun _ => .pure) fun res => ?_
      cases res <;> exact .pure
  | custom code =>
    refine .bind (Program.run_every hcalls _) fun ending => ?_
    cases ending with
    | values vs => exact .bind (Job.give_every vs) fun _ => .pure
    | trap t => exact .pure
    | panic p => exact .panic

/-- The closures of an embedder make the changes that were listed, to whatever depth they call one
another. -/
theorem every_hostTo (depth : Nat) : Every S (embedder.hostTo depth) := by
  induction depth with
  | zero => exact fun _ _ _ _ => .exhaust
  | succ depth ih => exact embedder.every_host (Calls.every_through ih)

end Embedder

/-! ## Threads

A thread is what it has left to do. A step takes the first step of it and leaves the rest. -/

namespace Threads

variable {t : Threads κ}

/-- Whatever threads may yet do to the world in a step is of a sort. -/
def Every (S : (World (Code κ) Pool → World (Code κ) Pool) → Prop) (t : Threads κ) : Prop :=
  ∀ m ∈ t.rest, m.Every S

/-- A step of any thread is of the sort, and so is what may yet be done. -/
theorem Every.step (h : t.Every S) (i : Nat) :
    (t.step i).Every S ∧ ∃ g, S g ∧ (t.step i).world = g t.world := by
  unfold Threads.step
  split
  · rename_i β f next hi
    obtain ⟨hf, hnext⟩ := h _ (List.mem_of_getElem? hi)
    -- The other threads have the same left to do, and this one has what comes after its step.
    refine ⟨fun m hm => ?_, _, hf, rfl⟩
    rcases List.mem_or_eq_of_mem_set hm with hm | rfl
    · exact h m hm
    · exact hnext _
  · exact ⟨h, _, Change.Permissive.all .nothing, rfl⟩

theorem Every.run (h : t.Every S) (order : List Nat) : (t.run order).Every S := by
  induction order generalizing t with
  | nil => exact h
  | cons i order ih => exact ih (h.step i).1

end Threads

namespace Embedder

variable (embedder : Embedder κ) (depth : Nat) (programs : List (Program κ Unit))

theorem every_start : (embedder.start depth programs).Every S := by
  intro m hm
  obtain ⟨p, -, rfl⟩ := List.mem_map.mp hm
  exact p.run_every (Calls.every_through (embedder.every_hostTo depth))

theorem every_startCollected (collections : List (List (Nat × Nat))) :
    (embedder.startCollected depth programs collections).Every S := by
  intro m hm
  rcases List.mem_append.mp hm with hm | hm
  · exact embedder.every_start depth programs m hm
  · obtain ⟨copies, -, rfl⟩ := List.mem_map.mp hm
    exact collectAll_every copies

end Embedder

end WasmHost.Host
