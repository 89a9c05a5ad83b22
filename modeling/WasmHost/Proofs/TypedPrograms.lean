import WasmHost.Proofs.Interleavings
import WasmHost.Proofs.TypedOperations

/-!
# Typed programs

Whatever a program asks for, it leads from orderly worlds to orderly worlds. So every world that the
threads of an embedder come to is orderly, and evolves from those that they came to before.

This closes the circle that `TypedClosures` left open, in the same way as `Programs` does for
ledgers: operations are steady if closures are, closures are steady if their requests are, and the
requests are operations; the induction is on the depth of calls. Then it is carried over to any
interleaving of threads.

There is one difference. What is promised of a request may depend on its store being there, and its
store is taken out of the pool at the beginning: so these lemmas are about promises in a given
world, and only those that need no store are about steadiness.
-/

namespace WasmHost.Host

open Act

variable {κ α β : Type}

namespace Job

/-! ## The pool -/

theorem onPool_steady (f : Pool → α × Pool) : (onPool f : Job κ α).Steady :=
  .makeAside fun _ => .of_eq rfl rfl rfl rfl

/-- What is lent is used in some later world. -/
theorem lending_promises {w : World (Code κ) Pool} {i : Nat} {sort : Capture → Option β}
    {m : β → Job κ Reply} (hm : ∀ b w', w.Leads w' → (m b).Promises (fun _ _ => True) w') :
    (lending i sort m).Promises (fun _ _ => True) w := by
  refine (onPool_steady _).first fun o w' hw' => ?_
  cases o with
  | none => exact .pure fun _ _ => trivial
  | some b => exact (onPool_steady _).promisesEnsuring (hm b w' hw')

theorem lending_steady {i : Nat} {sort : Capture → Option β} {m : β → Job κ Reply}
    (hm : ∀ b, (m b).Steady) : (lending i sort m).Steady :=
  fun _ => lending_promises fun b w' _ => hm b w'

theorem lendingAll_steady {sort : Capture → Option β} {is : List Nat} {m : List β → Job κ Reply}
    (hm : ∀ bs, (m bs).Steady) : (lendingAll sort is m).Steady := by
  induction is generalizing m with
  | nil => exact hm []
  | cons i is ih => exact lending_steady fun b => ih fun bs => hm (b :: bs)

theorem lendingArg_promises {w : World (Code κ) Pool} {a : Arg} {m : Val → Job κ Reply}
    (hm : ∀ v w', w.Leads w' → (m v).Promises (fun _ _ => True) w') :
    (lendingArg a m).Promises (fun _ _ => True) w := by
  cases a with
  | plain v => exact .of_later fun w' hw' => hm _ w' hw'
  | thing i => exact lending_promises hm

theorem lendingArg_steady {a : Arg} {m : Val → Job κ Reply} (hm : ∀ v, (m v).Steady) :
    (lendingArg a m).Steady := by
  cases a with
  | plain v => exact hm _
  | thing i => exact lending_steady hm

theorem lendingArgs_steady {as : List Arg} {m : List Val → Job κ Reply}
    (hm : ∀ vs, (m vs).Steady) : (lendingArgs as m).Steady := by
  induction as generalizing m with
  | nil => exact hm []
  | cons a as ih => exact lendingArg_steady fun v => ih fun vs => hm (v :: vs)

theorem takeAll_steady (sort : Capture → Option β) (is : List Nat) :
    (takeAll sort is : Job κ (List β)).Steady := by
  induction is with
  | nil => exact .pure
  | cons i is ih => exact .bind (onPool_steady _) fun _ => .bind ih fun _ => .pure

theorem give_steady (as : List Arg) : (give as : Job κ (List Val)).Steady := by
  induction as with
  | nil => exact .pure
  | cons a as ih =>
    cases a with
    | plain v => exact .bind ih fun _ => .pure
    | thing i => exact .bind (onPool_steady _) fun _ => .bind ih fun _ => .pure

theorem counted_steady {m : Job κ α} (hm : m.Steady) : (counted m).Steady :=
  .bind (onPool_steady _) fun _ => .ensuring (onPool_steady _) hm

/-! ## Answers -/

theorem answer_steady (cs : List Capture) (a : Answer) : (answer cs a : Job κ Reply).Steady := by
  refine .bind ?_ fun _ => .pure
  induction cs with
  | nil => exact .pure
  | cons c cs ih => exact .bind (onPool_steady _) fun _ => .bind ih fun _ => .pure

/-- An answer comes after what it tells. -/
theorem answering_promises {w : World (Code κ) Pool} {m : Job κ β}
    (hm : m.Promises (fun _ _ => True) w) {cs : β → List Capture} {a : β → Answer} :
    (m >>= fun b => (answer (cs b) (a b) : Job κ Reply)).Promises (fun _ _ => True) w :=
  .bind hm fun b w' _ _ => answer_steady (cs b) (a b) w'

theorem answering_steady {m : Job κ β} (hm : m.Steady) {cs : β → List Capture} {a : β → Answer} :
    (m >>= fun b => (answer (cs b) (a b) : Job κ Reply)).Steady :=
  fun w => answering_promises (hm w)

theorem letGo_steady (t : Thing) : (letGo t : Job κ Unit).Steady := by
  cases t with
  | capture c => exact releaseCapture_steady c
  | store s => exact counted_steady (deleteStore_steady s)

theorem share_steady (c : Capture) : (share c : Job κ Reply).Steady :=
  .bind (.updateAside fun w => w.retainCapture_aside c) fun _ => answer_steady _ _

theorem shareIf_steady (o : Option Capture) : (shareIf o : Job κ Reply).Steady := by
  cases o with
  | none => exact .pure
  | some c => exact share_steady c

end Job

/-! ## Requests -/

/-- The store on whose behalf a program runs, if there is one, is there. -/
def Setting.Placed (at_ : Setting κ) (w : World (Code κ) Pool) : Prop :=
  ∀ c, at_.caller = some c → c.store < w.stores.size

theorem Setting.Placed.lead {at_ : Setting κ} {w w' : World (Code κ) Pool} (h : at_.Placed w)
    (hw : w.Leads w') : at_.Placed w' := fun c hc => Nat.lt_of_lt_of_le (h c hc) hw.evolves.size

/-- The operations by which host code runs guest code are steady. -/
structure Calls.Steady (calls : Calls κ) : Prop where
  call : ∀ s f args, (calls.call s f args).Steady
  instance_ : ∀ s module imports, (calls.instance_ s module imports).Steady
  instantiate : ∀ s l module, (calls.instantiate s l module).Steady
  defineModule : ∀ s l name module, (calls.defineModule s l name module).Steady

theorem Calls.steady_through {host : Runner (Code κ) Pool} (h : WasmHost.Host.Steady host) :
    (Calls.through host).Steady where
  call := Func.call_steady h
  instance_ := Instance.create_steady h
  instantiate := Linker.instantiate_steady h
  defineModule := Linker.defineModule_steady h

namespace Job

/-- A query that makes neither a global nor a table leads from orderly worlds to orderly worlds. -/
theorem query_steady {calls : Calls κ} (hcalls : calls.Steady) (s : Nat) {q : Query κ}
    (hglobal : ∀ type init, q ≠ .globalNew type init)
    (htable : ∀ type init, q ≠ .tableNew type init) : (query calls s q).Steady := by
  unfold query
  cases q with
  | globalNew type init => exact absurd rfl (hglobal type init)
  | tableNew type init => exact absurd rfl (htable type init)
  | touch => exact answering_steady (context_steady s)
  | setFuel fuel => exact answering_steady (Store.setFuel_steady s fuel)
  | fuel => exact answering_steady (Store.fuel_steady s)
  | setDeadline ticks => exact answering_steady (Store.setDeadline_steady s ticks)
  | func raw code captures =>
    refine .bind (takeAll_steady _ _) fun captures => answering_steady (counted_steady ?_)
    exact .bind (context_steady s) fun _ => Func.register_steady s rfl code captures
  | call f args =>
    exact lending_steady fun f => lendingArgs_steady fun args =>
      answering_steady (hcalls.call s f args)
  | type i => exact lending_steady fun item => answering_steady (Item.type_steady s item)
  | globalGet g => exact lending_steady fun g => answering_steady (Global.get_steady s g)
  | globalSet g v =>
    exact lending_steady fun g => lendingArg_steady fun v =>
      answering_steady (Global.set_steady s g v)
  | memoryNew type => exact answering_steady (Memory.create_steady s type)
  | memoryPages m => exact lending_steady fun m => answering_steady (Memory.pages_steady s m)
  | memorySize m => exact lending_steady fun m => answering_steady (Memory.size_steady s m)
  | memoryGrow m delta =>
    exact lending_steady fun m => answering_steady (Memory.grow_steady s m delta)
  | memoryRead m offset len =>
    exact lending_steady fun m => answering_steady (Memory.read_steady s m offset len)
  | memoryWrite m offset bytes =>
    exact lending_steady fun m => answering_steady (Memory.write_steady s m offset bytes)
  | memoryData m f => exact lending_steady fun m => answering_steady (Memory.withData_steady s m f)
  | tableSize t => exact lending_steady fun t => answering_steady (Table.size_steady s t)
  | tableGet t index => exact lending_steady fun t => answering_steady (Table.get_steady s t index)
  | tableSet t index v =>
    exact lending_steady fun t => lendingArg_steady fun v =>
      answering_steady (Table.set_steady s t index v)
  | tableGrow t delta init =>
    exact lending_steady fun t => lendingArg_steady fun v =>
      answering_steady (Table.grow_steady s t delta v)
  | close i =>
    refine .bind (onPool_steady _) fun o => ?_
    cases o with
    | none => exact .pure
    | some x => exact answering_steady (close_steady s x.handle)
  | instance_ m imports =>
    exact lending_steady fun m => lendingAll_steady fun items =>
      answering_steady (hcalls.instance_ s m items)
  | getExport i name =>
    exact lending_steady fun i => answering_steady (Instance.getExport_steady s i name)
  | getFunc i name =>
    exact lending_steady fun i => answering_steady (Instance.getFunc_steady s i name)
  | exports i => exact lending_steady fun i => answering_steady (Instance.exports_steady s i)
  | defineFunc l module name type code captures =>
    refine lending_steady fun l => .bind (takeAll_steady _ _) fun captures => ?_
    exact answering_steady
      (counted_steady (Linker.defineFunc_steady s l module name type code captures))
  | defineInstance l module i =>
    exact lending_steady fun l => lending_steady fun i =>
      answering_steady (Linker.defineInstance_steady s l module i)
  | defineModule l name m =>
    exact lending_steady fun l => lending_steady fun m =>
      answering_steady (hcalls.defineModule s l name m)
  | getDefault l module =>
    exact lending_steady fun l =>
      answering_steady (counted_steady (Linker.getDefault_steady s l module Code.idle))
  | instantiate l m =>
    exact lending_steady fun l => lending_steady fun m =>
      answering_steady (hcalls.instantiate s l m)

/-- Something is made in a store that is there, with an argument. -/
theorem making_promises {w : World (Code κ) Pool} {s : Nat} (hs : s < w.stores.size) {init : Arg}
    {create : Val → Job κ Handle} (hcreate : ∀ v (w' : World (Code κ) Pool), s < w'.stores.size →
      (create v).Promises (fun _ _ => True) w') (sort : HandleSort) :
    (lendingArg init fun v => do answerHandle sort (← create v)).Promises (fun _ _ => True) w :=
  lendingArg_promises fun v w' hw' =>
    answering_promises (hcreate v w' (Nat.lt_of_lt_of_le hs hw'.evolves.size))

/-- A query in a store that is there leads from orderly worlds to orderly worlds. -/
theorem query_promises {calls : Calls κ} (hcalls : calls.Steady) {w : World (Code κ) Pool} {s : Nat}
    (hs : s < w.stores.size) (q : Query κ) : (query calls s q).Promises (fun _ _ => True) w := by
  cases q with
  | globalNew type init =>
    exact making_promises hs (fun v _ hs => Global.create_promises hs type v) _
  | tableNew type init => exact making_promises hs (fun v _ hs => Table.create_promises hs type v) _
  | _ => exact query_steady hcalls s (fun _ _ h => by cases h) (fun _ _ h => by cases h) w

/-- A store of a pool is there. -/
theorem lt_size_of_at? {w : World (Code κ) Pool} (hw : w.Regular) {i s n : Nat}
    (hat : w.user.at? i = some ⟨.store s, n⟩) : s < w.stores.size := by
  obtain ⟨L, hL⟩ := hw
  have hkept : .tenure s [] none ∈ L + Keeper.kept w.user := Multiset.mem_add.mpr (.inr
    (mem_total.mpr ⟨i, _, Pool.places_of_at? hat, by simp [Pool.placeTokens, Thing.token]⟩))
  obtain ⟨c, -, hc, -⟩ := hL.sound.hosted.tenured s [] none (Multiset.mem_filter.mpr ⟨hkept, rfl⟩)
  exact (Array.getElem?_eq_some_iff.mp hc).1

/-- A store that is taken out of the pool is there. -/
theorem takeStore_promises {w : World (Code κ) Pool} (i : Nat) :
    (onPool (·.take i Thing.store?) : Job κ (Option Nat)).Promises
      (fun o w' => ∀ s, o = some s → s < w'.stores.size) w := by
  refine .make fun w' hw' hr _ => ⟨World.Aside.leads (.of_eq rfl rfl rfl rfl) hw'.orderly,
    fun w'' hw'' s hs => ?_⟩
  refine Nat.lt_of_lt_of_le ?_ hw''.evolves.size
  show s < w'.stores.size
  have hs : (w'.user.take i Thing.store?).1 = some s := hs
  obtain htake | ⟨t, b, hat, hb, htake⟩ := w'.user.take_cases i Thing.store?
  · rw [htake] at hs
    cases hs
  · rw [htake] at hs
    cases hs
    obtain rfl : t = .store s := by cases t <;> simp_all [Thing.store?]
    exact lt_size_of_at? hr hat

theorem onStore_promises {at_ : Setting κ} {w : World (Code κ) Pool} (hat : at_.Placed w)
    {ref : StoreRef} {m : Nat → Job κ Reply} (hm : ∀ s (w' : World (Code κ) Pool),
      s < w'.stores.size → (m s).Promises (fun _ _ => True) w') :
    (onStore at_ ref m).Promises (fun _ _ => True) w := by
  unfold onStore
  split
  · rename_i c hc
    exact hm c.store w (hat c hc)
  · exact .pure fun _ _ => trivial
  · refine .bind (takeStore_promises _) fun o w' hw' hs => ?_
    cases o with
    | none => exact .pure fun _ _ => trivial
    | some s => exact (onPool_steady _).promisesEnsuring (hm s w' (hs w' (.refl hw'.orderly) s rfl))

/-- A request that is no query leads from orderly worlds to orderly worlds. -/
theorem carryOut_steady (at_ : Setting κ) {r : Request κ} (hr : ∀ ref q, r ≠ .query ref q) :
    (carryOut at_ r).Steady := by
  cases r with
  | engine config => exact answering_steady (Engine.create_steady config)
  | incrementEpoch e =>
    exact lending_steady fun e => answering_steady (Engine.incrementEpoch_steady e)
  | store e limits =>
    refine lending_steady fun e => .bind (counted_steady ?_) fun s => .bind (onPool_steady _) fun i =>
      .pure
    cases limits with
    | none => exact Store.create_steady e
    | some limits => exact Store.createWith_steady e limits
  | module e compiled =>
    exact lending_steady fun e => answering_steady (.makeAside fun _ => .of_eq rfl rfl rfl rfl)
  | linker e =>
    exact lending_steady fun e => answering_steady (.makeAside fun _ => .of_eq rfl rfl rfl rfl)
  | allowShadowing l allow =>
    exact lending_steady fun l => answering_steady (Linker.allowShadowing_steady l allow)
  | define l module name i =>
    refine lending_steady fun l => .bind (onPool_steady _) fun o => ?_
    cases o with
    | none => exact .pure
    | some item => exact answering_steady (Linker.define_steady l module name item)
  | get l module name =>
    exact lending_steady fun l => answering_steady (Linker.get?_steady l module name)
  | object data captures =>
    exact .bind (takeAll_steady _ _) fun captures =>
      answering_steady (.makeAside fun _ => .of_eq rfl rfl rfl rfl)
  | log => exact answering_steady (.makeAside fun _ => .of_eq rfl rfl rfl rfl)
  | clone i => exact lending_steady share_steady
  | drop i =>
    refine .bind (onPool_steady _) fun o => ?_
    cases o with
    | none => exact .pure
    | some t => exact answering_steady (letGo_steady t)
  | argument index => exact shareIf_steady _
  | captured index => exact shareIf_steady _
  | callerExport name =>
    simp only [carryOut]
    split
    · exact answering_steady (Caller.getExport_steady _ name)
    · exact .pure
  | query ref q => exact absurd rfl (hr ref q)

theorem carryOut_promises {at_ : Setting κ} (hcalls : at_.calls.Steady) {w : World (Code κ) Pool}
    (hat : at_.Placed w) (r : Request κ) : (carryOut at_ r).Promises (fun _ _ => True) w := by
  cases r with
  | query ref q => exact onStore_promises hat fun s w' hs => query_promises hcalls hs q
  | _ => exact carryOut_steady at_ (fun _ _ h => by cases h) w

end Job

/-! ## Programs and closures -/

theorem Program.run_promises {at_ : Setting κ} (hcalls : at_.calls.Steady)
    {w : World (Code κ) Pool} (hat : at_.Placed w) (p : Program κ α) :
    (p.run at_ : Job κ α).Promises (fun _ _ => True) w := by
  induction p generalizing w with
  | finish a => exact .pure fun _ _ => trivial
  | ask r next ih =>
    have hreply : (Job.reply at_ r).Promises (fun _ _ => True) w := by
      refine .bind (Job.carryOut_promises hcalls hat r).attempt.catchPanic fun res _ _ _ => ?_
      obtain p | e | reply := res <;> exact .pure fun _ _ => trivial
    exact .bind hreply fun reply w' hw' _ => ih reply (hat.lead hw')

namespace Embedder

variable (embedder : Embedder κ)

/-- Closures whose code is a program are steady if what they call is. -/
theorem steady_host {calls : Calls κ} (hcalls : calls.Steady) :
    Steady (embedder.host calls) := by
  intro code captures caller args w hcaller
  cases code with
  | idle => exact .pure fun _ _ => trivial
  | log sink =>
    suffices h : ((logClosure sink).invoke caller args).Steady from h w
    unfold TypedClosure.invoke
    split
    · exact .pure
    · refine .bind (.bind (logLine_steady _ _ _ _ _) fun _ => .pure) fun res => ?_
      cases res <;> exact .pure
  | custom code =>
    have hat : Setting.Placed ⟨calls, some caller, args, captures⟩ w := fun c hc => by
      cases hc
      exact hcaller
    refine .bind (Program.run_promises hcalls hat _) fun ending _ _ _ => ?_
    cases ending with
    | values vs => exact (Job.give_steady vs).first fun _ _ _ => .pure fun _ _ => trivial
    | trap t => exact .pure fun _ _ => trivial
    | panic p => exact .panic

/-- The closures of an embedder are steady, to whatever depth they call one another. -/
theorem steady_hostTo (depth : Nat) : Steady (embedder.hostTo depth) := by
  induction depth with
  | zero => exact fun _ _ _ _ _ _ => .exhaust
  | succ depth ih => exact embedder.steady_host (Calls.steady_through ih)

end Embedder

/-! ## Threads -/

theorem World.Typed.empty {σ : Type} (u : σ) : (World.empty u : World κ σ).Typed where
  guests s g hg := by simp [World.guest?, World.empty] at hg
  targets a c hc := by simp [World.empty, Slab.empty, Slab.get?] at hc
  functions f hf := by simp [World.empty, Chronicle.empty] at hf
  passed p hp := by simp [World.empty, Chronicle.empty] at hp

theorem World.Orderly.empty {σ : Type} (u : σ) : (World.empty u : World κ σ).Orderly where
  toTyped := .empty u
  rooted s g hg := by simp [World.guest?, World.empty] at hg

namespace Threads

variable {t : Threads κ}

/-- The world is orderly, and what the threads have yet to do will not change that. -/
structure Typed (t : Threads κ) : Prop where
  rest : ∀ m ∈ t.rest, m.Promises (fun _ _ => True) t.world
  world : t.world.Orderly

theorem Safe.regular (h : t.Safe) : t.world.Regular := by
  obtain ⟨Ls, hLs⟩ := h
  exact ⟨_, hLs.invariant⟩

/-- One step of any thread. -/
theorem Typed.step (h : t.Typed) (hsafe : t.Safe) (i : Nat) :
    (t.step i).Typed ∧ t.world.Leads (t.step i).world := by
  have hregular := (hsafe.step i).regular
  unfold Threads.step at hregular ⊢
  split at hregular
  · rename_i β f next hi
    obtain ⟨hlead, hnext⟩ :=
      h.rest _ (List.mem_of_getElem? hi) t.world (.refl h.world) hsafe.regular hregular
    refine ⟨⟨fun m hm => ?_, hlead.orderly⟩, hlead⟩
    rcases List.mem_or_eq_of_mem_set hm with hm | rfl
    · exact (h.rest m hm).later hlead
    · exact hnext
  · exact ⟨h, .refl h.world⟩

/-- Steps in any order. -/
theorem Typed.run (h : t.Typed) (hsafe : t.Safe) (order : List Nat) :
    (t.run order).Typed ∧ t.world.Leads (t.run order).world := by
  induction order generalizing t with
  | nil => exact ⟨h, .refl h.world⟩
  | cons i order ih =>
    obtain ⟨htyped, hlead⟩ := h.step hsafe i
    obtain ⟨htyped', hlead'⟩ := ih htyped (hsafe.step i)
    exact ⟨htyped', hlead.trans hlead'⟩

theorem run_append (order order' : List Nat) :
    t.run (order ++ order') = (t.run order).run order' := List.foldl_append ..

end Threads

namespace Embedder

variable (embedder : Embedder κ) (depth : Nat) (programs : List (Program κ Unit))

theorem typed_start : (embedder.start depth programs).Typed where
  rest m hm := by
    obtain ⟨p, -, rfl⟩ := List.mem_map.mp hm
    exact p.run_promises (Calls.steady_through (embedder.steady_hostTo depth)) fun _ h => by cases h
  world := .empty _

/-- Every world that an embedder reaches is orderly, and leads to all that it reaches from there. -/
theorem typed_run (order order' : List Nat) :
    let t := (embedder.start depth programs).run order
    t.world.Orderly ∧ t.world.Leads (t.run order').world := by
  have hsafe := embedder.safe_start depth programs
  obtain ⟨htyped, -⟩ := (embedder.typed_start depth programs).run hsafe order
  exact ⟨htyped.world, (htyped.run (hsafe.run order) order').2⟩

end Embedder

end WasmHost.Host
