import WasmHost.Proofs.Calls

/-!
# What engines, stores and the closures of the library leave

A new store is its maker's to use, and a store whose limits cannot be set is deleted again. The
library's own closures are as fair as those of an embedder must be.

Stores are made by requests, and the limits of a store can be set only once it is there. So there is
a moment in which a store has been made that its maker may not get: if the limits cannot be set, the
store is deleted before the error is handed on. `Store.createWith` is the one operation besides
registration that undoes something.
-/

namespace WasmHost.Host

open Act

variable {κ σ α : Type}

/-! ## Engines -/

section Engines

variable [Keeper κ σ] {L rest : Ledger κ}

theorem Engine.create_leaves (config : EngineConfig) :
    (Engine.create config : Act κ σ Nat).Leaves L (fun e => .own (.engine e) ::ₘ L) L := by
  refine Leaves.bind (M := fun _ => L) (Leaves.ofExcept (fun _ _ => rfl) fun _ _ => rfl) fun _ => ?_
  refine Leaves.make (fun _ => rfl) (by simp [Ledger.Alike.refl]) fun T w h _ => ?_
  exact (h.newEngine config).cast (Multiset.cons_add _ _ _).symm

theorem Engine.incrementEpoch_leaves (e : Nat) :
    (Engine.incrementEpoch e : Act κ σ Unit).Leaves L (fun _ => L) rest :=
  Leaves.update (fun _ => rfl) (.refl L) fun _ _ h _ => h.modifyEngine fun _ => rfl

/-! ## Stores -/

namespace Store

variable {s : Nat}

theorem countsFuel_leaves : (countsFuel s : Act κ σ Bool).Leaves L (fun _ => L) rest :=
  Leaves.bind (Leaves.world fun _ _ _ _ => Leaves.pure rfl) fun _ => Leaves.pure rfl

theorem setFuel_leaves (fuel : Nat) : (setFuel s fuel : Act κ σ Unit).Leaves L (fun _ => L) L := by
  refine Leaves.bind (context_leaves s) fun _ => Leaves.bind countsFuel_leaves fun counts => ?_
  exact Leaves.guard rfl (onGuest_leaves' fun _ => rfl)

theorem fuel_leaves : (fuel s : Act κ σ Nat).Leaves L (fun _ => L) L := by
  refine Leaves.bind (context_leaves s) fun _ => Leaves.bind countsFuel_leaves fun counts => ?_
  exact Leaves.guard rfl (Leaves.bind (guest_leaves s) fun _ => Leaves.pure rfl)

theorem setDeadline_leaves (ticks : Nat) :
    (setDeadline s ticks : Act κ σ Unit).Leaves L (fun _ => L) L :=
  Leaves.bind (context_leaves s) fun _ => Leaves.bind (epoch_leaves s) fun _ =>
    onGuest_leaves' fun _ => rfl

theorem create_leaves {e : Nat} (he : L.Has (.engine e)) :
    (create e : Act κ σ Nat).Leaves L (fun s => .tenure s [] none ::ₘ L) rest := by
  refine Leaves.make (fun _ => rfl) (by simp [Ledger.Alike.refl]) fun T w h hpos => ?_
  exact (h.newStore (hpos _ he)).cast (Multiset.cons_add _ _ _).symm

theorem createWith_leaves {e : Nat} {pins : List (Pin κ)} (he : L.Has (.engine e))
    (limits : ExecutionConfig) :
    (createWith e limits : Act κ σ Nat).Leaves (.making pins ::ₘ L)
      (fun s => .tenure s [] none ::ₘ .making pins ::ₘ L) (.making pins ::ₘ L) := by
  refine Leaves.world fun _ w _ _ => ?_
  refine Leaves.bind (M := fun _ => .making pins ::ₘ L)
    (Leaves.ofExcept (fun _ _ => rfl) fun _ _ => rfl) fun _ => ?_
  refine Leaves.bind (create_leaves (he.cons _)) fun s => ?_
  refine Leaves.onUnwind ?_ (deleteStore_leaves s [] pins)
  cases limits.fuel with
  | none =>
    cases limits.epochDeadline with
    | none => exact Leaves.pure rfl
    | some d => exact Leaves.bind (setDeadline_leaves _) fun _ => Leaves.pure rfl
  | some n =>
    refine Leaves.bind (setFuel_leaves _) fun _ => ?_
    cases limits.epochDeadline with
    | none => exact Leaves.pure rfl
    | some d => exact Leaves.bind (setDeadline_leaves _) fun _ => Leaves.pure rfl

end Store

end Engines

/-! ## The closures of the library -/

section Closures

variable [Keeper (Code κ) σ] {L : Ledger (Code κ)}

/-- A line that is not there is passed over, and what is looked at is given back. -/
theorem logLine_leaves (c : Caller) (sink : Nat) (level ptr len : BitVec 32) :
    (logLine sink c level ptr len : Act (Code κ) σ Unit).Leaves L (fun _ => L) L := by
  unfold logLine
  split
  · exact Leaves.pure rfl
  · refine Leaves.bind (Caller.getExport_leaves _ "memory") fun item => ?_
    cases item with
    | none => exact Leaves.pure (zero_add _)
    | some item =>
      refine Leaves.holding (X := [item.wrapper.share])
        (fun _ => releaseHandle_leaves item.handle (.item item.kind)) ?_ fun _ => rfl
      split
      · exact Leaves.pure rfl
      · rename_i hkind
        have hitem : (Ledger.owns [item.wrapper.share] + L).Has (.handle item.handle (.item .memory)) := by
          refine Ledger.has_owns_add ?_ L
          simp [Item.wrapper, Wrapper.share, not_not.mp hkind]
        refine Leaves.bind (Memory.withData_leaves hitem _) fun message => ?_
        cases message with
        | none => exact Leaves.pure rfl
        | some message =>
          exact Leaves.update (fun _ => rfl) (.refl _) fun _ _ h _ => h.setLogs _

/-- The closures of the library are fair if those of the embedder are. -/
theorem fair_host
    {custom : κ → List Capture → Caller → List Val → Act (Code κ) σ (Except Trap (List Val))}
    (hcustom : ∀ (key : Nat) (r : Registration (Code κ)) (known : List (Pin (Code κ)))
      (instance_ : Option Nat) (args : List Val) (L : Ledger (Code κ)) (code : κ),
      .tenure r.store ((key, r) :: known) none ∈ L → (∀ x ∈ Val.sharesAll args, L.Has x) →
      (custom code r.captures ⟨r.store, instance_⟩ args).Leaves L
        (fun res => Ledger.owns (Share.ofExcept Val.sharesAll res) + L) L) :
    Fair (Code.host custom) := by
  intro key r known instance_ args L hs hargs
  cases hcode : r.code with
  | idle => exact Leaves.pure (by simp [Share.ofExcept])
  | log sink =>
    show ((logClosure sink).invoke ⟨r.store, instance_⟩ args).Leaves _ _ _
    unfold TypedClosure.invoke
    split
    · exact Leaves.pure (zero_add _).symm
    · refine Leaves.bind (M := fun _ => L) ?_ fun res => ?_
      · exact Leaves.bind (logLine_leaves _ _ _ _ _) fun _ => Leaves.pure rfl
      · cases res <;> exact Leaves.pure (zero_add _).symm
  | custom code => exact hcustom key r known instance_ args L code hs hargs

end Closures

end WasmHost.Host
