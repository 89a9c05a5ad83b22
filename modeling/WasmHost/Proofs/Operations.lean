import WasmHost.Proofs.Passing

/-!
# What operations on items leave

Each operation on the items of a store keeps the ledger as it is, except for what it gives: a new
item or a value comes with shares of its own.

That an operation keeps the ledger may look like too little to prove about it. It is what the
accounts need, and they need it of all operations, of those that fail half-way as much as of the
others; what the operations do beyond this is said elsewhere, by other means, of the values they
give.

The assumptions are those of a caller: that it has the tenure of the store, if the operation writes
references to it; that it, or somebody for it, holds the handle it passes; and that it holds what
the values it passes refer to. The same three assumptions occur in all lemmas, and in programs they
are provided by what a program has been lent.
-/

namespace WasmHost.Host

open Act

variable {κ σ α : Type} [Keeper κ σ] {L rest : Ledger κ} {s : Nat} {known : List (Pin κ)}

/-- An item that can be made leaves a handle of its kind. -/
theorem allot_leaves {kind : ItemKind}
    {f : Guest.Store → Except EngineFault (Guest.Place × Guest.Store)}
    (hf : ∀ g p g', f g = .ok (p, g') → g.Extends g' ∧ p.kind = kind ∧ p.Within g') :
    (allot s f : Act κ σ Handle).Leaves L (fun h => .own (.handle h (.item kind)) ::ₘ L) L := by
  refine Leaves.bind (M := fun o => Ledger.owns (Sound.allotted kind o) + L) ?_ fun o => ?_
  · refine Leaves.make (fun w => ?_) (by simp [Ledger.Alike.refl]) fun _ _ h _ => ?_
    · unfold World.allot
      split <;> rfl
    · exact (h.allot hf).cast (add_assoc _ _ _).symm
  · refine Leaves.expect fun r hr => ?_
    cases r with
    | error e => exact Leaves.fail (by simp [hr, Sound.allotted])
    | ok h => exact Leaves.pure (by simp [hr, Sound.allotted])

/-! ## Globals -/

namespace Global

theorem at_leaves {g : Handle} (hg : L.Has (.handle g (.item .global))) :
    (at_ s g : Act κ σ (Nat × Guest.Global)).Leaves L (fun _ => L) L := by
  refine place_safe hg (fun p hkind => ?_) rfl
  obtain ⟨i, rfl⟩ := Guest.Place.exists_global hkind
  refine Leaves.bind (guest_leaves s) fun g => ?_
  exact Leaves.bind (M := fun _ => L) (Leaves.orAbort fun _ _ => rfl) fun _ => Leaves.pure rfl

theorem create_leaves {type : GlobalType} {init : Val} (hs : .tenure s known none ∈ L)
    (hv : ∀ x ∈ init.shares, L.Has x) :
    (create s type init : Act κ σ Handle).Leaves L
      (fun h => .own (.handle h (.item .global)) ::ₘ L) L := by
  unfold create
  refine Leaves.guard rfl (Leaves.bind (context_leaves s) fun _ => ?_)
  refine Leaves.bind (pack_leaves hv) fun p => ?_
  refine Leaves.holding (fun _ => releasePacked_leaves p) ?_ fun _ => (Multiset.add_cons _ _ _).symm
  split
  · exact Leaves.fail rfl
  · refine Leaves.bind (adopt_leaves (Multiset.mem_add.mpr (.inr hs))
      fun x hx => Ledger.has_owns_add hx _) fun v => ?_
    refine allot_leaves fun g p g' h => ?_
    unfold Wire.addGlobal at h
    split at h
    · cases h
      exact ⟨.addGlobal g _, rfl, by simp [Guest.Place.Within]⟩
    · cases h

theorem get_leaves {g : Handle} (hs : L.Has (.store s)) (hg : L.Has (.handle g (.item .global))) :
    (get s g : Act κ σ Val).Leaves L (fun v => Ledger.owns v.shares + L) L := by
  refine Leaves.bind (context_leaves s) fun _ => Leaves.bind (at_leaves hg) fun x => ?_
  refine Leaves.bind (expose_leaves s _) fun r => ?_
  cases r with
  | error e => exact Leaves.fail (zero_add _)
  | ok p =>
    refine Leaves.holding (m := unpack s p) (fun _ => releasePacked_leaves p) ?_
      fun _ => add_left_comm _ _ _
    exact unpack_leaves (hs.add _) fun x hx => Ledger.has_owns_add hx _

theorem set_leaves {g : Handle} {v : Val} (hs : .tenure s known none ∈ L)
    (hg : L.Has (.handle g (.item .global))) (hv : ∀ x ∈ v.shares, L.Has x) :
    (set s g v : Act κ σ Unit).Leaves L (fun _ => L) L := by
  refine Leaves.bind (context_leaves s) fun _ => Leaves.bind (at_leaves hg) fun x => ?_
  refine Leaves.guard rfl (Leaves.guard rfl ?_)
  refine Leaves.bind (pack_leaves hv) fun p => ?_
  refine Leaves.holding (fun _ => releasePacked_leaves p) ?_ fun _ => rfl
  refine Leaves.bind (adopt_leaves (Multiset.mem_add.mpr (.inr hs))
    fun x hx => Ledger.has_owns_add hx _) fun v => ?_
  exact onGuest_leaves' fun st => st.setGlobal_shape _ _

end Global

/-! ## Memories -/

namespace Memory

theorem at_leaves {m : Handle} (hm : L.Has (.handle m (.item .memory))) :
    (at_ s m : Act κ σ (Nat × Guest.Memory)).Leaves L (fun _ => L) L := by
  refine place_safe hm (fun p hkind => ?_) rfl
  obtain ⟨i, rfl⟩ := Guest.Place.exists_memory hkind
  exact Leaves.bind (guest_leaves s) fun g => Leaves.expect fun _ _ => Leaves.pure rfl

theorem create_leaves {type : MemoryType} :
    (create s type : Act κ σ Handle).Leaves L
      (fun h => .own (.handle h (.item .memory)) ::ₘ L) L := by
  refine Leaves.bind (context_leaves s) fun _ => ?_
  split
  · exact Leaves.fail rfl
  · refine allot_leaves fun g p g' h => ?_
    cases h
    exact ⟨.addMemory g _, rfl, by simp [Guest.Place.Within]⟩

variable {m : Handle} (hm : L.Has (.handle m (.item .memory)))

include hm

theorem pages_leaves : (pages s m : Act κ σ Nat).Leaves L (fun _ => L) L :=
  Leaves.bind (context_leaves s) fun _ => Leaves.bind (at_leaves hm) fun _ => Leaves.pure rfl

theorem size_leaves : (size s m : Act κ σ Nat).Leaves L (fun _ => L) L :=
  Leaves.bind (context_leaves s) fun _ => Leaves.bind (at_leaves hm) fun _ => Leaves.pure rfl

theorem grow_leaves (delta : Nat) : (grow s m delta : Act κ σ Nat).Leaves L (fun _ => L) L := by
  refine Leaves.bind (context_leaves s) fun _ => Leaves.bind (at_leaves hm) fun (i, memory) => ?_
  dsimp only
  split
  · exact Leaves.fail rfl
  · exact Leaves.bind (onGuest_leaves' fun g => g.putMemory_shape _ _) fun _ => Leaves.pure rfl

theorem readInto_leaves (offset : Nat) (buffer : List UInt8) :
    (readInto s m offset buffer : Act κ σ (Except Error Unit × List UInt8)).Leaves L (fun _ => L) L := by
  refine Leaves.bind (context_leaves s) fun _ => Leaves.bind (at_leaves hm) fun (i, memory) => ?_
  dsimp only
  split
  · exact Leaves.pure rfl
  · exact Leaves.pure rfl

theorem read_leaves (offset len : Nat) :
    (read s m offset len : Act κ σ (List UInt8)).Leaves L (fun _ => L) L := by
  refine Leaves.bind (readInto_leaves hm offset _) fun r => ?_
  split
  · exact Leaves.pure rfl
  · exact Leaves.fail rfl

theorem write_leaves (offset : Nat) (bytes : List UInt8) :
    (write s m offset bytes : Act κ σ Unit).Leaves L (fun _ => L) L := by
  refine Leaves.bind (context_leaves s) fun _ => Leaves.bind (at_leaves hm) fun (i, memory) => ?_
  dsimp only
  split
  · exact onGuest_leaves' fun g => g.putMemory_shape _ _
  · exact Leaves.fail rfl

theorem withData_leaves (f : Guest.Memory → α × Guest.Memory) :
    (withData s m f : Act κ σ α).Leaves L (fun _ => L) L := by
  refine Leaves.bind (context_leaves s) fun _ => Leaves.bind (at_leaves hm) fun x => ?_
  exact onGuest_leaves' fun g => g.putMemory_shape _ _

end Memory

/-! ## Tables -/

namespace Table

theorem at_leaves {t : Handle} (ht : L.Has (.handle t (.item .table))) :
    (at_ s t : Act κ σ (Nat × Guest.Table)).Leaves L (fun _ => L) L := by
  refine place_safe ht (fun p hkind => ?_) rfl
  obtain ⟨i, rfl⟩ := Guest.Place.exists_table hkind
  exact Leaves.bind (guest_leaves s) fun g => Leaves.expect fun _ _ => Leaves.pure rfl

theorem adoptRef_leaves {p : Packed s} (hs : .tenure s known none ∈ L) (hp : ∀ x ∈ p.shares, L.Has x) :
    (adoptRef s p : Act κ σ Guest.Ref).Leaves L (fun _ => L) L := by
  refine Leaves.bind (adopt_leaves hs hp) fun v => ?_
  split
  · exact Leaves.pure rfl
  · exact Leaves.fail rfl

theorem create_leaves {type : TableType} {init : Val} (hs : .tenure s known none ∈ L)
    (hv : ∀ x ∈ init.shares, L.Has x) :
    (create s type init : Act κ σ Handle).Leaves L
      (fun h => .own (.handle h (.item .table)) ::ₘ L) L := by
  unfold create
  refine Leaves.guard rfl (Leaves.bind (context_leaves s) fun _ => ?_)
  refine Leaves.bind (pack_leaves hv) fun p => ?_
  refine Leaves.holding (fun _ => releasePacked_leaves p) ?_ fun _ => (Multiset.add_cons _ _ _).symm
  split
  · exact Leaves.fail rfl
  · refine Leaves.bind (adoptRef_leaves (Multiset.mem_add.mpr (.inr hs))
      fun x hx => Ledger.has_owns_add hx _) fun v => ?_
    refine allot_leaves fun g p g' h => ?_
    unfold Wire.addTable at h
    split at h
    · cases h
      exact ⟨.addTable g _, rfl, by simp [Guest.Place.Within]⟩
    · cases h

variable {t : Handle}

theorem size_leaves (ht : L.Has (.handle t (.item .table))) :
    (size s t : Act κ σ Nat).Leaves L (fun _ => L) L :=
  Leaves.bind (context_leaves s) fun _ => Leaves.bind (at_leaves ht) fun _ => Leaves.pure rfl

theorem get_leaves (hs : L.Has (.store s)) (ht : L.Has (.handle t (.item .table))) (index : Nat) :
    (get s t index : Act κ σ (Option Val)).Leaves L
      (fun v => Ledger.owns (Val.sharesAll v.toList) + L) L := by
  refine Leaves.bind (context_leaves s) fun _ => Leaves.bind (at_leaves ht) fun x => ?_
  split
  · exact Leaves.pure (zero_add _).symm
  · refine Leaves.bind (expose_leaves s _) fun r => ?_
    cases r with
    | error e => exact Leaves.pure rfl
    | ok p =>
      refine Leaves.holding (m := some <$> unpack s p) (fun _ => releasePacked_leaves p)
        (Leaves.map (P := fun v : Option Val => Ledger.owns (Val.sharesAll v.toList) +
          (Ledger.owns p.shares + L)) ?_) fun _ => add_left_comm _ _ _
      simp only [Option.toList_some, Val.sharesAll_cons, Val.sharesAll_nil, List.append_nil]
      exact unpack_leaves (hs.add _) fun x hx => Ledger.has_owns_add hx _

theorem set_leaves {v : Val} (hs : .tenure s known none ∈ L) (ht : L.Has (.handle t (.item .table)))
    (hv : ∀ x ∈ v.shares, L.Has x) (index : Nat) :
    (set s t index v : Act κ σ Unit).Leaves L (fun _ => L) L := by
  refine Leaves.bind (context_leaves s) fun _ => Leaves.bind (at_leaves ht) fun x => ?_
  refine Leaves.guard rfl (Leaves.bind (pack_leaves hv) fun p => ?_)
  refine Leaves.holding (fun _ => releasePacked_leaves p) ?_ fun _ => rfl
  refine Leaves.bind (adoptRef_leaves (Multiset.mem_add.mpr (.inr hs))
    fun x hx => Ledger.has_owns_add hx _) fun r => ?_
  split
  · exact Leaves.fail rfl
  · exact onGuest_leaves' fun g => g.putTable_shape _ _

theorem grow_leaves {init : Val} (hs : .tenure s known none ∈ L) (ht : L.Has (.handle t (.item .table)))
    (hv : ∀ x ∈ init.shares, L.Has x) (delta : Nat) :
    (grow s t delta init : Act κ σ Nat).Leaves L (fun _ => L) L := by
  refine Leaves.bind (context_leaves s) fun _ => Leaves.bind (at_leaves ht) fun x => ?_
  refine Leaves.guard rfl (Leaves.bind (pack_leaves hv) fun p => ?_)
  refine Leaves.holding (fun _ => releasePacked_leaves p) ?_ fun _ => rfl
  refine Leaves.bind (adoptRef_leaves (Multiset.mem_add.mpr (.inr hs))
    fun x hx => Ledger.has_owns_add hx _) fun r => ?_
  split
  · exact Leaves.fail rfl
  · exact Leaves.bind (onGuest_leaves' fun g => g.putTable_shape _ _) fun _ => Leaves.pure rfl

end Table

/-! ## Items of any sort -/

theorem Item.type_leaves {item : Item} (hi : L.Has item.wrapper.share) :
    (Item.type s item : Act κ σ ItemType).Leaves L (fun _ => L) L := by
  refine Leaves.bind (context_leaves s) fun _ => Leaves.bind (guest_leaves s) fun g => ?_
  refine place_safe (k := fun p => orAbort .stuck (g.declaredType? p) >>= fun type =>
    pure (Wire.shown type)) hi (fun p _ => ?_) rfl
  exact Leaves.expect fun _ _ => Leaves.pure rfl

end WasmHost.Host
