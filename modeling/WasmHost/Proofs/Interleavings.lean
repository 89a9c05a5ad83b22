import WasmHost.Proofs.Programs

/-!
# Interleavings

Threads take their steps in any order. Each thread has a ledger of its own; a step of one thread
changes its ledger and leaves those of the others alone, and the invariant is about all of them taken
together. It holds of a world without contents and of every world that threads come to from there.

The order of steps is a list of numbers, any list: it says which thread takes the next step, and
says nothing about what this step is. What is proved of all such runs is proved of every schedule,
fair or not, however the runs are cut off; and since a run may be cut off anywhere, it is proved of
every world in the middle of any request.

For this it is enough to look at one step of one thread. `Act.Safe` was made so that it fits: its
frame `R` is the sum of the ledgers of the other threads (`exists_apart` takes one out of the sum
and puts another in its place), and its world is whatever they have left. That no lock occurs in any of this is no
omission. A step on the world stands for what is done under one lock, or by whoever has the only
reference to what is changed; so steps do not overlap.
-/

namespace WasmHost.Host

open Act

variable {κ : Type}

/-! ## A world without contents -/

section Empty

variable {σ : Type} (u : σ)

theorem World.refs_empty : (World.empty u : World κ σ).refs = 0 := by simp [refs, empty]

theorem World.recorded_empty (x : Share) : (World.empty u : World κ σ).recorded x = 0 := by
  cases x <;> simp [recorded, empty]

theorem Sound.empty : Sound (0 : Ledger κ) (World.empty u) where
  balanced x := by simp [World.refs_empty, World.recorded_empty]
  queued := by constructor <;> simp [World.empty, Chronicle.empty]
  hosted := by
    constructor <;> simp [World.empty, Chronicle.empty, guestAt, Slab.Sized]
    rfl
  engines e := by simp [World.empty, Chronicle.empty]
  blameless := by constructor <;> simp [World.empty, Chronicle.empty]

end Empty

theorem Invariant.empty : Invariant (0 : Ledger (Code κ)) (World.empty Pool.empty) where
  sound := by
    have h : (Pool.empty.kept : Ledger (Code κ)) = 0 := total_empty _
    simpa [World.empty, h] using Sound.empty Pool.empty
  lent := ⟨fun i x => by simp [World.empty, Pool.lent, Pool.at?, Pool.empty], rfl⟩

/-! ## Threads -/

namespace Threads

variable {t : Threads κ}

/-- Each thread keeps to a ledger of its own, and the world agrees with all of them. -/
structure Kept (t : Threads κ) (Ls : List (Ledger (Code κ))) : Prop where
  threads : List.Forall₂ (fun m L => m.Leaves L (fun _ => 0) 0) t.rest Ls
  invariant : Invariant Ls.sum t.world

/-- All threads keep to the rules. -/
def Safe (t : Threads κ) : Prop := ∃ Ls, t.Kept Ls

/-- The ledger of one thread, apart from those of the others. -/
theorem exists_apart {P : Job κ Unit → Ledger (Code κ) → Prop} {ms : List (Job κ Unit)}
    {Ls : List (Ledger (Code κ))} (h : List.Forall₂ P ms Ls) {i : Nat} {m : Job κ Unit}
    (hi : ms[i]? = some m) :
    ∃ L R, P m L ∧ Ls.sum = R + L ∧ ∀ m' L', P m' L' →
      ∃ Ls', List.Forall₂ P (ms.set i m') Ls' ∧ Ls'.sum = R + L' := by
  induction h generalizing i with
  | nil => cases hi
  | cons hm hms ih =>
    rename_i m₀ M ms Ls
    cases i with
    | zero =>
      cases hi
      exact ⟨M, Ls.sum, hm, by simp [add_comm], fun m' L' h =>
        ⟨L' :: Ls, .cons h hms, by simp [add_comm]⟩⟩
    | succ i =>
      obtain ⟨L, R, hL, hR, hset⟩ := ih hi
      refine ⟨L, M + R, hL, by simp [hR, add_assoc], fun m' L' h => ?_⟩
      obtain ⟨Ls', hLs', hsum⟩ := hset m' L' h
      exact ⟨M :: Ls', .cons hm hLs', by simp [hsum, add_assoc]⟩

/-- One step of any thread. -/
theorem Safe.step (h : t.Safe) (i : Nat) : (t.step i).Safe := by
  obtain ⟨Ls, hthreads, hinv⟩ := h
  unfold Threads.step
  split
  · rename_i β f next hi
    obtain ⟨L, R, hsafe, hR, hset⟩ := exists_apart hthreads hi
    obtain ⟨L', hinv', hnext⟩ := hsafe R t.world (hR ▸ hinv)
    obtain ⟨Ls', hthreads', hsum⟩ := hset _ L' hnext
    exact ⟨Ls', hthreads', hsum ▸ hinv'⟩
  · exact ⟨Ls, hthreads, hinv⟩

/-- Steps in any order. -/
theorem Safe.run (h : t.Safe) (order : List Nat) : (t.run order).Safe := by
  induction order generalizing t with
  | nil => exact h
  | cons i order ih => exact ih (h.step i)

/-- All threads have come to ends of their own. -/
def Over (t : Threads κ) : Prop := ∀ m ∈ t.rest, ∃ r, m = .done r ∧ r.ends = true

/-- The ledgers of threads that are over can be given up, for a thread that is over leaves an empty
one. -/
theorem settle {rest : List (Job κ Unit)} {Ls : List (Ledger (Code κ))}
    (h : List.Forall₂ (fun m L => m.Leaves L (fun _ => 0) 0) rest Ls)
    (hover : ∀ m ∈ rest, ∃ r, m = .done r ∧ r.ends = true) {R : Ledger (Code κ)}
    {w : World (Code κ) Pool} (hw : Invariant (R + Ls.sum) w) : Invariant R w := by
  induction h generalizing R with
  | nil => simpa using hw
  | @cons m L ms Ls hm _ ih =>
    obtain ⟨r, rfl, hr⟩ := hover m (List.mem_cons_self ..)
    rw [List.sum_cons, add_comm L, ← add_assoc] at hw
    obtain ⟨L', hw, hL'⟩ := hm hr (R + Ls.sum) w hw
    obtain rfl : L' = 0 := by cases r <;> exact hL'
    exact ih (fun m hm => hover m (List.mem_cons_of_mem _ hm)) (by simpa using hw)

/-- When all threads are over, everything that is held outside of the world lies in the pool. -/
theorem Safe.over (h : t.Safe) (hover : t.Over) : Invariant 0 t.world := by
  obtain ⟨Ls, hthreads, hinv⟩ := h
  exact settle hthreads hover (by simpa using hinv)

end Threads

/-- An embedder keeps to the rules when it starts, whatever its programs are. -/
theorem Embedder.safe_start (embedder : Embedder κ) (depth : Nat) (programs : List (Program κ Unit)) :
    (embedder.start depth programs).Safe := by
  refine ⟨programs.map fun _ => 0, ?_, ?_⟩
  · refine List.forall₂_map_left_iff.mpr (List.forall₂_map_right_iff.mpr (List.forall₂_same.mpr ?_))
    exact fun p _ => p.run_keeps (Setting.fits_outside (Calls.fair_through (embedder.fair_hostTo depth)))
  · have hsum : (programs.map fun _ => (0 : Ledger (Code κ))).sum = 0 := by simp
    rw [hsum]
    exact Invariant.empty

end WasmHost.Host
