import WasmHost.Proofs.Boundary
import WasmHost.Proofs.ExportViews

/-!
# On whose behalf host functions are called

If code of an instance calls a host function, however the call is made, the host function is called on
behalf of this instance. If host code calls it itself, it is called on behalf of nobody; and if it is
the start function of an instance, of that instance.

A host function is told on whose behalf it is called, and looks up exports there. If it were told
the wrong instance, it would look into the memory of another guest, without any error. What it
should be told is the instance whose *code* made the call; not the instance that the host called,
for that one may have called a function of another one, and not the instance that the function was
imported from.

In the engine the caller is found at the moment of the call, from the activation on top. That every
instruction leaves the activation in its own instance is shown in the first section, over all
instructions. The rest follows a thread, which may pass through activations of several instances and
through host functions, up to the call in question (`advance_called`, then `CallsOut.exists_next`).

The two cases that are left are those without any code: a host function that host code calls, and
one that is the start function of an instance.
-/

namespace WasmHost.Guest

open Wasm

variable {epoch key fuel : Nat} {type : Signature} {args : List Value} {caller : Option Nat}
  {s s' : Store} {a : Activation} {rest thread : List Activation} {final : List Kind}

/-! ## Instructions

`repeat' first` goes through the branches of an instruction: whether its operands are there, whether
it traps. In each of them the activation is changed in its stack, its locals or its position, and
the instance is carried along. -/

/-- The activation that an instruction leaves is one of an instance. -/
def Step.OfInstance (n : Nat) : Step → Prop
  | next _ a | call _ a .. => a.instance_ = n
  | tailCall .. | leave .. | trap .. => True

/-- If an instruction does anything, the activation that it leaves is one of an instance. -/
def StaysIn (n : Nat) (o : Option Step) : Prop := ∀ st, o = some st → st.OfInstance n

namespace StaysIn

variable {α : Type} {n : Nat}

theorem none : StaysIn n .none := fun _ h => by cases h

theorem some {st : Step} (h : st.OfInstance n) : StaysIn n (.some st) := by
  intro st' h'
  cases h'
  exact h

theorem bind {o : Option α} {f : α → Option Step} (h : ∀ x, StaysIn n (f x)) :
    StaysIn n (o.bind f) := by
  cases o with
  | none => exact none
  | some x => exact h x

theorem map {o : Option α} {f : α → Step} (h : ∀ x, o = .some x → (f x).OfInstance n) :
    StaysIn n (o.map f) := by
  cases o with
  | none => exact none
  | some x => exact some (h x rfl)

end StaysIn

section Instructions

variable {i : Instr} {operands : List Value} {pc : Nat}

theorem openBlock?_instance {block : BlockType} {a' : Activation}
    (h : openBlock? s a block operands pc = some a') : a'.instance_ = a.instance_ := by
  obtain ⟨arity, -, h⟩ := Option.bind_eq_some_iff.mp h
  cases h
  rfl

theorem branch_instance (a : Activation) (depth : Nat) : (a.branch depth).instance_ = a.instance_ := by
  unfold Activation.branch
  split <;> rfl

theorem executeControl_stays : StaysIn a.instance_ (executeControl epoch s a i) := by
  unfold executeControl
  split <;> repeat' first
    | exact .none
    | exact .some trivial
    | exact .some rfl
    | exact .some (branch_instance _ _)
    | exact .map fun _ h => openBlock?_instance h
    | refine .bind fun _ => ?_
    | split
    | (dsimp only; split)

theorem executeVariable_stays : StaysIn a.instance_ (executeVariable s a i) := by
  unfold executeVariable
  split <;> repeat' first
    | exact .none
    | exact .some rfl
    | exact .map fun _ _ => rfl
    | refine .bind fun _ => ?_

theorem executeNumeric_stays : StaysIn a.instance_ (executeNumeric s a i) := by
  refine .map fun p _ => ?_
  obtain ⟨r, ops⟩ := p
  cases r with
  | error cause => trivial
  | ok v => rfl

theorem executeMemory_stays : StaysIn a.instance_ (executeMemory s a i) := by
  unfold executeMemory outside
  split <;> repeat' first
    | exact .none
    | exact .some rfl
    | exact .some trivial
    | refine .bind fun _ => ?_
    | split
    | (dsimp only; split)

theorem executeTable_stays : StaysIn a.instance_ (executeTable s a i) := by
  unfold executeTable outside
  split <;> repeat' first
    | exact .none
    | exact .some rfl
    | exact .some trivial
    | refine .bind fun _ => ?_
    | split
    | (dsimp only; split)

theorem execute_stays : StaysIn a.instance_ (execute epoch s a i) := by
  unfold execute
  split <;> first
    | exact executeControl_stays
    | exact executeVariable_stays
    | exact executeTable_stays
    | exact executeMemory_stays
    | exact executeNumeric_stays
    | exact .none

end Instructions

/-! ## Threads

Of the steps of a thread only a call can stop it with a host function to be called, and the caller
is that of the activation which makes the call. -/

theorem enter_called {given : List Value} {caller' : Option Nat} {place : Nat}
    (h : enter epoch caller s thread place given =
      .stopped s' (.called key type args caller' rest)) :
    caller' = caller ∧ s' = s ∧ s.funcs[place]? = some (.host key type) := by
  unfold enter at h
  split at h
  · cases h
  · rename_i hplace
    cases h
    exact ⟨rfl, rfl, hplace⟩
  · dsimp only at h
    split at h
    · cases h
    · split at h <;> cases h

theorem resume_ne_called {results : List Value} :
    resume s thread results ≠ .stopped s' (.called key type args caller rest) := by
  cases thread <;> simp [resume]

/-- An instruction that calls a host function is of the instance that the function is called for. -/
theorem step_called (h : step epoch s (a :: rest) = .stopped s' (.called key type args caller thread)) :
    caller = some a.instance_ := by
  simp only [step] at h
  split at h
  · exact absurd h resume_ne_called
  · split at h
    · cases h
    · cases h
    · -- A call leaves the caller's activation below; it is one of the same instance as before.
      rename_i he
      rw [(enter_called h).1, execute_stays _ he]
    · exact (enter_called h).1
    · exact absurd h resume_ne_called
    · cases h

/-- A thread that has stopped for a call of a host function had stopped for it before it ran, or an
instruction of one of its instances has made the call. -/
theorem advance_called {p : Progress} (hp : p.Typed s final)
    (h : advance epoch fuel p = (s', .called key type args caller thread)) :
    p = .stopped s' (.called key type args caller thread) ∨
      ∃ s₁ a rest, step epoch s₁ (a :: rest) = .stopped s' (.called key type args caller thread) ∧
        caller = some a.instance_ ∧ a.instance_ < s'.instances.size := by
  induction fuel generalizing p with
  | zero =>
    cases p with
    | running s thread => cases h
    | stopped s event => cases h; exact .inl rfl
  | succ fuel ih =>
    cases hp with
    | stopped hs he => cases h; exact .inl rfl
    | @running s₁ a rest results hs ha hrest =>
      have hstep : (step epoch s₁ (a :: rest)).Typed s₁ final := step_typed ha hrest
      -- Either this step makes the call, or a later one does. The instance is there, since the
      -- activation is typed, and it stays there.
      rcases ih (hstep.after hs) h with hcalls | hlater
      · refine .inr ⟨s₁, a, rest, hcalls, step_called hcalls, ?_⟩
        obtain ⟨c, -, hchecked, -⟩ := ha
        obtain ⟨inst, hready⟩ := hchecked.ready
        rw [hcalls] at hstep
        cases hstep with
        | stopped hs' _ =>
          obtain ⟨inst', hfound, -⟩ := hs'.evolves.instances _ _ hready.found
          exact (Array.getElem?_eq_some_iff.mp hfound).1
      · exact .inr hlater

end WasmHost.Guest

namespace WasmHost.Host

open Act

variable {κ σ : Type}

/-- An instruction of an instance's code has called a host function with arguments, in a store whose
guest code is suspended since. -/
def World.CalledFrom (w : World κ σ) (s n key : Nat) (args : List Guest.Value) : Prop :=
  ∃ now before a rest g type thread,
    Guest.step now before (a :: rest) = .stopped g (.called key type args (some n) thread) ∧
      a.instance_ = n ∧ w.guest? s = some
        { g with exited := activeFrames g thread, stackUsed := g.stackUsed + hostStackCost }

section Calling

variable [Keeper κ σ] {R L : Ledger κ} {known : List (Pin κ)} {w w' : World κ σ}
  {s key place n : Nat} {default caller : Option Nat} {args given : List Guest.Value}
  {host : Runner κ σ}

omit [Keeper κ σ] in
theorem CallsNext.isSome_guest? {start : Guest.Store → Guest.Progress}
    {thread : List Guest.Activation} (h : CallsNext s default start w key caller args thread w') :
    (w'.guest? s).isSome := by
  obtain ⟨now, g, g', type, instance_, -, hg, -, -, rfl⟩ := h
  exact Option.isSome_iff_exists.mpr ⟨_, World.guest?_setGuest (World.guest?_setGuest hg g') _⟩

omit [Keeper κ σ] in
theorem CallsNext.calling {start : Guest.Store → Guest.Progress} {thread : List Guest.Activation}
    {final : List Kind} (h : CallsNext s default start w key caller args thread w')
    (ht : w.Orderly) (hstart : w.Starts s start final) (ht' : w'.Orderly) :
    (∃ n inst, caller = some n ∧ w'.HasInstance s n inst ∧ w'.CalledFrom s n key args) ∨
      ∃ g g' type instance_, w.guest? s = some g ∧ instance_.or default = caller ∧
        start g = .stopped g' (.called key type args instance_ thread) := by
  obtain ⟨now, g, g', type, instance_, -, hg, hevent, hcaller, rfl⟩ := h
  have hguest := World.guest?_setGuest (World.guest?_setGuest hg g')
    { g' with exited := activeFrames g' thread, stackUsed := g'.stackUsed + hostStackCost }
  obtain ⟨htyped, -⟩ := hstart w g (.refl ht) hg
  -- It is an instruction that calls, or the thread never ran.
  rcases Guest.advance_called htyped hevent with hstopped | ⟨before, a, rest, hstep, rfl, hlt⟩
  · exact .inr ⟨g, g', type, instance_, hg, hcaller, hstopped⟩
  · have hat := ht'.hasInstance hguest (Array.getElem?_eq_getElem hlt)
    exact .inl ⟨a.instance_, _, hcaller.symm, hat,
      now, before, a, rest, g', type, thread, hstep, rfl, hguest⟩

variable (hfair : Fair host) (hsteady : Steady host)

include hfair hsteady

/-- Whatever host function a call comes to, code of an instance calls it, on its behalf; unless it is
the function that the call is of. -/
theorem PlaceCallsOut.calling {type : Signature}
    (h : PlaceCallsOut host s place default given key caller args w w')
    (hw : Invariant (R + .tenure s known none ::ₘ L) w) (ht : w.Orderly)
    (hplace : w.HasFuncOf s place type) (hgiven : List.Forall₂ (w.Fits s) given type.params) :
    w.Leads w' ∧ (w'.guest? s).isSome ∧
      ((∃ n inst, caller = some n ∧ w'.HasInstance s n inst ∧ w'.CalledFrom s n key args) ∨
        caller = default ∧ w'.In s fun g => ∃ type, g.funcs[place]? = some (.host key type)) := by
  obtain ⟨now, w₀, hout, hlead₀, hw₀, hstart⟩ := h.starts hw ht hplace hgiven
  obtain ⟨known', start, w₁, thread, hnext, hw₁, hamong, hlead₁, hstart₁, hbegun⟩ :=
    hout.exists_next hfair hsteady hw₀ (fun g => Guest.enter_among rfl place given) hlead₀.orderly
      hstart
  obtain ⟨hlead', -⟩ := hnext.typed hw₁ hamong hlead₁.orderly hstart₁
  refine ⟨hlead₀.trans (hlead₁.trans hlead'), hnext.isSome_guest?, ?_⟩
  rcases hnext.calling hlead₁.orderly hstart₁ hlead'.orderly with
    hcode | ⟨g, g', type', instance_, hg, hcaller, hstopped⟩
  · exact .inl hcode
  -- The thread had not run when it stopped, so it had only just been begun.
  rcases hbegun with ⟨rfl, rfl⟩ | ⟨passing, results, rfl⟩
  · obtain ⟨rfl, rfl, hhost⟩ := Guest.enter_called hstopped
    refine .inr ⟨hcaller.symm, World.In.lead (.of_guest? hg ⟨type', hhost⟩) hlead' ?_⟩
    exact fun _ _ he ⟨type, hfound⟩ => ⟨type, he.evolves.funcs _ _ hfound⟩
  · exact absurd hstopped Guest.resume_ne_called

end Calling

section Asking

variable {κ : Type} {L : Ledger (Code κ)} {host : Runner (Code κ) Pool} {s place key n : Nat}
  {given args : List Guest.Value} {default caller : Option Nat} {α : Type} {m : Job κ α}
  {w w₁ w₂ : World (Code κ) Pool}

/-- A start function is called on behalf of the instance that it is one of. -/
theorem Asks.made (h : Asks host s place given m w (some n) w₁) (hw : Invariant L w)
    (ht : w.Orderly) : ∃ code, Instance.Made w₁ s n code := by
  have hw₀ : Invariant (0 + L) w := by rwa [zero_add]
  cases h with
  | start huse henters hstart hgiven =>
    obtain ⟨-, -, cell, -, hmade⟩ := henters.typed hw₀ ht
    exact ⟨_, hmade⟩

/-- A host function is called by code of an instance, on its behalf; or it is the function that
host code calls, on behalf of nobody, or the start function of an instance, on behalf of this. -/
theorem Asks.calling (h : Asks host s place given m w default w₁) (hfair : Fair host)
    (hsteady : Steady host) (hw : Invariant L w) (ht : w.Orderly)
    (hout : PlaceCallsOut host s place default given key caller args w₁ w₂) :
    (∃ n inst, caller = some n ∧ w₂.HasInstance s n inst ∧ w₂.CalledFrom s n key args) ∨
      caller = default ∧ (w₂.In s fun g => ∃ type, g.funcs[place]? = some (.host key type)) ∧
        ∀ n, caller = some n → ∃ inst, w₂.HasInstance s n inst := by
  obtain ⟨R, known, N, hw₁⟩ := h.invariant hw
  obtain ⟨ht₁, type, hplace, hgiven⟩ := h.typed hw ht
  obtain ⟨hlead, hthere, hcode | ⟨rfl, hhost⟩⟩ :=
    hout.calling hfair hsteady hw₁ ht₁ hplace hgiven
  · exact .inl hcode
  refine .inr ⟨rfl, hhost, fun n hn => ?_⟩
  subst hn
  obtain ⟨code, hmade⟩ := h.made hw ht
  obtain ⟨g, hg⟩ := Option.isSome_iff_exists.mp hthere
  obtain ⟨inst, hfound, -⟩ := (hmade.lead hlead).2 g hg
  exact ⟨inst, hlead.orderly.hasInstance hg hfound⟩

end Asking

end WasmHost.Host
