import Mathlib.Data.Option.Basic
import WasmHost.Wasm.Validate

/-!
# Blocks of a body

Checking a body gives a typing state before each of its instructions (`Context.stateAt`). In code
that can be reached, operands of known kinds are taken from exactly those that are there. The
pairing of a body (`link`) sends each instruction that opens a block to a place where the same block
is open and about to be closed: that is what lets a thread jump to the end of a block and go on as
if it had come there from above (`paired_of_link`).

The checker of bodies goes through the instructions once, from front to back, with a stack of open
blocks; it never looks at the pairing. A thread does the opposite: it jumps by the pairing, and does
not know what is open. That both mean the same blocks is what has to be shown before anything can be
said about a branch, and there is no structure to recurse over, since a body is a flat list of
instructions. So both are run side by side. `Linked` is the invariant: at each position, the blocks
that the pairing has open are those the checker has open, each opened by the instruction at its
position; and all blocks that were closed before are paired with the right places.

Dead code is why "the same block" needs a word of explanation. Behind a branch the checker goes on
with operands it makes up as they are asked for, and marks the block as dead until it ends. The
block at its end may therefore differ by this mark from the one that was opened, and
`OpenBlock.alive` takes the mark away. A thread never comes to dead code, so typing states are only
ever compared with threads where everything is `Known`.
-/

namespace WasmHost.Wasm

variable {c : Context} {code : List Instr} {s s' : TypingState} {i : Instr} {p : Nat}

/-! ## States along a body -/

theorem TypingState.run_append (xs ys : List Instr) :
    s.run c (xs ++ ys) = (s.run c xs).bind (·.run c ys) := by
  induction xs generalizing s with
  | nil => rfl
  | cons i xs ih =>
    simp only [List.cons_append, TypingState.run]
    split
    · rfl
    · cases s.step c i with
      | none => rfl
      | some s => exact ih

/-- The typing state before the instruction at a position. -/
def Context.stateAt (c : Context) (code : List Instr) (p : Nat) : Option TypingState :=
  (TypingState.initial c.results).run c (code.take p)

theorem Context.stateAt_zero : c.stateAt code 0 = some (.initial c.results) := by
  simp [stateAt, TypingState.run]

/-- In a body that is well typed there is a state at every position. -/
theorem Context.exists_stateAt (h : c.bodyTyped code = true) (p : Nat) :
    ∃ s, c.stateAt code p = some s := by
  obtain ⟨last, hlast, -⟩ := (Option.any_eq_true ..).mp h
  rw [← List.take_append_drop p code, TypingState.run_append] at hlast
  obtain ⟨s, hs, -⟩ := Option.bind_eq_some_iff.mp hlast
  exact ⟨s, hs⟩

/-- At the end of a body that is well typed, every block is closed. -/
theorem Context.blocks_stateAt_end (h : c.bodyTyped code = true) (hp : code.length ≤ p)
    (hs : c.stateAt code p = some s) : s.blocks = [] := by
  obtain ⟨last, hlast, hclosed⟩ := (Option.any_eq_true ..).mp h
  rw [stateAt, List.take_of_length_le hp, hlast] at hs
  cases hs
  simpa using hclosed

/-- Each instruction is typed in the state before it, and leads to the next one. -/
theorem Context.step_stateAt (h : c.bodyTyped code = true) (hi : code[p]? = some i)
    (hs : c.stateAt code p = some s) :
    s.blocks ≠ [] ∧ ∃ s', s.step c i = some s' ∧ c.stateAt code (p + 1) = some s' := by
  obtain ⟨next, hnext⟩ := exists_stateAt h (p + 1)
  have htake : code.take (p + 1) = code.take p ++ [i] := by simp [List.take_add_one, hi]
  have hrun := hnext
  rw [stateAt, htake, TypingState.run_append, ← stateAt, hs] at hrun
  simp only [Option.bind_some, TypingState.run] at hrun
  split at hrun
  · cases hrun
  · rename_i hblocks
    obtain ⟨s', hs', hrun⟩ := Option.bind_eq_some_iff.mp hrun
    cases hrun
    exact ⟨by simpa using hblocks, next, hs', hnext⟩

/-! ## Taking operands -/

namespace TypingState

theorem blocks_of_popAny {o : Option Kind} (h : s.popAny = some (o, s')) : s'.blocks = s.blocks := by
  unfold popAny at h
  split at h
  · cases h
    rfl
  · split at h <;> cases h
    rfl

theorem blocks_of_pop {k : Kind} (h : s.pop k = some s') : s'.blocks = s.blocks := by
  simp [pop, Option.bind_eq_some_iff, guard] at h
  obtain ⟨o, h, -⟩ := h
  exact blocks_of_popAny h

theorem blocks_of_popAll {kinds : List Kind} (h : s.popAll kinds = some s') :
    s'.blocks = s.blocks := by
  unfold popAll at h
  generalize kinds.reverse = ks at h
  induction ks generalizing s with
  | nil =>
    cases h
    rfl
  | cons k ks ih =>
    obtain ⟨mid, hk, h⟩ := Option.bind_eq_some_iff.mp h
    exact (ih h).trans (blocks_of_pop hk)

/-- The code at a state can be reached, and the kinds of all operands are known. -/
structure Known (s : TypingState) : Prop where
  reached : s.isDead = false
  operands : ∀ o ∈ s.operands, ∃ k, o = some k

theorem popAny_known (hs : s.Known) {o : Option Kind} (h : s.popAny = some (o, s')) :
    ∃ k, o = some k ∧ s.operands = some k :: s'.operands ∧ s'.Known := by
  unfold popAny at h
  split at h
  · rename_i o' rest hops
    cases h
    obtain ⟨k, rfl⟩ := hs.operands o (by simp [hops])
    exact ⟨k, rfl, hops, hs.reached, fun o ho => hs.operands o (by simp_all)⟩
  · simp [hs.reached] at h

/-- In code that can be reached, an operand of a kind is there if it is taken. -/
theorem pop_known (hs : s.Known) {k : Kind} (h : s.pop k = some s') :
    s.operands = some k :: s'.operands ∧ s'.Known := by
  simp [pop, Option.bind_eq_some_iff, guard] at h
  obtain ⟨o, hpop, hk⟩ := h
  obtain ⟨k', rfl, hops, hs'⟩ := popAny_known hs hpop
  obtain rfl : k' = k := by simpa using hk
  exact ⟨hops, hs'⟩

/-- The same for several operands. -/
theorem popAll_known (hs : s.Known) {kinds : List Kind} (h : s.popAll kinds = some s') :
    s.operands = kinds.reverse.map some ++ s'.operands ∧ s'.Known := by
  unfold popAll at h
  generalize kinds.reverse = ks at h ⊢
  induction ks generalizing s with
  | nil =>
    cases h
    exact ⟨rfl, hs⟩
  | cons k ks ih =>
    obtain ⟨mid, hk, h⟩ := Option.bind_eq_some_iff.mp h
    obtain ⟨hops, hmid⟩ := pop_known hs hk
    obtain ⟨hops', hs'⟩ := ih hmid h
    exact ⟨by simp [hops, hops'], hs'⟩

/-! ## Opening and closing blocks -/

/-- What closing a block gives. -/
theorem leave_eq_some {b : OpenBlock} (h : s.leave = some (b, s')) :
    ∃ rest, s.blocks = b :: rest ∧ s' = ⟨b.outer, rest⟩ ∧
      ∃ last, s.popAll b.results = some last ∧ last.operands = [] := by
  unfold leave at h
  split at h
  · cases h
  · rename_i b' rest hblocks
    simp [Option.bind_eq_some_iff, guard] at h
    obtain ⟨last, hlast, hops, rfl, rfl⟩ := h
    exact ⟨rest, hblocks, rfl, last, hlast, hops⟩

theorem leave_tail {b : OpenBlock} (h : s.leave = some (b, s')) : s.blocks = b :: s'.blocks := by
  obtain ⟨rest, hblocks, rfl, -⟩ := leave_eq_some h
  exact hblocks

theorem die_blocks {b : OpenBlock} {bs : List OpenBlock} (h : s.blocks = b :: bs) :
    s.die = ⟨[], { b with dead := true } :: bs⟩ := by
  simp [die, h]

end TypingState

/-- A block whose code can be reached, and that is otherwise the same. -/
def OpenBlock.alive (b : OpenBlock) : OpenBlock := { b with dead := false }

/-- An instruction opens or closes blocks. -/
def Instr.nests : Instr → Bool
  | block _ | loop _ | if_ _ | else_ | end_ => true
  | _ => false

/-- An instruction opens a block. -/
def Instr.opens : Instr → Bool
  | block _ | loop _ | if_ _ | else_ => true
  | _ => false

/-- What an instruction does to the open blocks. -/
inductive BlockStep : Instr → List OpenBlock → List OpenBlock → Prop
  | opens {i : Instr} {b : OpenBlock} {bs : List OpenBlock} (hi : i.opens = true) (he : i ≠ .else_)
      (hb : b.alive = b) : BlockStep i bs (b :: bs)
  | turns {b b' : OpenBlock} {bs : List OpenBlock} (hif : b.opener = .if_) (hb : b'.alive = b') :
      BlockStep .else_ (b :: bs) (b' :: bs)
  | closes {b : OpenBlock} {bs : List OpenBlock} : BlockStep .end_ (b :: bs) bs
  | stays {i : Instr} {b b' : OpenBlock} {bs : List OpenBlock} (hi : i.nests = false)
      (hb : b'.alive = b.alive) : BlockStep i (b :: bs) (b' :: bs)

theorem Instr.opens_of_nests (h : i.nests = false) : i.opens = false := by
  cases i <;> first | rfl | cases h

/-- An instruction that opens a block, apart from the one that opens its second part. -/
theorem Instr.opens_cases (h : i.opens = true) (he : i ≠ .else_) :
    (∃ t, i = .block t) ∨ (∃ t, i = .loop t) ∨ ∃ t, i = .if_ t := by
  cases i with
  | block t => exact .inl ⟨t, rfl⟩
  | loop t => exact .inr (.inl ⟨t, rfl⟩)
  | if_ t => exact .inr (.inr ⟨t, rfl⟩)
  | else_ => exact absurd rfl he
  | _ => cases h

section Results

variable {α β : Type} {P : β → Prop}

/-- What is said of the result of a computation is said of what it goes on with. -/
theorem of_bind {o : Option α} {f : α → Option β}
    (h : ∀ a, o = some a → ∀ b, f a = some b → P b) : ∀ b, (o >>= f) = some b → P b := by
  intro b hb
  obtain ⟨a, ha, hb⟩ := Option.bind_eq_some_iff.mp hb
  exact h a ha b hb

theorem of_pure {a : β} (h : P a) : ∀ b, (pure a : Option β) = some b → P b := by
  rintro _ ⟨⟩
  exact h

theorem of_guard {p : Prop} {_ : Decidable p} {u : Unit} (h : (guard p : Option Unit) = some u) :
    p := by
  refine Decidable.byContradiction fun hp => ?_
  simp [guard, hp] at h

end Results

namespace BlockStep

variable {b : OpenBlock} {bs : List OpenBlock}

theorem of_same (hbs : s.blocks = b :: bs) (hi : i.nests = false) (h : s'.blocks = s.blocks) :
    BlockStep i s.blocks s'.blocks := by
  rw [h, hbs]
  exact .stays hi rfl

theorem of_die (hbs : s.blocks = b :: bs) (hi : i.nests = false) (h : s'.blocks = s.blocks) :
    BlockStep i s.blocks s'.die.blocks := by
  rw [TypingState.die_blocks (h.trans hbs), hbs]
  exact .stays hi rfl

theorem of_enter (hi : i.opens = true) (he : i ≠ .else_) (h : s'.blocks = s.blocks)
    (opener : Opener) (type : Signature) :
    BlockStep i s.blocks (s'.enter opener type).blocks := by
  rw [← h]
  exact .opens hi he rfl

open TypingState

theorem of_step (hb : s.blocks ≠ []) : ∀ s', s.step c i = some s' →
    BlockStep i s.blocks s'.blocks := by
  obtain ⟨b, bs, hbs⟩ := List.exists_cons_of_ne_nil hb
  unfold TypingState.step
  refine of_bind fun _ _ => ?_
  split
  case h_1 => exact of_pure (of_die hbs rfl rfl)
  case h_2 | h_3 =>
    refine of_bind fun type _ => of_bind fun _ _ => of_bind fun s₁ h₁ => of_pure ?_
    exact of_enter rfl (by simp) (blocks_of_popAll h₁) _ _
  case h_4 =>
    refine of_bind fun type _ => of_bind fun _ _ => of_bind fun s₁ h₁ => of_bind fun s₂ h₂ =>
      of_pure ?_
    exact of_enter rfl (by simp) ((blocks_of_popAll h₂).trans (blocks_of_pop h₁)) _ _
  case h_5 =>
    refine of_bind fun (b, s₁) h₁ => of_bind fun _ hif => of_pure ?_
    rw [leave_tail h₁]
    exact .turns (of_guard hif) rfl
  case h_6 =>
    refine of_bind fun (b, s₁) h₁ => of_bind fun _ _ => of_pure ?_
    rw [leave_tail h₁]
    exact .closes
  case h_7 =>
    refine of_bind fun kinds _ => of_bind fun s₁ h₁ => of_pure ?_
    exact of_die hbs rfl (blocks_of_popAll h₁)
  case h_8 =>
    refine of_bind fun s₁ h₁ => of_bind fun kinds _ => of_bind fun s₂ h₂ => of_pure ?_
    exact of_same hbs rfl ((blocks_of_popAll h₂).trans (blocks_of_pop h₁))
  case h_9 =>
    refine of_bind fun s₁ h₁ => of_bind fun kinds _ => of_bind fun _ _ => of_bind fun s₂ h₂ =>
      of_pure ?_
    exact of_die hbs rfl ((blocks_of_popAll h₂).trans (blocks_of_pop h₁))
  case h_10 => exact of_bind fun s₁ h₁ => of_pure (of_die hbs rfl (blocks_of_popAll h₁))
  case h_11 =>
    refine of_bind fun type _ => of_bind fun _ _ => of_bind fun s₁ h₁ => of_pure ?_
    exact of_die hbs rfl (blocks_of_popAll h₁)
  case h_12 =>
    refine of_bind fun (params, results) _ => of_bind fun _ _ => of_bind fun s₁ h₁ => of_pure ?_
    exact of_die hbs rfl (blocks_of_popAll h₁)
  case h_13 => exact of_bind fun (o, s₁) h₁ => of_pure (of_same hbs rfl (blocks_of_popAny h₁))
  case h_14 =>
    refine of_bind fun s₁ h₁ => of_bind fun (o₂, s₂) h₂ => of_bind fun (o₃, s₃) h₃ => ?_
    refine of_bind fun _ _ => of_bind fun _ _ => of_pure (of_same hbs rfl ?_)
    exact ((blocks_of_popAny h₃).trans (blocks_of_popAny h₂)).trans (blocks_of_pop h₁)
  case h_15 =>
    refine of_bind fun (o, s₁) h₁ => of_bind fun _ _ => of_pure ?_
    have hblocks := blocks_of_popAny h₁
    exact of_same hbs rfl hblocks
  case h_16 =>
    refine of_bind fun (params, results) _ => of_bind fun s₁ h₁ => of_pure ?_
    have hblocks := blocks_of_popAll h₁
    refine of_same hbs ?_ hblocks
    unfold Instr.nests
    split <;> simp_all

end BlockStep

/-! ## The pairing

One lemma for each thing that an instruction may do to the open blocks, then one step of the
invariant, and the induction over the positions. -/

section Link

variable {code : Array LocatedInstr} {fuel pos start : Nat} {opened : List Nat} {jumps : Array Nat}

/-- The instructions of a body. -/
def instrs (code : Array LocatedInstr) : List Instr := code.toList.map LocatedInstr.instr

theorem getElem?_instrs (code : Array LocatedInstr) (p : Nat) :
    (instrs code)[p]? = (code[p]?).map LocatedInstr.instr := by
  simp [instrs]

theorem linkFrom_opens (hi : (instrs code)[pos]? = some i) (ho : i.opens = true) (he : i ≠ .else_) :
    linkFrom code (fuel + 1) pos opened jumps =
      linkFrom code fuel (pos + 1) (pos :: opened) jumps := by
  rw [getElem?_instrs] at hi
  obtain ⟨located, hlocated, rfl⟩ := Option.map_eq_some_iff.mp hi
  rcases Instr.opens_cases ho he with ⟨t, hi⟩ | ⟨t, hi⟩ | ⟨t, hi⟩ <;> simp [linkFrom, hlocated, hi]

theorem linkFrom_turns (hi : (instrs code)[pos]? = some .else_) :
    linkFrom code (fuel + 1) pos (start :: opened) jumps =
      linkFrom code fuel (pos + 1) (pos :: opened) (jumps.setIfInBounds start pos) := by
  rw [getElem?_instrs] at hi
  obtain ⟨located, hlocated, hi⟩ := Option.map_eq_some_iff.mp hi
  simp [linkFrom, hlocated, hi]

theorem linkFrom_closes (hi : (instrs code)[pos]? = some .end_) :
    linkFrom code (fuel + 1) pos (start :: opened) jumps =
      linkFrom code fuel (pos + 1) opened (jumps.setIfInBounds start pos) := by
  rw [getElem?_instrs] at hi
  obtain ⟨located, hlocated, hi⟩ := Option.map_eq_some_iff.mp hi
  simp [linkFrom, hlocated, hi]

theorem linkFrom_closes_last (hi : (instrs code)[pos]? = some .end_) :
    linkFrom code (fuel + 1) pos [] jumps = linkFrom code fuel (pos + 1) [] jumps := by
  rw [getElem?_instrs] at hi
  obtain ⟨located, hlocated, hi⟩ := Option.map_eq_some_iff.mp hi
  simp [linkFrom, hlocated, hi]

theorem linkFrom_stays (hi : (instrs code)[pos]? = some i) (hn : i.nests = false) :
    linkFrom code (fuel + 1) pos opened jumps = linkFrom code fuel (pos + 1) opened jumps := by
  rw [getElem?_instrs] at hi
  obtain ⟨located, hlocated, rfl⟩ := Option.map_eq_some_iff.mp hi
  rw [linkFrom.eq_def]
  simp only [hlocated]
  split
  case h_6 => rfl
  all_goals
    rename_i hi
    rw [hi] at hn
    cases hn

theorem linkFrom_end (hpos : code.size ≤ pos) : linkFrom code fuel pos opened jumps = jumps := by
  cases fuel with
  | zero => rfl
  | succ fuel => simp [linkFrom, Array.getElem?_eq_none hpos]

/-- A block that an instruction opens is open at a place that the instruction is paired with, where
the block ends or its second part begins. -/
structure Paired (c : Context) (code : List Instr) (start place : Nat) : Prop where
  ends : code[place]? = some .end_ ∨ code[place]? = some .else_
  open_ : ∃ s s' b b' bs, c.stateAt code (start + 1) = some s ∧ s.blocks = b :: bs ∧
    b.alive = b ∧ c.stateAt code place = some s' ∧ s'.blocks = b' :: bs ∧ b'.alive = b

/-- Blocks and the positions at which they were opened; the block of the body itself has none. -/
inductive OpenedAt (c : Context) (code : List Instr) : List Nat → List OpenBlock → Prop
  | done : OpenedAt c code [] []
  | body {b : OpenBlock} (hb : b.opener = .block) : OpenedAt c code [] [b]
  | block {start : Nat} {s : TypingState} {b : OpenBlock} {opened : List Nat} {bs : List OpenBlock}
      (hs : c.stateAt code (start + 1) = some s) (hb : s.blocks = b.alive :: bs)
      (hbs : OpenedAt c code opened bs) (hne : bs ≠ []) :
      OpenedAt c code (start :: opened) (b :: bs)

/-- What has been paired before a position: all blocks that were opened and closed again. -/
structure Linked (c : Context) (code : List Instr) (pos : Nat) (opened : List Nat)
    (jumps : Array Nat) : Prop where
  state : ∃ s, c.stateAt code pos = some s ∧ OpenedAt c code opened s.blocks
  before : ∀ start ∈ opened, start < pos
  distinct : opened.Nodup
  size : jumps.size = code.length
  paired : ∀ start i, start < pos → code[start]? = some i → i.opens = true → start ∉ opened →
    ∃ place, jumps[start]? = some place ∧ Paired c code start place

/-- The innermost block is closed, or its second part begins. -/
theorem Linked.pair {c : Context} {code : List Instr} {s₁ s : TypingState} {b : OpenBlock}
    {bs : List OpenBlock} (h : Linked c code pos (start :: opened) jumps) (hpos : pos < code.length)
    (hends : code[pos]? = some .end_ ∨ code[pos]? = some .else_)
    (hs₁ : c.stateAt code (start + 1) = some s₁) (hb₁ : s₁.blocks = b.alive :: bs)
    (hs : c.stateAt code pos = some s) (hb : s.blocks = b :: bs) {start' : Nat} {i : Instr}
    (hstart : start' < pos) (hi : code[start']? = some i) (ho : i.opens = true)
    (hnot : start' ∉ opened) :
    ∃ place, (jumps.setIfInBounds start pos)[start']? = some place ∧ Paired c code start' place := by
  have hlt := h.before start (List.mem_cons_self ..)
  by_cases heq : start' = start
  · subst heq
    refine ⟨pos, ?_, hends, s₁, s, b.alive, b, bs, hs₁, hb₁, rfl, hs, hb, rfl⟩
    rw [Array.getElem?_setIfInBounds_self, if_pos (by rw [h.size]; omega)]
  · rw [Array.getElem?_setIfInBounds_ne (Ne.symm heq)]
    exact h.paired start' i hstart hi ho (by simp [heq, hnot])

/-- Only the instructions before one that opens nothing open anything up to it. -/
theorem lt_of_opens {code : List Instr} {i i' : Instr} (hi : code[pos]? = some i)
    (hn : i.opens = false) {start' : Nat} (hlt : start' < pos + 1)
    (hi' : code[start']? = some i') (ho : i'.opens = true) : start' < pos := by
  refine Nat.lt_of_le_of_ne (Nat.le_of_lt_succ hlt) fun heq => ?_
  rw [heq, hi] at hi'
  cases hi'
  simp [hn] at ho

/-- One instruction more. What it does to the open blocks is one of the four cases of `BlockStep`,
and what the pairing does follows from it. -/
theorem linkFrom_succ (fuel : Nat) {c : Context} (hc : c.bodyTyped (instrs code) = true)
    (h : Linked c (instrs code) pos opened jumps) (hpos : pos < code.size) :
    ∃ opened' jumps', Linked c (instrs code) (pos + 1) opened' jumps' ∧
      linkFrom code (fuel + 1) pos opened jumps = linkFrom code fuel (pos + 1) opened' jumps' := by
  have hlength : pos < (instrs code).length := by simpa [instrs] using hpos
  obtain ⟨i, hi⟩ : ∃ i, (instrs code)[pos]? = some i := ⟨_, List.getElem?_eq_getElem hlength⟩
  obtain ⟨s, hs, hopened⟩ := h.state
  obtain ⟨hne, s', hstep, hs'⟩ := Context.step_stateAt hc hi hs
  have hblocks := BlockStep.of_step hne _ hstep
  generalize hB : s.blocks = B at hblocks hopened hne
  generalize hB' : s'.blocks = B' at hblocks
  have hfresh : pos ∉ opened := fun hmem => Nat.lt_irrefl _ (h.before pos hmem)
  cases hblocks with
  -- A block is opened: both have one more, and nothing is paired yet.
  | opens ho he hb =>
    rename_i b
    refine ⟨pos :: opened, jumps, ⟨⟨s', hs', ?_⟩, ?_, ?_, h.size, ?_⟩, linkFrom_opens hi ho he⟩
    · rw [hB']
      exact .block hs' (by rw [hB', hb]) hopened hne
    · intro start hstart
      rcases List.mem_cons.mp hstart with rfl | hstart
      · exact Nat.lt_succ_self _
      · exact Nat.lt_succ_of_lt (h.before start hstart)
    · exact List.nodup_cons.mpr ⟨hfresh, h.distinct⟩
    · intro start i' hlt hi' ho' hnot
      obtain ⟨hne', hnot⟩ := not_or.mp (fun hor => hnot (List.mem_cons.mpr hor))
      exact h.paired start i' (by omega) hi' ho' hnot
  -- The first part ends and is paired with this place, at which the second part is opened.
  | turns hif hb =>
    cases hopened with
    | body hbody => simp [hif] at hbody
    | block hs₁ hb₁ hbs hne' =>
      rename_i start s₁ opened
      obtain ⟨hnotmem, hnodup⟩ := List.nodup_cons.mp h.distinct
      refine ⟨pos :: opened, _, ⟨⟨s', hs', ?_⟩, ?_, ?_, ?_, ?_⟩, linkFrom_turns hi⟩
      · rw [hB']
        exact .block hs' (by rw [hB', hb]) hbs hne'
      · intro start' hstart
        rcases List.mem_cons.mp hstart with rfl | hstart
        · exact Nat.lt_succ_self _
        · exact Nat.lt_succ_of_lt (h.before start' (List.mem_cons_of_mem _ hstart))
      · exact List.nodup_cons.mpr ⟨fun hmem => hfresh (List.mem_cons_of_mem _ hmem), hnodup⟩
      · simpa using h.size
      · intro start' i' hlt hi' ho' hnot
        obtain ⟨hne', hnot⟩ := not_or.mp (fun hor => hnot (List.mem_cons.mpr hor))
        exact h.pair hlength (.inr hi) hs₁ hb₁ hs hB (by omega) hi' ho' hnot
  -- The innermost block ends and is paired with this place, unless it is the body.
  | closes =>
    cases hopened with
    | body hbody =>
      refine ⟨[], jumps, ⟨⟨s', hs', hB' ▸ .done⟩, nofun, .nil, h.size, ?_⟩, linkFrom_closes_last hi⟩
      exact fun start' i' hlt hi' ho' hnot =>
        h.paired start' i' (lt_of_opens hi rfl hlt hi' ho') hi' ho' hnot
    | block hs₁ hb₁ hbs hne' =>
      rename_i start s₁ opened
      refine ⟨opened, _, ⟨⟨s', hs', hB' ▸ hbs⟩, ?_, (List.nodup_cons.mp h.distinct).2, ?_, ?_⟩,
        linkFrom_closes hi⟩
      · exact fun start' hstart => Nat.lt_succ_of_lt (h.before start' (List.mem_cons_of_mem _ hstart))
      · simpa using h.size
      · exact fun start' i' hlt hi' ho' hnot =>
          h.pair hlength (.inl hi) hs₁ hb₁ hs hB (lt_of_opens hi rfl hlt hi' ho') hi' ho' hnot
  -- No block begins or ends, though the innermost one may be dead from here on.
  | stays hn hb =>
    have hopens := Instr.opens_of_nests hn
    refine ⟨opened, jumps, ⟨⟨s', hs', ?_⟩, ?_, h.distinct, h.size, ?_⟩, linkFrom_stays hi hn⟩
    · rw [hB']
      cases hopened with
      | body hbody => exact .body ((congrArg OpenBlock.opener hb).trans hbody)
      | block hs₁ hb₁ hbs hne' => exact .block hs₁ (hb ▸ hb₁) hbs hne'
    · exact fun start hstart => Nat.lt_succ_of_lt (h.before start hstart)
    · exact fun start' i' hlt hi' ho' hnot =>
        h.paired start' i' (lt_of_opens hi hopens hlt hi' ho') hi' ho' hnot

theorem linked_linkFrom {c : Context} (hc : c.bodyTyped (instrs code) = true)
    (h : Linked c (instrs code) pos opened jumps) (hpos : pos ≤ code.size)
    (hfuel : code.size < fuel + pos) :
    Linked c (instrs code) code.size [] (linkFrom code fuel pos opened jumps) := by
  induction fuel generalizing pos opened jumps with
  | zero => omega
  | succ fuel ih =>
    by_cases hend : pos = code.size
    · subst hend
      obtain ⟨s, hs, hopened⟩ := h.state
      rw [linkFrom_end (Nat.le_refl _)]
      have hblocks := Context.blocks_stateAt_end hc (by simp [instrs]) hs
      rw [hblocks] at hopened
      cases hopened
      exact h
    · obtain ⟨opened', jumps', h', heq⟩ := linkFrom_succ fuel hc h (by omega)
      rw [heq]
      exact ih h' (by omega) (by omega)

/-- In a body that is well typed, every instruction that opens a block is paired. -/
theorem paired_of_link {c : Context} (hc : c.bodyTyped (instrs code) = true) {i : Instr}
    (hi : (instrs code)[start]? = some i) (ho : i.opens = true) :
    ∃ place, (link code)[start]? = some place ∧ Paired c (instrs code) start place := by
  have hlinked : Linked c (instrs code) code.size [] (link code) := by
    refine linked_linkFrom hc ⟨⟨_, Context.stateAt_zero, .body rfl⟩, nofun, .nil, ?_, ?_⟩ (Nat.zero_le _) ?_
    · simp [instrs]
    · exact fun start i hlt => absurd hlt (Nat.not_lt_zero _)
    · omega
  have hlt : start < (instrs code).length := (List.getElem?_eq_some_iff.mp hi).1
  exact hlinked.paired start i (by simpa [instrs] using hlt) hi ho (by simp)

end Link

end WasmHost.Wasm
