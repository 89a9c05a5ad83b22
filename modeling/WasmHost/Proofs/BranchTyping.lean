import WasmHost.Proofs.InstructionTyping

/-!
# Branches

The operands and labels of an activation fit the typing state at its position: the operands of the
innermost block come first, then those of the code around it, and each label leads to a position where
the operands that a branch leaves are of the expected kinds. Opening and closing blocks and branching
out of them keeps it so.

A branch leaves several blocks at a time. It cuts the stack back to what was there when the
outermost of them was opened, puts the operands that it carries on top, and jumps. To say that the
result is well typed one must know, for each block that is open, which operands lie below it and
which state the code has behind it. `StackFits` has all of this, block by block, in the order of the
labels; it is an inductive relation because the operands of a block are known as a part of the whole
stack only with respect to those of the blocks around it.

The body itself is a block without a label: a branch to it returns. This is the base case, and the
reason why `drop`, which takes away the blocks that a branch leaves, comes out in two cases.

Where the instructions lie that labels lead to is known from the pairing (`Blocks`). The second
section draws from it the typing state behind each of them.
-/

namespace WasmHost.Guest

open Wasm

/-- The block that a body is. -/
def bodyBlock (c : Context) : OpenBlock := ⟨.block, [], c.results, [], false⟩

/-- Operands and labels fit the kinds and open blocks of a typing state. -/
inductive StackFits (n : Nat) (c : Context) (code : List Instr) :
    List Value → List Label → List Kind → List OpenBlock → Prop
  | body {vs : List Value} {ks : List Kind} (hvs : Value.FitAll n vs ks) :
      StackFits n c code vs [] ks [bodyBlock c]
  | block {vs outer : List Value} {ks outerKinds : List Kind} {label : Label} {labels : List Label}
      {b : OpenBlock} {bs : List OpenBlock} (hvs : Value.FitAll n vs ks) (hdead : b.dead = false)
      (hb : b.outer = outerKinds.map some) (harity : label.arity = b.branchKinds.length)
      (houter : label.outer = outer)
      (htarget : c.stateAt code label.target = some (.ofKinds (b.branchKinds.reverse ++ outerKinds) bs))
      (hrest : StackFits n c code outer labels outerKinds bs) :
      StackFits n c code (vs ++ outer) (label :: labels) ks (b :: bs)

namespace StackFits

variable {n m : Nat} {c : Context} {code : List Instr} {vs ws : List Value} {labels : List Label}
  {ks ks' : List Kind} {bs : List OpenBlock} {b : OpenBlock}

theorem mono (h : StackFits n c code vs labels ks bs) (hnm : n ≤ m) :
    StackFits m c code vs labels ks bs := by
  induction h with
  | body hvs => exact .body (hvs.mono hnm)
  | block hvs hdead hb harity houter htarget _ ih =>
    exact .block (hvs.mono hnm) hdead hb harity houter htarget ih

/-- Some block is open, and its code can be reached. -/
theorem exists_block (h : StackFits n c code vs labels ks bs) :
    ∃ b rest, bs = b :: rest ∧ b.dead = false := by
  cases h with
  | body => exact ⟨_, _, rfl, rfl⟩
  | block _ hdead => exact ⟨_, _, rfl, hdead⟩

/-- More operands. -/
theorem push (h : StackFits n c code vs labels ks bs) (hws : Value.FitAll n ws ks') :
    StackFits n c code (ws ++ vs) labels (ks' ++ ks) bs := by
  cases h with
  | body hvs => exact .body (hws.append hvs)
  | block hvs hdead hb harity houter htarget hrest =>
    rw [← List.append_assoc]
    exact .block (hws.append hvs) hdead hb harity houter htarget hrest

/-- Operands of the innermost block. -/
theorem pop (h : StackFits n c code vs labels (ks' ++ ks) bs) :
    ∃ ws rest, vs = ws ++ rest ∧ Value.FitAll n ws ks' ∧ StackFits n c code rest labels ks bs := by
  cases h with
  | body hvs =>
    obtain ⟨ws, rest, rfl, hws, hrest⟩ := Value.FitAll.split hvs
    exact ⟨ws, rest, rfl, hws, .body hrest⟩
  | block hvs hdead hb harity houter htarget hrest =>
    obtain ⟨ws, rest, rfl, hws, hvs⟩ := Value.FitAll.split hvs
    exact ⟨ws, rest ++ _, by simp, hws, .block hvs hdead hb harity houter htarget hrest⟩

/-- The operand on top. -/
theorem popOne {k : Kind} (h : StackFits n c code vs labels (k :: ks) bs) :
    ∃ v rest, vs = v :: rest ∧ v.Fits n k ∧ StackFits n c code rest labels ks bs := by
  have h' : StackFits n c code vs labels ([k] ++ ks) bs := h
  obtain ⟨ws, rest, rfl, hws, hrest⟩ := h'.pop
  obtain ⟨v, rfl, hv⟩ := Value.FitAll.one hws
  exact ⟨v, rest, rfl, hv, hrest⟩

/-- The block that a branch leaves: one with a label, or the body. -/
theorem drop (h : StackFits n c code vs labels ks bs) {depth : Nat} (hb : bs[depth]? = some b) :
    (labels.drop depth = [] ∧ b = bodyBlock c) ∨
      ∃ label rest outerKinds bs', labels.drop depth = label :: rest ∧
        label.arity = b.branchKinds.length ∧
        c.stateAt code label.target = some (.ofKinds (b.branchKinds.reverse ++ outerKinds) bs') ∧
        StackFits n c code label.outer rest outerKinds bs' := by
  induction h generalizing depth with
  | body hvs =>
    cases depth with
    | zero =>
      cases hb
      exact .inl ⟨rfl, rfl⟩
    | succ depth => simp at hb
  | block hvs hdead hb' harity houter htarget hrest ih =>
    cases depth with
    | zero =>
      cases hb
      exact .inr ⟨_, _, _, _, rfl, harity, htarget, houter ▸ hrest⟩
    | succ depth => exact ih hb

end StackFits

/-! ## The ends of blocks

A label leads behind the end of its block, or back to the beginning if the block is a loop. Where
the ends are is known from the pairing. -/

section Ends

variable {c : Context} {body : Body} {start : Nat} {i : Instr} {s : TypingState} {b : OpenBlock}
  {bs : List OpenBlock}

/-- The state behind the instruction that ends a block. -/
theorem stateAt_behind_end {code : List Instr} (hc : c.bodyTyped code = true) {place : Nat}
    (hi : code[place]? = some .end_) (hs : c.stateAt code place = some s) (hb : s.blocks = b :: bs) :
    c.stateAt code (place + 1) = some ⟨b.results.reverse.map some ++ b.outer, bs⟩ ∧
      (b.opener = .if_ → b.params = b.results) := by
  obtain ⟨-, s', hstep, hs'⟩ := Context.step_stateAt hc hi hs
  simp [TypingState.step, Option.bind_eq_some_iff, guard] at hstep
  obtain ⟨-, b', mid, hleave, hif, rfl⟩ := hstep
  obtain ⟨rest, hblocks, rfl, -⟩ := TypingState.leave_eq_some hleave
  rw [hb] at hblocks
  cases hblocks
  exact ⟨hs', hif⟩

/-- The state at the beginning of the second part of a block. -/
theorem stateAt_behind_else {code : List Instr} (hc : c.bodyTyped code = true) {place : Nat}
    (hi : code[place]? = some .else_) (hs : c.stateAt code place = some s)
    (hb : s.blocks = b :: bs) :
    c.stateAt code (place + 1) =
      some (.ofKinds b.params.reverse (⟨.else_, b.params, b.results, b.outer, false⟩ :: bs)) ∧
      b.opener = .if_ := by
  obtain ⟨-, s', hstep, hs'⟩ := Context.step_stateAt hc hi hs
  simp [TypingState.step, Option.bind_eq_some_iff, guard] at hstep
  obtain ⟨-, b', mid, hleave, hif, rfl⟩ := hstep
  obtain ⟨rest, hblocks, rfl, -⟩ := TypingState.leave_eq_some hleave
  rw [hb] at hblocks
  cases hblocks
  exact ⟨hs', hif⟩

/-- Where the first part of a block ends: at its end, or at the beginning of its second part. -/
inductive FirstEnd (c : Context) (body : Body) (b : OpenBlock) (bs : List OpenBlock) (place : Nat) :
    Prop
  | end_ {located : LocatedInstr} (hfound : body.code[place]? = some located)
      (hinstr : located.instr = .end_) (hif : b.opener = .if_ → b.params = b.results)
      (hstate : c.stateAt (instrs body.code) (place + 1) =
        some ⟨b.results.reverse.map some ++ b.outer, bs⟩)
  | else_ {located : LocatedInstr} (hfound : body.code[place]? = some located)
      (hinstr : located.instr = .else_) (hif : b.opener = .if_)
      (hstate : c.stateAt (instrs body.code) (place + 1) =
        some (.ofKinds b.params.reverse (⟨.else_, b.params, b.results, b.outer, false⟩ :: bs)))

/-- A block that an instruction opens is paired with the end of its first part. -/
theorem exists_firstEnd (hc : c.bodyTyped (instrs body.code) = true)
    (hi : (instrs body.code)[start]? = some i) (ho : i.opens = true)
    (hs : c.stateAt (instrs body.code) (start + 1) = some s) (hb : s.blocks = b :: bs) :
    ∃ place, body.jumps[start]? = some place ∧ FirstEnd c body b bs place := by
  obtain ⟨place, hplace, hends, s₁, s', b₁, b', bs', hs₁, hb₁, -, hs', hb', halive⟩ :=
    paired_of_link hc hi ho
  refine ⟨place, body.linked ▸ hplace, ?_⟩
  rw [hs] at hs₁
  cases hs₁
  rw [hb] at hb₁
  cases hb₁
  -- Whether the code of the block can be reached at its end does not matter to what follows it.
  have hsame : b'.opener = b.opener ∧ b'.params = b.params ∧ b'.results = b.results ∧
      b'.outer = b.outer := by
    rw [← halive]
    exact ⟨rfl, rfl, rfl, rfl⟩
  obtain ⟨hopener, hparams, hresults, houter⟩ := hsame
  simp only [getElem?_instrs, Option.map_eq_some_iff] at hends
  obtain ⟨located, hlocated, hinstr⟩ | ⟨located, hlocated, hinstr⟩ := hends
  · have hend : (instrs body.code)[place]? = some .end_ := by
      rw [getElem?_instrs, hlocated, Option.map_some, hinstr]
    obtain ⟨hstate, hif⟩ := stateAt_behind_end hc hend hs' hb'
    rw [hresults, houter] at hstate
    rw [hopener, hparams, hresults] at hif
    exact .end_ hlocated hinstr hif hstate
  · have helse : (instrs body.code)[place]? = some .else_ := by
      rw [getElem?_instrs, hlocated, Option.map_some, hinstr]
    obtain ⟨hstate, hif⟩ := stateAt_behind_else hc helse hs' hb'
    rw [hparams, hresults, houter] at hstate
    exact .else_ hlocated hinstr (hopener ▸ hif) hstate

/-- The second part of a block ends where the block does. -/
theorem exists_secondEnd (hc : c.bodyTyped (instrs body.code) = true)
    (hi : (instrs body.code)[start]? = some .else_)
    (hs : c.stateAt (instrs body.code) (start + 1) = some s) (hb : s.blocks = b :: bs)
    (hopener : b.opener = .else_) :
    ∃ place, body.jumps[start]? = some place ∧
      c.stateAt (instrs body.code) (place + 1) = some ⟨b.results.reverse.map some ++ b.outer, bs⟩ := by
  obtain ⟨place, hplace, hend⟩ := exists_firstEnd hc hi rfl hs hb
  cases hend with
  | end_ _ _ _ hstate => exact ⟨place, hplace, hstate⟩
  | else_ _ _ hif _ => simp [hopener] at hif

/-- Behind the end of a block, its results stand on top of the operands around it. -/
theorem stateAt_behindBlock {a : Activation} (hc : c.bodyTyped (instrs a.body.code) = true)
    (hi : (instrs a.body.code)[a.pc]? = some i) (ho : i.opens = true)
    (hs : c.stateAt (instrs a.body.code) (a.pc + 1) = some s) (hb : s.blocks = b :: bs) :
    c.stateAt (instrs a.body.code) (behindBlock a a.pc) =
      some ⟨b.results.reverse.map some ++ b.outer, bs⟩ := by
  obtain ⟨place, hplace, hend⟩ := exists_firstEnd hc hi ho hs hb
  cases hend with
  | @end_ located hfound hinstr _ hstate =>
    obtain ⟨offset, instr⟩ := located
    obtain rfl : instr = .end_ := hinstr
    simpa [behindBlock, hplace, hfound] using hstate
  | @else_ located hfound hinstr _ hstate =>
    obtain ⟨offset, instr⟩ := located
    obtain rfl : instr = .else_ := hinstr
    have helse : (instrs a.body.code)[place]? = some .else_ := by
      rw [getElem?_instrs, hfound, Option.map_some]
    obtain ⟨second, hsecond, hstate⟩ := exists_secondEnd hc helse hstate rfl rfl
    simpa [behindBlock, hplace, hfound, hsecond] using hstate

end Ends

end WasmHost.Guest
