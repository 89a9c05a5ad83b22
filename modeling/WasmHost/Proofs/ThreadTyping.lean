import WasmHost.Proofs.BranchTyping

/-!
# Typed threads

An activation is typed if its locals, operands and labels fit the typing state at its position, or if
a branch has taken it to the end of its body with the results on the stack. A thread is typed if each
of its activations awaits what the one inside of it gives. Every instruction keeps it so, in a typed
store; so a thread that finishes gives values of the kinds that were promised, and one that calls out
passes arguments of the parameters' kinds and goes on with results of the results' kinds.

This is type safety, in the form in which the host needs it. What matters is not that typed code
never gets stuck; it is that values which go out of a thread, as arguments of host functions or as
final results, are of the kinds that were declared, in a store that is typed still. For this every
instruction must be followed, since any of them may be the one that breaks the stack.

The proof has three levels. On the first, an activation is at an instruction, with the typing states
before and behind it (`Activation.AtInstr`), and executing the instruction gives a typed step
(`execute_keeps`): this is one lemma for each control instruction, and the lemmas of
`InstructionTyping` for all the others. On the second, a step is taken by a thread, and may enter a
function or leave one (`step_typed`). On the third, a thread takes any number of steps
(`advance_typed`). A thread that calls out is resumed with values of the host, so the host has to
check these, and what it is told of the thread is that it awaits values of certain kinds.

An activation that returns by a branch is a case of its own. It has jumped to the end of its body,
where the checker has no state any more; so `Activation.At` has a second case for it, `ended`.
-/

namespace WasmHost.Guest

open Wasm

/-! ## Activations -/

/-- An activation of a body that was checked in a context. -/
structure Activation.Checked (s : Store) (a : Activation) (c : Context) : Prop where
  ready : ∃ inst, a.Ready s c inst
  body : c.bodyTyped (instrs a.body.code) = true
  arity : a.arity = c.results.length

/-- Where an activation is: at an instruction, with operands and labels that fit the typing state, or
at the end, with the results. -/
inductive Activation.At (s : Store) (a : Activation) (c : Context) : Prop
  | inside {ks : List Kind} {bs : List OpenBlock}
      (hstate : c.stateAt (instrs a.body.code) a.pc = some (.ofKinds ks bs))
      (hstack : StackFits s.funcs.size c (instrs a.body.code) a.operands a.labels ks bs)
  | ended (hpc : a.body.code.size ≤ a.pc)
      (hresults : Value.FitAll s.funcs.size a.operands c.results.reverse)

/-- Before the first instruction there are no operands, and only the body itself is open. -/
theorem Activation.At.start {s : Store} {a : Activation} {c : Context} (hpc : a.pc = 0)
    (hoperands : a.operands = []) (hlabels : a.labels = []) : a.At s c := by
  have hstate : c.stateAt (instrs a.body.code) a.pc = some (.ofKinds [] [bodyBlock c]) := by
    rw [hpc]
    exact Context.stateAt_zero
  refine .inside hstate ?_
  rw [hoperands, hlabels]
  exact .body .nil

/-- An activation that will give results of certain kinds. -/
def Activation.Typed (s : Store) (a : Activation) (results : List Kind) : Prop :=
  ∃ c, c.results = results ∧ a.Checked s c ∧ a.At s c

/-- An activation that has called a function and awaits values of certain kinds from it. -/
def Activation.Awaits (s : Store) (a : Activation) (awaited results : List Kind) : Prop :=
  ∃ c ks bs, c.results = results ∧ a.Checked s c ∧
    c.stateAt (instrs a.body.code) (a.pc + 1) = some (.ofKinds (awaited.reverse ++ ks) bs) ∧
    StackFits s.funcs.size c (instrs a.body.code) a.operands a.labels ks bs

section Activations

variable {s s' : Store} {a a' : Activation} {c : Context} {results awaited : List Kind}

theorem Activation.Ready.evolve {inst : Instance} (h : a.Ready s c inst) (hs : s.Leads s') :
    ∃ inst', a.Ready s' c inst' := by
  obtain ⟨inst', hinst', halike⟩ := hs.evolves.instances _ _ h.found
  refine ⟨inst', hs.typed, hinst', ?_, h.locals.imp fun _ _ hv => hv.mono hs.evolves.size_funcs⟩
  obtain ⟨htypes, hfuncs, htables, hmemories, hglobals, helements⟩ := h.context
  constructor <;> rw [halike.module] <;> assumption

theorem Activation.Checked.evolve (h : a.Checked s c) (hs : s.Leads s') : a.Checked s' c where
  ready :=
    let ⟨_, hready⟩ := h.ready
    hready.evolve hs
  body := h.body
  arity := h.arity

theorem Activation.Typed.evolve (h : a.Typed s results) (hs : s.Leads s') : a.Typed s' results := by
  obtain ⟨c, hc, hchecked, hat⟩ := h
  refine ⟨c, hc, hchecked.evolve hs, ?_⟩
  cases hat with
  | inside hstate hstack => exact .inside hstate (hstack.mono hs.evolves.size_funcs)
  | ended hpc hresults => exact .ended hpc (hresults.mono hs.evolves.size_funcs)

theorem Activation.Awaits.evolve (h : a.Awaits s awaited results) (hs : s.Leads s') :
    a.Awaits s' awaited results := by
  obtain ⟨c, ks, bs, hc, hchecked, hstate, hstack⟩ := h
  exact ⟨c, ks, bs, hc, hchecked.evolve hs, hstate, hstack.mono hs.evolves.size_funcs⟩

/-- Nothing that has to do with fuel or time matters. -/
theorem Activation.Checked.congr (h : a.Checked s c) (hinstance : a'.instance_ = a.instance_)
    (hlocals : a'.locals = a.locals) (hbody : a'.body = a.body) (harity : a'.arity = a.arity) :
    a'.Checked s c where
  ready := by
    obtain ⟨inst, hready⟩ := h.ready
    exact ⟨inst, hready.store, hinstance ▸ hready.found, hready.context, hlocals ▸ hready.locals⟩
  body := hbody ▸ h.body
  arity := harity ▸ h.arity

/-- An activation goes on with the values that it awaited. -/
theorem Activation.Awaits.resume (h : a.Awaits s awaited results) {vs : List Value}
    (hvs : Value.FitAll s.funcs.size vs awaited) :
    (a.leaving (vs.reverse ++ a.operands)).Typed s results := by
  obtain ⟨c, ks, bs, hc, hchecked, hstate, hstack⟩ := h
  exact ⟨c, hc, hchecked.congr rfl rfl rfl rfl, .inside hstate (hstack.push hvs.reverse)⟩

end Activations

/-! ## Threads -/

/-- What an instruction does to an activation that gives results of certain kinds. -/
inductive Step.Typed (s : Store) (results : List Kind) : Step → Prop
  | next {s' : Store} {a : Activation} (hs : s.Leads s') (ha : a.Typed s' results) :
      Typed s results (.next s' a)
  | call {s' : Store} {a : Activation} {place : Nat} {args : List Value} {f : Func}
      (hs : s.Leads s') (hf : s'.funcs[place]? = some f)
      (hargs : Value.FitAll s'.funcs.size args f.type.params)
      (ha : a.Awaits s' f.type.results results) : Typed s results (.call s' a place args)
  | tailCall {s' : Store} {place : Nat} {args : List Value} {f : Func}
      (hs : s.Leads s') (hf : s'.funcs[place]? = some f)
      (hargs : Value.FitAll s'.funcs.size args f.type.params) (hresults : f.type.results = results) :
      Typed s results (.tailCall s' place args)
  | leave {s' : Store} {vs : List Value} (hs : s.Leads s')
      (hvs : Value.FitAll s'.funcs.size vs results) : Typed s results (.leave s' vs)
  | trap {s' : Store} {cause : TrapCause} (hs : s.Leads s') : Typed s results (.trap s' cause)

theorem Store.Typed.saveFuel {s : Store} (hs : s.Typed) (a : Activation) :
    s.Leads (saveFuel s a).1 := .of_items hs rfl rfl rfl rfl rfl

theorem Store.Typed.afterFailedCheck {s : Store} (hs : s.Typed) (a : Activation) (code : TrapCode) :
    s.Leads (afterFailedCheck s a code) := by
  unfold Guest.afterFailedCheck
  split
  · exact hs.saveFuel a
  · exact .refl hs

/-! ## Control instructions

For each of them, what the checker did with the typing state is compared with what the thread does
with its stack. -/

section Control

variable {epoch : Nat} {s : Store} {a : Activation} {c : Context} {i : Instr} {st : Step}
  {ks : List Kind} {bs : List OpenBlock} {next : TypingState} {inst : Instance}

/-- An activation at an instruction, with the typing states before and behind it. -/
structure Activation.AtInstr (s : Store) (a : Activation) (c : Context) (i : Instr) (ks : List Kind)
    (bs : List OpenBlock) (next : TypingState) : Prop where
  checked : a.Checked s c
  instr : (instrs a.body.code)[a.pc]? = some i
  state : c.stateAt (instrs a.body.code) a.pc = some (.ofKinds ks bs)
  stack : StackFits s.funcs.size c (instrs a.body.code) a.operands a.labels ks bs
  step : (TypingState.ofKinds ks bs).step c i = some next
  behind : c.stateAt (instrs a.body.code) (a.pc + 1) = some next

namespace Activation.AtInstr

theorem typed (h : a.AtInstr s c i ks bs next) : s.Typed :=
  let ⟨_, hready⟩ := h.checked.ready
  hready.store

/-- The activation goes on at the next instruction, or at another one with a fitting state. -/
theorem goes (h : a.AtInstr s c i ks bs next) {a' : Activation} {ks' : List Kind}
    {bs' : List OpenBlock} (hinstance : a'.instance_ = a.instance_) (hlocals : a'.locals = a.locals)
    (hbody : a'.body = a.body) (harity : a'.arity = a.arity)
    (hstate : c.stateAt (instrs a.body.code) a'.pc = some (.ofKinds ks' bs'))
    (hstack : StackFits s.funcs.size c (instrs a.body.code) a'.operands a'.labels ks' bs') :
    (Step.next s a').Typed s c.results := by
  refine .next (.refl h.typed)
    ⟨c, rfl, h.checked.congr hinstance hlocals hbody harity, ?_⟩
  exact .inside (hbody ▸ hstate) (hbody ▸ hstack)

/-- Operands that an instruction takes. -/
theorem pop (h : a.AtInstr s c i ks bs next) {kinds : List Kind} {mid : TypingState}
    (hpop : (TypingState.ofKinds ks bs).popAll kinds = some mid) :
    ∃ ws below rest, a.operands = ws ++ below ∧ Value.FitAll s.funcs.size ws kinds.reverse ∧
      ks = kinds.reverse ++ rest ∧ mid = .ofKinds rest bs ∧
      StackFits s.funcs.size c (instrs a.body.code) below a.labels rest bs := by
  obtain ⟨b, bs, rfl, hb⟩ := h.stack.exists_block
  obtain ⟨rest, rfl, rfl⟩ := TypingState.popAll_ofKinds hb hpop
  obtain ⟨ws, below, hops, hws, hbelow⟩ := h.stack.pop
  exact ⟨ws, below, rest, hops, hws, rfl, rfl, hbelow⟩

end Activation.AtInstr

/-! ### Blocks -/

theorem blockArity?_eq (h : a.Ready s c inst) {t : BlockType} {type : Signature}
    (htype : c.blockSignature? t = some type) {arity : Nat × Nat}
    (ha : blockArity? s a t = some arity) : arity = (type.params.length, type.results.length) := by
  cases t with
  | empty =>
    cases htype
    cases ha
    rfl
  | result k =>
    cases htype
    cases ha
    rfl
  | indexed n =>
    simp only [Context.blockSignature?, h.context.types] at htype
    split at htype
    · simp [blockArity?, h.instanceOf?, htype] at ha
      exact ha.symm
    · cases htype

/-- A block is opened whose parameters are on the stack. -/
theorem openBlock?_typed (h : a.AtInstr s c i ks bs next) {t : BlockType} {type : Signature}
    (htype : c.blockSignature? t = some type) {ws below : List Value} {rest : List Kind}
    (hws : Value.FitAll s.funcs.size ws type.params.reverse)
    (hbelow : StackFits s.funcs.size c (instrs a.body.code) below a.labels rest bs)
    {pc : Nat} {b : OpenBlock} (hb : b.outer = rest.map some) (hresults : b.results = type.results)
    (hopener : b.opener ≠ .loop) (hdead : b.dead = false)
    (hstate : c.stateAt (instrs a.body.code) pc = some (.ofKinds type.params.reverse (b :: bs)))
    (hbehind : c.stateAt (instrs a.body.code) (behindBlock a a.pc) =
      some ⟨b.results.reverse.map some ++ b.outer, bs⟩)
    {a' : Activation} (ha : openBlock? s a t (ws ++ below) pc = some a') :
    (Step.next s a').Typed s c.results := by
  obtain ⟨inst, hready⟩ := h.checked.ready
  obtain ⟨arity, harity, ha⟩ := Option.bind_eq_some_iff.mp ha
  obtain rfl := blockArity?_eq hready htype harity
  cases ha
  have hbranch : b.branchKinds = type.results := by simp [OpenBlock.branchKinds, hopener, hresults]
  have hdrop : (ws ++ below).drop type.params.length = below := by
    simp [hws.length_eq]
  refine h.goes rfl rfl rfl rfl hstate (.block hws hdead hb ?_ hdrop ?_ hbelow)
  · simp [hbranch]
  · rw [hbranch, ← hresults]
    simpa [TypingState.ofKinds, hb] using hbehind

theorem executeControl_block {t : BlockType} (h : a.AtInstr s c (.block t) ks bs next)
    (he : executeControl epoch s a (.block t) = some st) : st.Typed s c.results := by
  have hstep := h.step
  simp [TypingState.step, Option.bind_eq_some_iff, guard] at hstep
  obtain ⟨-, type, htype, -, mid, hmid, rfl⟩ := hstep
  obtain ⟨ws, below, rest, hops, hws, rfl, rfl, hbelow⟩ := h.pop hmid
  obtain ⟨a', ha', rfl⟩ := Option.map_eq_some_iff.mp he
  rw [hops] at ha'
  exact openBlock?_typed h htype hws hbelow rfl rfl (by simp) rfl h.behind
    (stateAt_behindBlock h.checked.body h.instr rfl h.behind rfl) ha'

theorem executeControl_loop {t : BlockType} (h : a.AtInstr s c (.loop t) ks bs next)
    (he : executeControl epoch s a (.loop t) = some st) : st.Typed s c.results := by
  have hstep := h.step
  simp [TypingState.step, Option.bind_eq_some_iff, guard] at hstep
  obtain ⟨-, type, htype, -, mid, hmid, rfl⟩ := hstep
  obtain ⟨ws, below, rest, hops, hws, rfl, rfl, hbelow⟩ := h.pop hmid
  obtain ⟨inst, hready⟩ := h.checked.ready
  simp only [executeControl] at he
  split at he
  · cases he
    exact .trap (h.typed.afterFailedCheck a _)
  · obtain ⟨arity, harity, he⟩ := Option.bind_eq_some_iff.mp he
    obtain rfl := blockArity?_eq hready htype harity
    cases he
    have hdrop : a.operands.drop type.params.length = below := by
      simp [hops, hws.length_eq]
    refine h.goes rfl rfl rfl rfl h.behind ?_
    -- A branch goes back to the instruction itself.
    have hstack : StackFits s.funcs.size c (instrs a.body.code) (ws ++ below)
        (⟨a.pc, type.params.length, a.operands.drop type.params.length⟩ :: a.labels)
        type.params.reverse (⟨.loop, type.params, type.results, rest.map some, false⟩ :: bs) :=
      .block hws rfl rfl rfl hdrop h.state hbelow
    rwa [← hops] at hstack

theorem executeControl_if {t : BlockType} (h : a.AtInstr s c (.if_ t) ks bs next)
    (he : executeControl epoch s a (.if_ t) = some st) : st.Typed s c.results := by
  have hstep := h.step
  obtain ⟨b, bs, rfl, hdead⟩ := h.stack.exists_block
  simp [TypingState.step, Option.bind_eq_some_iff, guard] at hstep
  obtain ⟨-, type, htype, -, popped, hpopped, mid, hmid, rfl⟩ := hstep
  obtain ⟨rest, rfl, rfl⟩ := TypingState.pop_ofKinds hdead hpopped
  obtain ⟨rest, rfl, rfl⟩ := TypingState.popAll_ofKinds hdead hmid
  obtain ⟨cond, ops, hops, hcond, hstack⟩ := h.stack.popOne
  obtain ⟨ws, below, rfl, hws, hbelow⟩ := hstack.pop
  obtain ⟨x, rfl⟩ := hcond.number
  have hbehind := stateAt_behindBlock h.checked.body h.instr rfl h.behind rfl
  simp only [executeControl, hops] at he
  split at he
  · obtain ⟨a', ha', rfl⟩ := Option.map_eq_some_iff.mp he
    exact openBlock?_typed h htype hws hbelow rfl rfl (by simp) rfl h.behind hbehind ha'
  · obtain ⟨place, hplace, hend⟩ := exists_firstEnd h.checked.body h.instr rfl h.behind rfl
    rw [hplace] at he
    cases hend with
    | @end_ located hfound hinstr hif hstate =>
      obtain ⟨offset, instr⟩ := located
      obtain rfl : instr = .end_ := hinstr
      simp only [Option.getD_some, hfound] at he
      cases he
      -- Without a second part, the parameters are the results.
      have hsame : type.params = type.results := hif rfl
      have hstate' : c.stateAt (instrs a.body.code) (place + 1) =
          some (.ofKinds (type.results.reverse ++ rest) (b :: bs)) := by
        simpa [TypingState.ofKinds] using hstate
      exact h.goes rfl rfl rfl rfl hstate' (hsame ▸ hbelow.push hws)
    | @else_ located hfound hinstr hif hstate =>
      obtain ⟨offset, instr⟩ := located
      obtain rfl : instr = .else_ := hinstr
      simp only [Option.getD_some, hfound] at he
      obtain ⟨a', ha', rfl⟩ := Option.map_eq_some_iff.mp he
      exact openBlock?_typed h htype hws hbelow rfl rfl (by simp) rfl hstate hbehind ha'

/-- A block other than the body is closed with its results on the stack. -/
theorem StackFits.close {n : Nat} {code : List Instr} {vs : List Value} {label : Label}
    {labels : List Label} {b : OpenBlock}
    (h : StackFits n c code vs (label :: labels) b.results.reverse (b :: bs)) :
    ∃ outerKinds, b.outer = outerKinds.map some ∧
      StackFits n c code vs labels (b.results.reverse ++ outerKinds) bs := by
  generalize hks : b.results.reverse = ks at h
  cases h with
  | block hvs _ houter _ _ _ hrest => exact ⟨_, houter, hrest.push hvs⟩

/-- Without labels, the only open block is the body. -/
theorem StackFits.last {n : Nat} {code : List Instr} {vs : List Value} {b : OpenBlock}
    (h : StackFits n c code vs [] ks (b :: bs)) : b = bodyBlock c ∧ Value.FitAll n vs ks := by
  cases h with
  | body hvs => exact ⟨rfl, hvs⟩

theorem executeControl_else (h : a.AtInstr s c .else_ ks bs next)
    (he : executeControl epoch s a .else_ = some st) : st.Typed s c.results := by
  have hstep := h.step
  obtain ⟨b, bs, rfl, hdead⟩ := h.stack.exists_block
  simp [TypingState.step, Option.bind_eq_some_iff, guard] at hstep
  obtain ⟨-, b', mid, hleave, hif, rfl⟩ := hstep
  obtain ⟨rest, hblocks, rfl, last, hlast, hempty⟩ := TypingState.leave_eq_some hleave
  cases hblocks
  obtain ⟨rest, rfl, rfl⟩ := TypingState.popAll_ofKinds hdead hlast
  obtain rfl : rest = [] := by simpa [TypingState.ofKinds] using hempty
  obtain ⟨place, hplace, hstate⟩ := exists_secondEnd h.checked.body h.instr h.behind rfl rfl
  have hstack := h.stack
  rw [List.append_nil] at hstack
  cases hlabels : a.labels with
  | nil =>
    rw [hlabels] at hstack
    rw [hstack.last.1] at hif
    cases hif
  | cons label labels =>
    rw [hlabels] at hstack
    obtain ⟨outerKinds, houter, hclosed⟩ := hstack.close
    cases he
    have hstate' : c.stateAt (instrs a.body.code) ((a.body.jumps[a.pc]?).getD a.body.code.size + 1) =
        some (.ofKinds (b.results.reverse ++ outerKinds) bs) := by
      simpa [hplace, TypingState.ofKinds, houter] using hstate
    exact h.goes rfl rfl rfl rfl hstate' (by simpa [hlabels] using hclosed)

/-- The results of a body are the operands on top of its stack. -/
theorem Activation.AtInstr.results (h : a.AtInstr s c i ks bs next) {ws below : List Value}
    (hops : a.operands = ws ++ below) (hws : Value.FitAll s.funcs.size ws c.results.reverse) :
    Value.FitAll s.funcs.size (a.operands.take a.arity).reverse c.results := by
  have hlength : a.arity = ws.length := by simp [hws.length_eq, h.checked.arity]
  rw [hops, hlength, List.take_left]
  simpa using hws.reverse

theorem executeControl_end (h : a.AtInstr s c .end_ ks bs next)
    (he : executeControl epoch s a .end_ = some st) : st.Typed s c.results := by
  have hstep := h.step
  obtain ⟨b, bs, rfl, hdead⟩ := h.stack.exists_block
  obtain ⟨rfl, rfl⟩ := TypingState.step_end hdead hstep
  have hstack := h.stack
  simp only [executeControl] at he
  cases hlabels : a.labels with
  | nil =>
    rw [hlabels] at he hstack
    cases he
    obtain ⟨rfl, hvs⟩ := hstack.last
    exact .leave (h.typed.saveFuel a) (h.results (List.append_nil _).symm hvs)
  | cons label labels =>
    rw [hlabels] at he hstack
    obtain ⟨outerKinds, houter, hclosed⟩ := hstack.close
    cases he
    have hstate : c.stateAt (instrs a.body.code) (a.pc + 1) =
        some (.ofKinds (b.results.reverse ++ outerKinds) bs) := by
      simpa [TypingState.ofKinds, houter] using h.behind
    exact h.goes rfl rfl rfl rfl hstate hclosed

/-! ### Branches -/

/-- A branch takes the operands it carries to where they are expected. -/
theorem branch_typed (h : a.AtInstr s c i ks bs next) {a' : Activation} {ws below : List Value}
    {depth : Nat} {kinds rest : List Kind} (hinstance : a'.instance_ = a.instance_)
    (hlocals : a'.locals = a.locals) (hbody : a'.body = a.body) (harity : a'.arity = a.arity)
    (hlabels : a'.labels = a.labels) (hops : a'.operands = ws ++ below)
    (hkinds : (TypingState.ofKinds rest bs).branch? depth = some kinds)
    (hws : Value.FitAll s.funcs.size ws kinds.reverse) :
    (Step.next s (a'.branch depth)).Typed s c.results := by
  obtain ⟨b, hb, rfl⟩ := Option.map_eq_some_iff.mp hkinds
  have hlength : ws.length = b.branchKinds.length := by simp [hws.length_eq]
  obtain ⟨hnil, rfl⟩ | ⟨label, labels, outerKinds, bs', hcons, hcount, hstate, hstack⟩ :=
    h.stack.drop hb
  · have hbranch : a'.branch depth =
        { a' with pc := a'.body.code.size, operands := a'.operands.take a'.arity, labels := [] } := by
      simp [Activation.branch, hlabels, hnil]
    have htake : a'.operands.take a'.arity = ws := by
      have hcount : c.results.length = ws.length := hlength.symm
      rw [hops, harity, h.checked.arity, hcount, List.take_left]
    rw [hbranch, htake]
    exact .next (.refl h.typed)
      ⟨c, rfl, h.checked.congr hinstance hlocals hbody harity, .ended (Nat.le_refl _) hws⟩
  · have hbranch : a'.branch depth =
        { a' with
          pc := label.target
          operands := a'.operands.take label.arity ++ label.outer
          labels := labels } := by
      simp [Activation.branch, hlabels, hcons]
    rw [hbranch, hops, hcount, ← hlength, List.take_left]
    exact h.goes hinstance hlocals hbody harity hstate (hstack.push hws)

theorem executeControl_br {depth : Nat} (h : a.AtInstr s c (.br depth) ks bs next)
    (he : executeControl epoch s a (.br depth) = some st) : st.Typed s c.results := by
  have hstep := h.step
  simp [TypingState.step, Option.bind_eq_some_iff, guard] at hstep
  obtain ⟨-, kinds, hkinds, mid, hmid, -⟩ := hstep
  obtain ⟨ws, below, rest, hops, hws, -, -, -⟩ := h.pop hmid
  cases he
  exact branch_typed h rfl rfl rfl rfl rfl hops hkinds hws

/-- The condition of an instruction is on top of the stack. -/
theorem Activation.AtInstr.popCondition (h : a.AtInstr s c i ks bs next) {mid : TypingState}
    (hpop : (TypingState.ofKinds ks bs).pop .i32 = some mid) :
    ∃ x ops rest, a.operands = .i32 x :: ops ∧ ks = .i32 :: rest ∧ mid = .ofKinds rest bs ∧
      StackFits s.funcs.size c (instrs a.body.code) ops a.labels rest bs := by
  have hone : (TypingState.ofKinds ks bs).popAll [.i32] = some mid := by
    simpa [TypingState.popAll] using hpop
  obtain ⟨ws, ops, rest, hops, hws, rfl, rfl, hstack⟩ := h.pop hone
  obtain ⟨v, rfl, hv⟩ := Value.FitAll.one hws
  obtain ⟨x, rfl⟩ := hv.number
  exact ⟨x, ops, rest, hops, rfl, rfl, hstack⟩

theorem executeControl_brIf {depth : Nat} (h : a.AtInstr s c (.brIf depth) ks bs next)
    (he : executeControl epoch s a (.brIf depth) = some st) : st.Typed s c.results := by
  have hstep := h.step
  obtain ⟨b, bs, rfl, hdead⟩ := h.stack.exists_block
  simp [TypingState.step, Option.bind_eq_some_iff, guard] at hstep
  obtain ⟨-, popped, hpopped, kinds, hkinds, mid, hmid, rfl⟩ := hstep
  obtain ⟨x, ops, rest, hops, rfl, rfl, hstack⟩ := h.popCondition hpopped
  obtain ⟨rest', rfl, rfl⟩ := TypingState.popAll_ofKinds hdead hmid
  simp only [executeControl, hops] at he
  cases he
  split
  · obtain ⟨ws, below, rfl, hws, -⟩ := hstack.pop
    exact branch_typed h rfl rfl rfl rfl rfl rfl hkinds hws
  · have hstate : c.stateAt (instrs a.body.code) (a.pc + 1) =
        some (.ofKinds (kinds.reverse ++ rest') (b :: bs)) := by
      simpa [TypingState.push, TypingState.ofKinds] using h.behind
    exact h.goes rfl rfl rfl rfl hstate hstack

/-- A loop that never stops early has come through for everything. -/
theorem forIn_eq_some {α : Type} {xs : List α} {g : α → Option (ForInStep PUnit)} {u : PUnit}
    (hg : ∀ x r, g x = some r → r = .yield ⟨⟩) (h : forIn xs PUnit.unit (fun x _ => g x) = some u) :
    ∀ x ∈ xs, ∃ r, g x = some r := by
  induction xs with
  | nil => exact nofun
  | cons x xs ih =>
    rw [List.forIn_cons] at h
    obtain ⟨r, hr, h⟩ := Option.bind_eq_some_iff.mp h
    obtain rfl := hg x r hr
    intro y hy
    rcases List.mem_cons.mp hy with rfl | hy
    · exact ⟨_, hr⟩
    · exact ih h y hy

theorem executeControl_brTable {depths : List Nat} {last : Nat}
    (h : a.AtInstr s c (.brTable depths last) ks bs next)
    (he : executeControl epoch s a (.brTable depths last) = some st) : st.Typed s c.results := by
  have hstep := h.step
  obtain ⟨b, bs, rfl, hdead⟩ := h.stack.exists_block
  simp [TypingState.step, Option.bind_eq_some_iff, guard] at hstep
  obtain ⟨-, popped, hpopped, kinds, hkinds, ⟨u, hloop⟩, mid, hmid, -⟩ := hstep
  obtain ⟨x, ops, rest, hops, rfl, rfl, hstack⟩ := h.popCondition hpopped
  have hall : ∀ depth ∈ last :: depths, ∃ kinds mid,
      (TypingState.ofKinds rest (b :: bs)).branch? depth = some kinds ∧
        (TypingState.ofKinds rest (b :: bs)).popAll kinds = some mid := by
    intro depth hdepth
    rcases List.mem_cons.mp hdepth with rfl | hdepth
    · exact ⟨kinds, mid, hkinds, hmid⟩
    · obtain ⟨r, hr⟩ := forIn_eq_some (fun _ r hr => by
        obtain ⟨_, -, hr⟩ := Option.bind_eq_some_iff.mp hr
        obtain ⟨_, -, hr⟩ := Option.bind_eq_some_iff.mp hr
        obtain ⟨_, -, hr⟩ := Option.bind_eq_some_iff.mp hr
        exact (Option.some.inj hr).symm) hloop depth hdepth
      obtain ⟨others, hothers, hr⟩ := Option.bind_eq_some_iff.mp hr
      obtain ⟨-, -, hr⟩ := Option.bind_eq_some_iff.mp hr
      obtain ⟨mid', hmid', -⟩ := Option.bind_eq_some_iff.mp hr
      exact ⟨others, mid', hothers, hmid'⟩
  have hmem : (depths[x.toNat]?).getD last ∈ last :: depths := by
    cases hget : depths[x.toNat]? with
    | none => exact List.mem_cons_self ..
    | some depth => exact List.mem_cons_of_mem _ (List.mem_of_getElem? hget)
  obtain ⟨others, mid', hothers, hmid'⟩ := hall _ hmem
  obtain ⟨rest', rfl, -⟩ := TypingState.popAll_ofKinds hdead hmid'
  obtain ⟨ws, below, rfl, hws, -⟩ := hstack.pop
  simp only [executeControl, hops] at he
  cases he
  exact branch_typed h rfl rfl rfl rfl rfl rfl hothers hws

theorem executeControl_return (h : a.AtInstr s c .return_ ks bs next)
    (he : executeControl epoch s a .return_ = some st) : st.Typed s c.results := by
  have hstep := h.step
  simp [TypingState.step, Option.bind_eq_some_iff, guard] at hstep
  obtain ⟨-, mid, hmid, -⟩ := hstep
  obtain ⟨ws, below, rest, hops, hws, -, -, -⟩ := h.pop hmid
  cases he
  exact .leave (h.typed.saveFuel a) (h.results hops hws)

/-! ### Calls -/

/-- The function that an index leads to. -/
theorem Activation.Ready.func (h : a.Ready s c inst) {n : Nat} {type : Signature}
    (ht : c.signature? n = some type) {place : Nat} {f : Func} (hp : inst.funcs[n]? = some place)
    (hf : s.funcs[place]? = some f) : f.type = type := by
  have ht' : inst.module.signature? n = some type := by
    rw [← ht, Context.signature?, Module.signature?, h.context.funcs, h.context.types]
  obtain ⟨place', hp', f', hf', htype⟩ := h.typed.funcs n type ht'
  obtain rfl := Option.some.inj (hp.symm.trans hp')
  obtain rfl := Option.some.inj (hf.symm.trans hf')
  exact htype

/-- The operands of a call become its arguments, last one on top. -/
theorem fitAll_args {n : Nat} {ws below : List Value} {kinds : List Kind}
    (hws : Value.FitAll n ws kinds.reverse) :
    Value.FitAll n ((ws ++ below).take kinds.length).reverse kinds ∧
      (ws ++ below).drop kinds.length = below := by
  have hlength : kinds.length = ws.length := by simp [hws.length_eq]
  rw [hlength, List.take_left, List.drop_left]
  exact ⟨by simpa using hws.reverse, rfl⟩

/-- A function is called with the operands on top of the stack. -/
theorem call_typed (h : a.AtInstr s c i ks bs next) {ws below : List Value} {rest : List Kind}
    {place : Nat} {f : Func} {type : Signature} (hf : s.funcs[place]? = some f) (htype : f.type = type)
    (hws : Value.FitAll s.funcs.size ws type.params.reverse)
    (hbelow : StackFits s.funcs.size c (instrs a.body.code) below a.labels rest bs)
    (hstate : c.stateAt (instrs a.body.code) (a.pc + 1) =
      some (.ofKinds (type.results.reverse ++ rest) bs)) :
    (Step.call (saveFuel s a).1 { a with operands := below, unsaved := 0 } place
      ((ws ++ below).take type.params.length).reverse).Typed s c.results := by
  subst htype
  have hs := h.typed.saveFuel a
  refine .call hs hf (fitAll_args hws).1 ⟨c, rest, bs, rfl, ?_, hstate, hbelow⟩
  exact (h.checked.evolve hs).congr rfl rfl rfl rfl

theorem executeControl_call {n : Nat} (h : a.AtInstr s c (.call n) ks bs next)
    (he : executeControl epoch s a (.call n) = some st) : st.Typed s c.results := by
  obtain ⟨inst, hready⟩ := h.checked.ready
  obtain ⟨b, bs, rfl, hdead⟩ := h.stack.exists_block
  obtain ⟨i, hi, he⟩ := Option.bind_eq_some_iff.mp he
  obtain rfl := Option.some.inj (hready.found.symm.trans hi)
  obtain ⟨place, hplace, he⟩ := Option.bind_eq_some_iff.mp he
  obtain ⟨f, hf, he⟩ := Option.bind_eq_some_iff.mp he
  cases htype : c.signature? n with
  | none =>
    have hstep := h.step
    simp [TypingState.step, Instr.stackType?, htype] at hstep
  | some type =>
    have hft := hready.func htype hplace hf
    have hplain : (Instr.call n).stackType? c = some (type.params, type.results) := by
      simp [Instr.stackType?, htype]
    obtain ⟨rest, rfl, rfl⟩ := TypingState.step_plain hdead hplain h.step
    obtain ⟨ws, below, hops, hws, hbelow⟩ := h.stack.pop
    cases he
    rw [hft, hops, (fitAll_args hws).2]
    exact call_typed h hf hft hws hbelow h.behind

/-- The function that a table element leads to has the type that is asked for. -/
theorem indirectTarget_eq_ok {table : Table} {index : Nat} {type : Signature} {place : Nat}
    (h : indirectTarget s table index type = .ok place) :
    ∃ f, s.funcs[place]? = some f ∧ f.type = type := by
  unfold indirectTarget at h
  split at h
  · cases h
  · split at h
    · split at h
      · cases h
        exact ⟨_, ‹_›, ‹_›⟩
      · cases h
    · cases h
  · cases h

/-- What an indirect call takes and leaves. -/
theorem stackType?_callIndirect {n table : Nat} {t : List Kind × List Kind}
    (h : (Instr.callIndirect n table).stackType? c = some t) :
    ∃ type, c.types[n]? = some type ∧ t = (type.params ++ [.i32], type.results) := by
  simp [Instr.stackType?, Option.bind_eq_some_iff, guard] at h
  obtain ⟨type, htype, -, -, -, rfl⟩ := h
  exact ⟨type, htype, rfl⟩

theorem executeControl_callIndirect {n table : Nat}
    (h : a.AtInstr s c (.callIndirect n table) ks bs next)
    (he : executeControl epoch s a (.callIndirect n table) = some st) : st.Typed s c.results := by
  obtain ⟨inst, hready⟩ := h.checked.ready
  obtain ⟨b, bs, rfl, hdead⟩ := h.stack.exists_block
  cases hplain : (Instr.callIndirect n table).stackType? c with
  | none =>
    have hstep := h.step
    simp [TypingState.step, hplain] at hstep
  | some t =>
    obtain ⟨type, htype, rfl⟩ := stackType?_callIndirect hplain
    obtain ⟨rest, rfl, rfl⟩ := TypingState.step_plain hdead hplain h.step
    have hstack := h.stack
    rw [List.reverse_append, List.append_assoc] at hstack
    obtain ⟨index, ops, hops, hindex, hstack⟩ := hstack.pop
    obtain ⟨index, rfl, -⟩ := Value.FitAll.one hindex
    obtain ⟨ws, below, rfl, hws, hbelow⟩ := hstack.pop
    simp only [executeControl, hops, List.singleton_append] at he
    obtain ⟨i, hi, he⟩ := Option.bind_eq_some_iff.mp he
    obtain rfl := Option.some.inj (hready.found.symm.trans hi)
    obtain ⟨type', htype', he⟩ := Option.bind_eq_some_iff.mp he
    rw [← hready.context.types] at htype'
    obtain rfl := Option.some.inj (htype.symm.trans htype')
    obtain ⟨⟨_, t⟩, -, he⟩ := Option.bind_eq_some_iff.mp he
    obtain ⟨index, -, he⟩ := Option.bind_eq_some_iff.mp he
    dsimp only at he
    split at he
    · rename_i place htarget
      cases he
      obtain ⟨f, hf, hft⟩ := indirectTarget_eq_ok htarget
      rw [(fitAll_args hws).2]
      exact call_typed h hf hft hws hbelow h.behind
    · cases he
      exact .trap (h.typed.saveFuel _)

theorem executeControl_returnCall {n : Nat} (h : a.AtInstr s c (.returnCall n) ks bs next)
    (he : executeControl epoch s a (.returnCall n) = some st) : st.Typed s c.results := by
  obtain ⟨inst, hready⟩ := h.checked.ready
  have hstep := h.step
  simp [TypingState.step, Option.bind_eq_some_iff, guard] at hstep
  obtain ⟨-, type, htype, hresults, mid, hmid, -⟩ := hstep
  obtain ⟨ws, below, rest, hops, hws, -, -, -⟩ := h.pop hmid
  obtain ⟨i, hi, he⟩ := Option.bind_eq_some_iff.mp he
  obtain rfl := Option.some.inj (hready.found.symm.trans hi)
  obtain ⟨place, hplace, he⟩ := Option.bind_eq_some_iff.mp he
  obtain ⟨f, hf, he⟩ := Option.bind_eq_some_iff.mp he
  obtain rfl := hready.func htype hplace hf
  cases he
  rw [hops]
  exact .tailCall (h.typed.saveFuel a) hf (fitAll_args hws).1 hresults

theorem executeControl_returnCallIndirect {n table : Nat}
    (h : a.AtInstr s c (.returnCallIndirect n table) ks bs next)
    (he : executeControl epoch s a (.returnCallIndirect n table) = some st) :
    st.Typed s c.results := by
  obtain ⟨inst, hready⟩ := h.checked.ready
  have hstep := h.step
  simp [TypingState.step, Option.bind_eq_some_iff, guard] at hstep
  obtain ⟨-, params, hplain, mid, hmid, -⟩ := hstep
  obtain ⟨type, htype, heq⟩ := stackType?_callIndirect hplain
  obtain ⟨rfl, hresults⟩ := Prod.mk.inj heq
  obtain ⟨ws, below, rest, hops, hws, -, -, -⟩ := h.pop hmid
  rw [List.reverse_append] at hws
  obtain ⟨index, args, rfl, hindex, hargs⟩ := hws.split
  obtain ⟨index, rfl, -⟩ := Value.FitAll.one hindex
  simp only [executeControl, hops, List.cons_append, List.nil_append] at he
  obtain ⟨i, hi, he⟩ := Option.bind_eq_some_iff.mp he
  obtain rfl := Option.some.inj (hready.found.symm.trans hi)
  obtain ⟨type', htype', he⟩ := Option.bind_eq_some_iff.mp he
  rw [← hready.context.types] at htype'
  obtain rfl := Option.some.inj (htype.symm.trans htype')
  obtain ⟨⟨_, t⟩, -, he⟩ := Option.bind_eq_some_iff.mp he
  obtain ⟨index, -, he⟩ := Option.bind_eq_some_iff.mp he
  dsimp only at he
  split at he
  · rename_i place htarget
    cases he
    obtain ⟨f, hf, rfl⟩ := indirectTarget_eq_ok htarget
    exact .tailCall (h.typed.saveFuel a) hf (fitAll_args hargs).1 hresults.symm
  · cases he
    exact .trap (h.typed.saveFuel a)

/-- Control instructions keep an activation typed. -/
theorem executeControl_typed (h : a.AtInstr s c i ks bs next) (hi : i.isControl = true)
    (he : executeControl epoch s a i = some st) : st.Typed s c.results := by
  cases i with
  | unreachable =>
    cases he
    exact .trap (h.typed.saveFuel a)
  | nop =>
    obtain ⟨b, bs, rfl, hdead⟩ := h.stack.exists_block
    obtain ⟨rest, hrest, hnext⟩ := TypingState.step_plain hdead rfl h.step
    obtain rfl : ks = rest := hrest
    cases he
    exact h.goes rfl rfl rfl rfl (hnext ▸ h.behind) h.stack
  | block t => exact executeControl_block h he
  | loop t => exact executeControl_loop h he
  | if_ t => exact executeControl_if h he
  | else_ => exact executeControl_else h he
  | end_ => exact executeControl_end h he
  | br depth => exact executeControl_br h he
  | brIf depth => exact executeControl_brIf h he
  | brTable depths last => exact executeControl_brTable h he
  | return_ => exact executeControl_return h he
  | call n => exact executeControl_call h he
  | callIndirect n table => exact executeControl_callIndirect h he
  | returnCall n => exact executeControl_returnCall h he
  | returnCallIndirect n table => exact executeControl_returnCallIndirect h he
  | _ => cases hi

/-! ## All instructions -/

/-- What an instruction leaves on top of the operands fits the state behind it. -/
theorem Step.Falls.typed (h : a.AtInstr s c i ks bs next) {results rest : List Kind}
    {below : List Value} (hst : st.Falls s a c results below)
    (hbelow : StackFits s.funcs.size c (instrs a.body.code) below a.labels rest bs)
    (hstate : c.stateAt (instrs a.body.code) (a.pc + 1) =
      some (.ofKinds (results.reverse ++ rest) bs)) : st.Typed s c.results := by
  cases hst with
  | next hs hvs hlocals =>
    refine .next hs ⟨c, rfl, ⟨?_, h.checked.body, h.checked.arity⟩, ?_⟩
    · obtain ⟨inst, hready⟩ := (h.checked.evolve hs).ready
      exact ⟨inst, hready.store, hready.found, hready.context, hlocals⟩
    · exact .inside hstate ((hbelow.mono hs.evolves.size_funcs).push hvs)
  | trap hs => exact .trap hs

theorem executeVariable_drop (h : a.AtInstr s c .drop ks bs next)
    (he : executeVariable s a .drop = some st) : st.Typed s c.results := by
  obtain ⟨b, bs, rfl, hdead⟩ := h.stack.exists_block
  have hstep := h.step
  simp [TypingState.step, Option.bind_eq_some_iff, guard] at hstep
  obtain ⟨-, o, hpop⟩ := hstep
  obtain ⟨k, rest, rfl, -, rfl⟩ := TypingState.popAny_ofKinds hdead hpop
  obtain ⟨v, below, hops, -, hbelow⟩ := h.stack.popOne
  simp only [executeVariable, hops] at he
  cases he
  exact h.goes rfl rfl rfl rfl h.behind hbelow

theorem executeVariable_refIsNull (h : a.AtInstr s c .refIsNull ks bs next)
    (he : executeVariable s a .refIsNull = some st) : st.Typed s c.results := by
  obtain ⟨b, bs, rfl, hdead⟩ := h.stack.exists_block
  have hstep := h.step
  simp [TypingState.step, Option.bind_eq_some_iff, guard] at hstep
  obtain ⟨-, o, mid, hpop, -, rfl⟩ := hstep
  obtain ⟨k, rest, rfl, -, rfl⟩ := TypingState.popAny_ofKinds hdead hpop
  obtain ⟨v, below, hops, -, hbelow⟩ := h.stack.popOne
  have hstate : c.stateAt (instrs a.body.code) (a.pc + 1) =
      some (.ofKinds ([.i32] ++ rest) (b :: bs)) := by
    simpa [TypingState.push, TypingState.ofKinds] using h.behind
  simp only [executeVariable, hops] at he
  cases v with
  | ref r =>
    cases he
    have hbool : (Value.ofBool r.isNull).Fits s.funcs.size .i32 := ⟨rfl, trivial⟩
    exact h.goes rfl rfl rfl rfl hstate (hbelow.push (.cons hbool .nil))
  | _ => cases he

theorem executeVariable_select (h : a.AtInstr s c (.select none) ks bs next)
    (he : executeVariable s a (.select none) = some st) : st.Typed s c.results := by
  obtain ⟨b, bs, rfl, hdead⟩ := h.stack.exists_block
  have hstep := h.step
  simp [TypingState.step, Option.bind_eq_some_iff, guard] at hstep
  obtain ⟨-, popped, hpopped, o, popped', hpopped', o', popped'', hpopped'', -, hsame, rfl⟩ := hstep
  obtain ⟨x, ops, rest, hops, rfl, rfl, hstack⟩ := h.popCondition hpopped
  obtain ⟨k, rest, rfl, rfl, rfl⟩ := TypingState.popAny_ofKinds hdead hpopped'
  obtain ⟨k', rest, rfl, rfl, rfl⟩ := TypingState.popAny_ofKinds hdead hpopped''
  obtain rfl : k = k' := by simpa using hsame
  obtain ⟨v, ops, rfl, hv, hstack⟩ := hstack.popOne
  obtain ⟨v', below, rfl, hv', hbelow⟩ := hstack.popOne
  have hstate : c.stateAt (instrs a.body.code) (a.pc + 1) =
      some (.ofKinds ([k] ++ rest) (b :: bs)) := by
    simpa [TypingState.ofKinds] using h.behind
  simp only [executeVariable, hops] at he
  cases he
  have hchosen : (if x ≠ 0 then v' else v).Fits s.funcs.size k := by
    split
    · exact hv'
    · exact hv
  exact h.goes rfl rfl rfl rfl hstate (hbelow.push (.cons hchosen .nil))

/-- An instruction without a stack type, apart from control instructions, takes operands of kinds that
it does not name. -/
theorem untyped_of_step (h : a.AtInstr s c i ks bs next) (hi : i.isControl = false)
    (ht : i.stackType? c = none) : i = .drop ∨ i = .select none ∨ i = .refIsNull := by
  have hstep := h.step
  unfold TypingState.step at hstep
  split at hstep <;> first
    | (cases hi; done)
    | exact .inl rfl
    | exact .inr (.inl rfl)
    | exact .inr (.inr rfl)
    | simp [ht, guard] at hstep

/-- Every instruction keeps an activation typed: those with a stack type by what they leave on the
stack, the others one by one. -/
theorem execute_keeps (h : a.AtInstr s c i ks bs next) (he : execute epoch s a i = some st) :
    st.Typed s c.results := by
  cases hcontrol : i.isControl with
  | true =>
    refine executeControl_typed h hcontrol (?_ : executeControl epoch s a i = some st)
    cases i <;> first
      | exact he
      | cases hcontrol
  | false =>
    cases hplain : i.stackType? c with
    | some t =>
      obtain ⟨inst, hready⟩ := h.checked.ready
      obtain ⟨b, bs, rfl, hdead⟩ := h.stack.exists_block
      obtain ⟨rest, rfl, rfl⟩ := TypingState.step_plain hdead hplain h.step
      obtain ⟨ws, below, hops, hws, hbelow⟩ := h.stack.pop
      exact (execute_typed hready hplain hops hws hcontrol he).typed h hbelow h.behind
    | none =>
      rcases untyped_of_step h hcontrol hplain with rfl | rfl | rfl
      · exact executeVariable_drop h he
      · exact executeVariable_select h he
      · exact executeVariable_refIsNull h he

end Control

/-! ## Threads -/

/-- The activations of a thread, the innermost of which awaits values of certain kinds, will finish
with values of certain kinds. -/
inductive ThreadTyped (s : Store) : List Activation → List Kind → List Kind → Prop
  | nil {kinds : List Kind} : ThreadTyped s [] kinds kinds
  | cons {a : Activation} {rest : List Activation} {awaited results final : List Kind}
      (ha : a.Awaits s awaited results) (hrest : ThreadTyped s rest results final) :
      ThreadTyped s (a :: rest) awaited final

theorem ThreadTyped.evolve {s s' : Store} {thread : List Activation} {awaited final : List Kind}
    (h : ThreadTyped s thread awaited final) (hs : s.Leads s') :
    ThreadTyped s' thread awaited final := by
  induction h with
  | nil => exact .nil
  | cons ha _ ih => exact .cons (ha.evolve hs) ih

/-- What a stopped thread says about the values that go out of it. -/
def Event.Typed (s : Store) (final : List Kind) : Event → Prop
  | .finished results => Value.FitAll s.funcs.size results final
  | .called key type args _ thread => (∃ place : Nat, s.funcs[place]? = some (.host key type)) ∧
      Value.FitAll s.funcs.size args type.params ∧ ThreadTyped s thread type.results final
  | .trapped .. | .stuck | .timeout => True

/-- A thread that has come from a store is typed, or has stopped with fitting values. -/
inductive Progress.Typed (s : Store) (final : List Kind) : Progress → Prop
  | running {s' : Store} {a : Activation} {rest : List Activation} {results : List Kind}
      (hs : s.Leads s') (ha : a.Typed s' results) (hrest : ThreadTyped s' rest results final) :
      Typed s final (.running s' (a :: rest))
  | stopped {s' : Store} {event : Event} (hs : s.Leads s') (he : event.Typed s' final) :
      Typed s final (.stopped s' event)

section Threads

variable {epoch : Nat} {caller : Option Nat} {s s' : Store} {a : Activation}
  {rest thread : List Activation}
  {results final : List Kind}

theorem Progress.Typed.after {p : Progress} (h : p.Typed s' final) (hs : s.Leads s') :
    p.Typed s final := by
  cases h with
  | running hs' ha hrest => exact .running (hs.trans hs') ha hrest
  | stopped hs' he => exact .stopped (hs.trans hs') he

/-- A body begins with its parameters and zeroed locals. -/
theorem Func.Typed.body {number func t : Nat} {type : Signature} {body : Body} {features : Features}
    {i : Instance} (hs : s.Typed) (hi : s.instances[number]? = some i)
    (ht : i.module.types[t]? = some type)
    (hbody : (i.module.context features).functionTyped t body = true) {args : List Value}
    (hargs : Value.FitAll s.funcs.size args type.params) (unsaved deadline : Nat) :
    Activation.Typed s
      { instance_ := number, func, body, arity := type.results.length, pc := 0
        locals := (args ++ body.locals.map Value.zero).toArray
        operands := [], labels := [], unsaved, deadline } type.results := by
  have htypes : (i.module.context features).types[t]? = some type := ht
  simp only [Context.functionTyped, htypes, Bool.and_eq_true] at hbody
  obtain ⟨-, hcode⟩ := hbody
  refine ⟨_, rfl, ⟨⟨i, hs, hi, ?_, ?_⟩, hcode, rfl⟩, ?_⟩
  · exact ⟨rfl, rfl, rfl, rfl, rfl, rfl⟩
  · simpa using Indexed.of_forall₂ (hargs.append (Value.fitAll_zero body.locals))
  · exact .start rfl rfl rfl

/-- A function of a typed store is entered with arguments of its parameters' kinds. -/
theorem enter_typed (hs : s.Typed) {f : Func} {place : Nat} {args : List Value}
    (hf : s.funcs[place]? = some f) (hargs : Value.FitAll s.funcs.size args f.type.params)
    (hthread : ThreadTyped s thread f.type.results final) :
    (enter epoch caller s thread place args).Typed s final := by
  have hftyped := hs.funcs place f hf
  cases f with
  | host key type =>
    simp only [enter, hf]
    exact .stopped (.refl hs) ⟨⟨place, hf⟩, hargs, hthread⟩
  | guest number func type body =>
    obtain ⟨i, features, t, hi, ht, hbody⟩ := hftyped
    simp only [enter, hf]
    split
    · exact .stopped (.refl hs) trivial
    · split
      · exact .stopped (hs.afterFailedCheck _ _) trivial
      · have hs' := (Store.Leads.refl hs).stackUsed
        exact .running (hs' _) ((Func.Typed.body hs hi ht hbody hargs _ _).evolve (hs' _))
          (hthread.evolve (hs' _))

/-- The awaited values go to the innermost activation, or out of the thread. -/
theorem resume_typed (hs : s.Typed) {vs : List Value} (hvs : Value.FitAll s.funcs.size vs results)
    (hthread : ThreadTyped s thread results final) : (resume s thread vs).Typed s final := by
  cases hthread with
  | nil => exact .stopped (.refl hs) hvs
  | cons ha hrest => exact .running (.refl hs) (ha.resume hvs) hrest

/-- The innermost activation of a thread, between two instructions, does not mind what it owes. -/
theorem Activation.Typed.charge (cost : Nat) (h : a.Typed s results) :
    Activation.Typed s { a with unsaved := cost } results := by
  obtain ⟨c, hc, hchecked, hat⟩ := h
  refine ⟨c, hc, hchecked.congr rfl rfl rfl rfl, ?_⟩
  cases hat with
  | inside hstate hstack => exact .inside hstate hstack
  | ended hpc hresults => exact .ended hpc hresults

/-- At its end, an activation gives its results. -/
theorem Activation.Typed.finish (h : a.Typed s results) (hend : a.body.code[a.pc]? = none) :
    Value.FitAll s.funcs.size (a.operands.take a.arity).reverse results := by
  obtain ⟨c, rfl, hchecked, hat⟩ := h
  have hover : Value.FitAll s.funcs.size a.operands c.results.reverse := by
    cases hat with
    | ended _ hresults => exact hresults
    | inside hstate hstack =>
      -- Behind its last instruction, no block is open.
      obtain ⟨b, bs, rfl, -⟩ := hstack.exists_block
      have hlength : (instrs a.body.code).length ≤ a.pc := by
        simpa [instrs] using Array.getElem?_eq_none_iff.mp hend
      exact absurd (Context.blocks_stateAt_end hchecked.body hlength hstate) (by simp [TypingState.ofKinds])
  rw [← List.append_nil a.operands, hchecked.arity]
  exact (fitAll_args hover).1

/-- An activation whose position is not at the end is at an instruction. -/
theorem Activation.Typed.atInstr (h : a.Typed s results) {located : LocatedInstr}
    (hfound : a.body.code[a.pc]? = some located) :
    ∃ c ks bs next, c.results = results ∧ a.AtInstr s c located.instr ks bs next := by
  obtain ⟨c, hc, hchecked, hat⟩ := h
  cases hat with
  | ended hpc _ =>
    rw [Array.getElem?_eq_none hpc] at hfound
    cases hfound
  | inside hstate hstack =>
    have hinstr : (instrs a.body.code)[a.pc]? = some located.instr := by
      simp [getElem?_instrs, hfound]
    obtain ⟨-, next, hstep, hbehind⟩ := Context.step_stateAt hchecked.body hinstr hstate
    exact ⟨c, _, _, next, hc, hchecked, hinstr, hstate, hstack, hstep, hbehind⟩

/-- One step of a thread. -/
theorem step_typed (ha : a.Typed s results) (hrest : ThreadTyped s rest results final) :
    (step epoch s (a :: rest)).Typed s final := by
  have hs : s.Typed := by
    obtain ⟨_, -, hchecked, -⟩ := ha
    obtain ⟨_, hready⟩ := hchecked.ready
    exact hready.store
  simp only [step]
  split
  · rename_i hend
    have hs' := (hs.saveFuel a).stackUsed
    exact .after (resume_typed (hs' _).typed (ha.finish hend) (hrest.evolve (hs' _))) (hs' _)
  · rename_i located hfound
    obtain ⟨c, ks, bs, next, rfl, hat⟩ :=
      (ha.charge (a.unsaved + fuelCost located.instr)).atInstr hfound
    split
    · exact .stopped (.refl hs) trivial
    · rename_i he
      cases execute_keeps hat he with
      | next hs' ha' => exact .running hs' ha' (hrest.evolve hs')
    · rename_i he
      cases execute_keeps hat he with
      | call hs' hf hargs ha' =>
        exact (enter_typed hs'.typed hf hargs (.cons ha' (hrest.evolve hs'))).after hs'
    · rename_i he
      cases execute_keeps hat he with
      | tailCall hs' hf hargs hresults =>
        have hs'' := hs'.stackUsed
        exact .after (enter_typed (hs'' _).typed hf hargs ((hresults ▸ hrest).evolve (hs'' _))) (hs'' _)
    · rename_i he
      cases execute_keeps hat he with
      | leave hs' hvs =>
        have hs'' := hs'.stackUsed
        exact .after (resume_typed (hs'' _).typed hvs (hrest.evolve (hs'' _))) (hs'' _)
    · rename_i he
      cases execute_keeps hat he with
      | trap hs' => exact .stopped hs' trivial

/-- Any number of steps of a thread. -/
theorem advance_typed {p : Progress} (h : p.Typed s final) (fuel : Nat) :
    s.Leads (advance epoch fuel p).1 ∧ (advance epoch fuel p).2.Typed (advance epoch fuel p).1 final := by
  induction fuel generalizing p with
  | zero =>
    cases h with
    | @running s' a rest results hs ha hrest => exact ⟨hs, trivial⟩
    | stopped hs he => exact ⟨hs, he⟩
  | succ fuel ih =>
    cases h with
    | running hs ha hrest => exact ih ((step_typed ha hrest).after hs)
    | stopped hs he => exact ⟨hs, he⟩

end Threads

end WasmHost.Guest
