import WasmHost.Proofs.Books
import WasmHost.Proofs.Exports
import WasmHost.Proofs.TypedPrograms

/-!
# Operations on linkers

Each operation on a linker comes to what the book of the linker says: what it has to offer is recorded
up to the first pair that is taken, and the operation fails with that pair. A sequence of operations
leaves the book that the definitions which succeeded have written, whatever else happens in between
that leaves the linker alone.

Operations differ in what they define and agree in how. Each of them first finds out what it has to
offer, in whatever way: by being given an item, by making a function, by listing the exports of an
instance, or by making an instance whose exports it lists. Then it records what it has to offer.
`Operation.offer` is the first part by itself. It is not a part of the program but a second run from
the same world, and `Records` relates the two: the operation ends as the book answers to what the
other run offers. In this way all five operations are described by one sentence, and the parts that
may fail for reasons of their own, such as making an instance, need not be described here at all. If
such a part fails, nothing is offered, and the operation fails in the same way.

Recording is not all or nothing. Definitions before the first that is refused stay, and nothing
takes them back. So what has been accepted is a prefix, and it is a book's answer that tells which.

The first part may run code of guests and closures. That this code leaves the linker alone is a
hypothesis about the host, `Effect.SparesLinker`: while a linker is in use, nobody else changes it.
-/

namespace WasmHost.Host

open Act

variable {κ σ α : Type}

/-! ## What a book answers

Without a world: a book is asked to record definitions, and says how that ends and what was
accepted. -/

namespace Book

/-- How an operation ends that has definitions to offer. -/
def answer (b : Book) : Outcome Definitions → Outcome Unit
  | .value defs =>
    match (b.record defs).2 with
    | some (m, n) => .failure (.duplicateDefinition m n)
    | none => .value ()
  | .failure e => .failure e
  | .panic p => .panic p
  | .aborted f => .aborted f
  | .exhausted => .exhausted

/-- The definitions that succeed when an operation has some to offer. -/
def accepted (b : Book) : Outcome Definitions → Definitions
  | .value defs => (b.record defs).1
  | _ => []

variable {b : Book} {d : (String × String) × Item} {rest : Definitions}

theorem answer_taken (h : b.taken d.1.1 d.1.2 = true) :
    b.answer (.value (d :: rest)) = .failure (.duplicateDefinition d.1.1 d.1.2) := by
  simp only [answer, record_taken h]

theorem answer_free (h : b.taken d.1.1 d.1.2 = false) :
    b.answer (.value (d :: rest)) = (b.put d.1.1 d.1.2 d.2).answer (.value rest) := by
  simp only [answer, record_untaken (b := b) (Bool.not_eq_true _ ▸ h)]

theorem accepted_taken (h : b.taken d.1.1 d.1.2 = true) : b.accepted (.value (d :: rest)) = [] := by
  simp only [accepted, record_taken h]

theorem accepted_free (h : b.taken d.1.1 d.1.2 = false) :
    b.accepted (.value (d :: rest)) = d :: (b.put d.1.1 d.1.2 d.2).accepted (.value rest) := by
  simp only [accepted, record_untaken (b := b) (Bool.not_eq_true _ ▸ h)]

/-- While shadowing is off, an item that is in the book is still there after anything that may be
offered. -/
theorem items_accepted (hoff : b.shadowing = false) {m n : String} {item : Item}
    (h : b.items m n = some item) (o : Outcome Definitions) :
    (b.putAll (b.accepted o)).items m n = some item := by
  cases o with
  | value defs => exact items_record hoff h defs
  | _ => exact h

end Book

/-- Definitions of names of a module. -/
def Definitions.under (module : String) (items : List (String × Item)) : Definitions :=
  items.map fun i => ((module, i.1), i.2)

/-! ## Running the operations of a linker

A step at a time, from a linker whose book is known. What a refused or replaced item referred to is
let go of, and this does not change the book: releasing has only effects that spare it. -/

namespace Linker

variable {w : World κ σ} {l : Nat} {b : Book}

/-- Letting go of items always comes to an end, and leaves the book as it is. The end is known
because releasing settles, the book because no effect of it concerns the linker. -/
theorem run_releaseItems (hb : w.book? l = some b) (items : List Item) :
    ∃ w', (releaseItems items : Act κ σ Unit).run w = (.value (), w') ∧ w'.book? l = some b := by
  obtain ⟨_, w', hrun, _⟩ := releaseWrappers_settling (items.map (·.wrapper)) w
  have hbook := Act.Confined.book? (l := l)
    (m := (releaseItems items : Act κ σ Unit)) (releaseItems_confined items) hb
  refine ⟨w', hrun, ?_⟩
  rwa [show (releaseItems items : Act κ σ Unit).run w = _ from hrun] at hbook

/-- A pair that is taken is refused, and the item is let go of. -/
theorem run_define_taken (hb : w.book? l = some b) {module name : String}
    (h : b.taken module name = true) (item : Item) :
    ∃ w', (define l module name item : Act κ σ Unit).run w =
      (.failure (.duplicateDefinition module name), w') ∧ w'.book? l = some b := by
  obtain ⟨c, hc, rfl⟩ := Option.map_eq_some_iff.mp hb
  -- The linker itself decides, in one step of the world.
  have hmake : w.define l module name item = (some (false, [item]), w) := by
    unfold World.define
    rw [hc]
    exact if_pos h
  obtain ⟨w', hrun, hbook⟩ := run_releaseItems hb [item]
  refine ⟨w', ?_, hbook⟩
  exact (run_bind_value (run_make (f := (·.define l module name item)) hmake)).trans
    (run_bind_value hrun)

/-- A pair that is free is defined, and what it stood for before is let go of after that. -/
theorem run_define_free (hb : w.book? l = some b) {module name : String}
    (h : b.taken module name = false) (item : Item) :
    ∃ w', (define l module name item : Act κ σ Unit).run w = (.value (), w') ∧
      w'.book? l = some (b.put module name item) := by
  obtain ⟨c, hc, rfl⟩ := Option.map_eq_some_iff.mp hb
  let put : LinkerCell → LinkerCell := fun c =>
    { c with definitions := Definitions.put c.definitions module name item }
  have hmake : w.define l module name item =
      (some (true, (Definitions.get? c.definitions module name).toList),
        { w with linkers := w.linkers.modify l put }) := by
    unfold World.define
    rw [hc]
    exact if_neg (by simpa [Book.taken] using h)
  have hput : World.book? { w with linkers := w.linkers.modify l put } l =
      some (Book.put ⟨Definitions.get? c.definitions, c.shadowing⟩ module name item) := by
    simp only [World.book?, getElem?_modify_self put hc, Option.map_some, Option.some.injEq]
    exact Book.ext (funext fun m => funext fun n => Definitions.get?_put ..) rfl
  -- The item that was there before is let go of.
  obtain ⟨w', hrun, hbook⟩ := run_releaseItems hput (Definitions.get? c.definitions module name).toList
  refine ⟨w', ?_, hbook⟩
  exact (run_bind_value (run_make (f := (·.define l module name item)) hmake)).trans
    (run_bind_value hrun)

/-- Items are defined in order, up to the first whose name is taken by then. By induction on the
items, with the book that each one leaves. -/
theorem run_defineAll (hb : w.book? l = some b) (module : String) (items : List (String × Item)) :
    ∃ w', (defineAll l module items : Act κ σ Unit).run w =
        (b.answer (.value (.under module items)), w') ∧
      w'.book? l = some (b.putAll (b.accepted (.value (.under module items)))) := by
  induction items generalizing w b with
  | nil => exact ⟨w, rfl, hb⟩
  | cons i items ih =>
    let d : (String × String) × Item := ((module, i.1), i.2)
    rw [show Definitions.under module (i :: items) = d :: Definitions.under module items from rfl]
    cases htaken : b.taken d.1.1 d.1.2 with
    | true =>
      obtain ⟨w₁, hrun, hb₁⟩ := run_define_taken hb htaken i.2
      -- The items that have not been reached are let go of.
      obtain ⟨w₂, hrelease, hb₂⟩ := run_releaseItems hb₁ (items.map (·.2))
      rw [Book.answer_taken htaken, Book.accepted_taken htaken]
      exact ⟨w₂, run_bind_failed (run_onUnwind_failure hrun hrelease), hb₂⟩
    | false =>
      obtain ⟨w₁, hrun, hb₁⟩ := run_define_free hb htaken i.2
      obtain ⟨w₂, hruns, hb₂⟩ := ih hb₁
      rw [Book.answer_free htaken, Book.accepted_free htaken]
      exact ⟨w₂, (run_bind_value (run_onUnwind_value hrun)).trans hruns, hb₂⟩

/-- Looking up gives the item of the book. It retains what it gives, which the book does not
show. -/
theorem run_get? (hb : w.book? l = some b) (module name : String) :
    ∃ w', (get? l module name : Act κ σ (Option Item)).run w = (.value (b.items module name), w') ∧
      w'.book? l = some b := by
  have hbook := (get?_confined (P := Effect.SparesLinker l) l module name :
    (get? l module name : Act κ σ (Option Item)).Confined _).book? hb
  obtain ⟨c, hc, rfl⟩ := Option.map_eq_some_iff.mp hb
  rw [run_get?_eq hc] at hbook ⊢
  exact ⟨_, rfl, hbook⟩

/-! ## Sequences of operations

An operation carries what it needs to run, its host included; a host comes with the proof that it
spares the linker. -/

/-- What can be done to a linker. Closures that run meanwhile leave it alone, since it is in use. -/
inductive Operation (κ σ : Type) (l : Nat) where
  | allowShadowing (allow : Bool)
  | define (module name : String) (item : Item)
  | func (store : Nat) (module name : String) (type : Signature) (code : κ)
      (captures : List Capture)
  | instance_ (store : Nat) (module : String) (instance_ : Handle)
  | module_ (host : Runner κ σ) (hhost : Confined (Effect.SparesLinker l) host) (store : Nat)
      (name : String) (module : Nat)

namespace Operation

def perform : Operation κ σ l → Act κ σ Unit
  | allowShadowing allow => Linker.allowShadowing l allow
  | define module name item => Linker.define l module name item
  | func s module name type code captures => defineFunc s l module name type code captures
  | instance_ s module i => defineInstance s l module i
  | module_ host _ s name m => defineModule host s l name m

/-- Finds out what an operation has to offer: an item, a new function, the exports of an instance, or
those of an instance that is made first. -/
def offer : Operation κ σ l → Act κ σ Definitions
  | allowShadowing _ => pure []
  | define module name item => return [((module, name), item)]
  | func s module name type code captures => do
    return [((module, name), ⟨.func, ← Func.create s type code captures⟩)]
  | instance_ s module i => do return .under module (← Instance.exports s i)
  | module_ host _ s name m => do
    let i ← instantiate host s l m
    return .under name (← Instance.exports s i)

/-- Sets the switch if that is what an operation does. -/
def switch (b : Book) : Operation κ σ l → Book
  | allowShadowing allow => { b with shadowing := allow }
  | _ => b

end Operation

/-- What an operation has to offer is recorded, and the operation ends as the book says. -/
structure Records (b : Book) (offered : Outcome Definitions) (r : Outcome Unit × World κ σ)
    (l : Nat) : Prop where
  outcome : r.1 = b.answer offered
  book : r.2.book? l = some (b.putAll (b.accepted offered))

theorem Records.of_run {offered : Outcome Definitions} {m : Act κ σ Unit}
    (h : ∃ w', m.run w = (b.answer offered, w') ∧
      w'.book? l = some (b.putAll (b.accepted offered))) : Records b offered (m.run w) l := by
  obtain ⟨w', hrun, hbook⟩ := h
  rw [hrun]
  exact ⟨rfl, hbook⟩

theorem define_records (hb : w.book? l = some b) (module name : String) (item : Item) :
    Records b (.value [((module, name), item)])
      ((define l module name item : Act κ σ Unit).run w) l := by
  let d : (String × String) × Item := ((module, name), item)
  refine .of_run ?_
  show ∃ w', _ = (b.answer (.value [d]), w') ∧ _ = some (b.putAll (b.accepted (.value [d])))
  cases htaken : b.taken d.1.1 d.1.2 with
  | true =>
    rw [Book.answer_taken htaken, Book.accepted_taken htaken]
    exact run_define_taken hb htaken item
  | false =>
    rw [Book.answer_free htaken, Book.accepted_free htaken]
    exact run_define_free hb htaken item

/-- Before it offers anything, an operation does something that leaves the linker alone. The same
action is at the beginning of what is offered and of what is performed. If it comes to a value, the
rest decides; if not, both end as it does, and nothing has been offered. -/
theorem Records.bind {β : Type} {m : Act κ σ β} (hm : m.Confined (Effect.SparesLinker l))
    (hb : w.book? l = some b) {offer : β → Act κ σ Definitions} {perform : β → Act κ σ Unit}
    (h : ∀ a w', w'.book? l = some b → Records b ((offer a).run w').1 ((perform a).run w') l) :
    Records b ((m >>= offer).run w).1 ((m >>= perform).run w) l := by
  have hbook := hm.book? hb
  show Records b ((m.after (·.go offer)).run w).1 ((m.after (·.go perform)).run w) l
  rw [run_after, run_after]
  -- Both run the same action first, and go on from the same world.
  generalize m.run w = r at hbook ⊢
  obtain ⟨o, w'⟩ := r
  cases o with
  | value a => exact h a w' hbook
  | _ => exact ⟨rfl, hbook⟩

/-- What is released at the end of an operation makes no difference. It may even be released after a
failure or a panic, and the outcome is the one that was there before. -/
theorem Records.ensuring {offered : Outcome Definitions} {m : Act κ σ Unit} {h : Handle}
    (hm : Records b offered (m.run w) l) :
    Records b offered ((Act.ensuring (releaseHandle h) m).run w) l := by
  obtain ⟨w', hrun, -, hw'⟩ := run_ensuring_settling (releaseHandle_settling h) m w
  have hbook := Act.Confined.book? (l := l) (releaseHandle_confined h) hm.book
  rw [hrun]
  refine ⟨hm.outcome, ?_⟩
  rcases hw' with rfl | rfl
  · exact hm.book
  · exact hbook

theorem defineInstance_records (hb : w.book? l = some b) (s : Nat) (module : String) (i : Handle) :
    Records b ((Instance.exports s i >>= fun items => pure (.under module items)).run w).1
      ((defineInstance s l module i).run w) l :=
  Records.bind (Instance.exports_confined s i) hb
    fun items _ hb' => .of_run (run_defineAll hb' module items)

/-- Every operation on a linker comes to what the book says. One case for each operation. The last
two are built from the ones before, as the operations are. -/
theorem Operation.perform_records (hb : w.book? l = some b) (o : Operation κ σ l) :
    Records (o.switch b) (o.offer.run w).1 (o.perform.run w) l := by
  cases o with
  | allowShadowing allow =>
    obtain ⟨c, hc, rfl⟩ := Option.map_eq_some_iff.mp hb
    refine ⟨rfl, ?_⟩
    show World.book? { w with linkers := _ } l = _
    simp only [World.book?, getElem?_modify_self _ hc]
    rfl
  | define module name item => exact define_records hb module name item
  | func s module name type code captures =>
    exact Records.bind (Func.create_confined s type code captures) hb
      fun f w' hb' => define_records hb' module name ⟨.func, f⟩
  | instance_ s module i => exact defineInstance_records hb s module i
  | module_ host hhost s name m =>
    -- The exports are those of the instance that is made, and it is let go of in the end.
    exact Records.bind (instantiate_confined hhost s l m) hb
      fun i w' hb' => (defineInstance_records hb' s name i).ensuring

/-- Something that happens to a linker, or without it. What happens elsewhere comes as any action
that leaves the linker alone, so that a sequence of events can be one of a whole program, and not
only of its calls to this linker. -/
inductive Event (κ σ : Type) (l : Nat) where
  | operation (o : Operation κ σ l)
  | elsewhere (m : Act κ σ Unit) (hm : m.Confined (Effect.SparesLinker l))

namespace Event

def act : Event κ σ l → Act κ σ Unit
  | operation o => o.perform
  | elsewhere m _ => m

def offered (w : World κ σ) : Event κ σ l → Outcome Definitions
  | operation o => (o.offer.run w).1
  | elsewhere .. => .value []

/-- How an event sets the switch, if it does. -/
def allows? : Event κ σ l → Option Bool
  | operation (.allowShadowing allow) => some allow
  | _ => none

/-- A book whose switch is as an event sets it. -/
def switch (b : Book) (e : Event κ σ l) : Book := { b with shadowing := e.allows?.getD b.shadowing }

/-- Every event comes to what the book says. -/
theorem book?_act (hb : w.book? l = some b) (e : Event κ σ l) :
    (e.act.run w).2.book? l = some ((e.switch b).putAll ((e.switch b).accepted (e.offered w))) := by
  cases e with
  | elsewhere m hm => exact hm.book? hb
  | operation o =>
    have hrecords := (o.perform_records hb).book
    cases o <;> exact hrecords

end Event

def after (w : World κ σ) (events : List (Event κ σ l)) : World κ σ :=
  events.foldl (fun w e => (e.act.run w).2) w

/-- The definitions that succeed in the course of several events, in order, and the book that is
left. What is offered depends on the world in which it is found out, so the world goes along. -/
def follow (b : Book) (w : World κ σ) : List (Event κ σ l) → Definitions × Book
  | [] => ([], b)
  | e :: rest =>
    let defs := (e.switch b).accepted (e.offered w)
    let (more, b') := follow ((e.switch b).putAll defs) (e.act.run w).2 rest
    (defs ++ more, b')

/-- By induction on the events, with the law for one of them. -/
theorem book?_after (hb : w.book? l = some b) (events : List (Event κ σ l)) :
    (after w events).book? l = some (follow b w events).2 := by
  induction events generalizing w b with
  | nil => exact hb
  | cons e rest ih => exact ih (e.book?_act hb)

/-- The book that is left is given by the definitions that succeeded, and by the first book where
there are none. This is where the order comes in: `last?` of two lists in a row prefers the
second. -/
theorem items_follow (b : Book) (w : World κ σ) (events : List (Event κ σ l)) (m n : String) :
    (follow b w events).2.items m n = (Book.last? (follow b w events).1 m n).or (b.items m n) := by
  induction events generalizing w b with
  | nil => rfl
  | cons e rest ih =>
    have hrest := ih ((e.switch b).putAll ((e.switch b).accepted (e.offered w))) (e.act.run w).2
    refine hrest.trans ?_
    rw [Book.items_putAll, ← Option.or_assoc, ← Book.last?_append]
    rfl

/-- The switch does not depend on definitions. -/
theorem shadowing_follow (b : Book) (w : World κ σ) (events : List (Event κ σ l)) :
    (follow b w events).2.shadowing = (events.filterMap Event.allows?).getLast?.getD b.shadowing := by
  induction events generalizing w b with
  | nil => rfl
  | cons e rest ih =>
    have hrest := ih ((e.switch b).putAll ((e.switch b).accepted (e.offered w))) (e.act.run w).2
    refine hrest.trans ?_
    rw [Book.shadowing_putAll]
    unfold Event.switch
    cases h : e.allows? with
    | none => simp [h]
    | some allow => cases hl : rest.filterMap Event.allows? <;> simp [h, hl, List.getLast?_cons]

/-- While nobody turns shadowing on, a pair that has an item keeps it. It is an invariant of the
sequence: shadowing stays off, and an item that is there is not replaced. -/
theorem items_follow_off {events : List (Event κ σ l)} (hoff : b.shadowing = false)
    (hevents : ∀ e ∈ events, e.allows? ≠ some true) {m n : String} {item : Item}
    (h : b.items m n = some item) (w : World κ σ) :
    (follow b w events).2.items m n = some item := by
  induction events generalizing w b with
  | nil => exact h
  | cons e rest ih =>
    have hswitch : (e.switch b).shadowing = false := by
      have he := hevents e List.mem_cons_self
      unfold Event.switch
      cases hallow : e.allows? with
      | none => exact hoff
      | some allow =>
        cases allow with
        | false => rfl
        | true => exact absurd hallow he
    refine ih ?_ (fun e he => hevents e (List.mem_cons_of_mem _ he)) ?_ _
    · rw [Book.shadowing_putAll, hswitch]
    · exact Book.items_accepted hswitch h _

/-! ## Linkers as books

What has been shown of `Records` is now said in terms of the operations, one after the other,
without `offer`. Someone who reads the fields of `IsBook` needs to know only how the operations are
called. -/

/-- What holds of a linker that is a book, whatever is done to it next. -/
structure IsBook (w : World κ σ) (l : Nat) (b : Book) : Prop where
  /-- What is found under a pair is the item that the book has for it. -/
  found : ∀ m n, ∃ w', (get? l m n).run w = (.value (b.items m n), w') ∧ w'.book? l = some b
  /-- The switch is set, and nothing else happens. -/
  switched : ∀ allow, ∃ w', (allowShadowing l allow).run w = (.value (), w') ∧
    w'.book? l = some { b with shadowing := allow }
  /-- A pair that has an item is not defined again while shadowing is off. -/
  duplicate : ∀ m n, b.shadowing = false → (b.items m n).isSome → ∀ item, ∃ w',
    (define l m n item).run w = (.failure (.duplicateDefinition m n), w') ∧ w'.book? l = some b
  /-- Any other pair is, in place of what it stood for; no other pair changes. -/
  defined : ∀ m n, b.shadowing = true ∨ b.items m n = none → ∀ item, ∃ w',
    (define l m n item).run w = (.value (), w') ∧ w'.book? l = some (b.put m n item)
  /-- A host function is made first, and then defined. -/
  function : ∀ s m n type code captures f w₁,
    (Func.create s type code captures).run w = (.value f, w₁) → w₁.book? l = some b ∧
      (defineFunc s l m n type code captures).run w = (define l m n ⟨.func, f⟩).run w₁
  /-- Nothing is defined if it cannot be made. -/
  functionFailed : ∀ s m n type code captures e w₁,
    (Func.create s type code captures).run w = (.failure e, w₁) → w₁.book? l = some b ∧
      (defineFunc s l m n type code captures).run w = (.failure e, w₁)
  /-- The exports of an instance come in the order of its module. Only one that is not in the store
  could stop them, and no store that an embedder comes to has such an instance. -/
  exports : ∀ s i g inst, w.guest? s = some g →
    (Instance.at_ s i).run (w.drain s) = (.value inst, w.drain s) →
    ∃ o w₁, (Instance.exports s i).run w = (o, w₁) ∧ w₁.book? l = some b ∧
      ((∃ items, o = .value items ∧ items.map (fun i => (i.1, i.2.kind)) =
        (inst.exports.filter fun e => views g e.2).map fun e => (e.1, e.2.kind)) ∨
      o = .aborted .stuck ∧ ∃ e ∈ inst.exports, g.declaredType? e.2 = none)
  /-- All exports are defined, or those before the first whose name is taken. -/
  instance_ : ∀ s module i items w₁, (Instance.exports s i).run w = (.value items, w₁) →
    (b.Admits (.under module items) ∧
      ∃ w', (defineInstance s l module i).run w = (.value (), w') ∧
        w'.book? l = some (b.putAll (.under module items))) ∨
    ∃ before e rest, items = before ++ e :: rest ∧ b.Admits (.under module before) ∧
      (b.putAll (.under module before)).taken module e.1 = true ∧
      ∃ w', (defineInstance s l module i).run w =
          (.failure (.duplicateDefinition module e.1), w') ∧
        w'.book? l = some (b.putAll (.under module before))
  /-- An instance is made first, and then its exports are defined. -/
  module_ : ∀ host s name m i w₁, Confined (Effect.SparesLinker l) host →
    (instantiate host s l m).run w = (.value i, w₁) → w₁.book? l = some b ∧
      ((defineModule host s l name m).run w).1 = ((defineInstance s l name i).run w₁).1 ∧
      ((defineModule host s l name m).run w).2.book? l = ((defineInstance s l name i).run w₁).2.book? l
  /-- Nothing is defined if it cannot be made. -/
  moduleFailed : ∀ host s name m e w₁, Confined (Effect.SparesLinker l) host →
    (instantiate host s l m).run w = (.failure e, w₁) → w₁.book? l = some b ∧
      (defineModule host s l name m).run w = (.failure e, w₁)
  /-- However an operation ends, it comes to what the book says. -/
  records : ∀ o : Operation κ σ l, Records (o.switch b) (o.offer.run w).1 (o.perform.run w) l

/-- The definitions that a run of `defineInstance` makes. Either all of them can be defined, or
there is a first that cannot, with those before it defined. -/
theorem run_defineInstance (hb : w.book? l = some b) {s : Nat} {module : String} {i : Handle}
    {items : List (String × Item)} {w₁ : World κ σ}
    (h : (Instance.exports s i).run w = (.value items, w₁)) :
    (b.Admits (.under module items) ∧
      ∃ w', (defineInstance s l module i).run w = (.value (), w') ∧
        w'.book? l = some (b.putAll (.under module items))) ∨
    ∃ before e rest, items = before ++ e :: rest ∧ b.Admits (.under module before) ∧
      (b.putAll (.under module before)).taken module e.1 = true ∧
      ∃ w', (defineInstance s l module i).run w =
          (.failure (.duplicateDefinition module e.1), w') ∧
        w'.book? l = some (b.putAll (.under module before)) := by
  -- Listing exports leaves the linker alone.
  have hb₁ : w₁.book? l = some b := by
    have hbook := (Instance.exports_confined (P := Effect.SparesLinker l) s i :
      (Instance.exports s i : Act κ σ _).Confined _).book? hb
    rwa [h] at hbook
  obtain ⟨w', hrun, hbook⟩ := run_defineAll hb₁ module items
  have hrun' : (defineInstance s l module i).run w = _ := (run_bind_value h).trans hrun
  rcases b.record_cases (.under module items) with ⟨hr, ha⟩ | ⟨recorded, d, rest, hr, ha, heq, ht⟩
  · simp only [Book.answer, Book.accepted, hr] at hrun' hbook
    exact .inl ⟨ha, w', hrun', hbook⟩
  · simp only [Book.answer, Book.accepted, hr] at hrun' hbook
    obtain ⟨before, tail, rfl, hbefore, htail⟩ := List.map_eq_append_iff.mp heq
    obtain ⟨e, rest', rfl, rfl, -⟩ := List.map_eq_cons_iff.mp htail
    subst hbefore
    exact .inr ⟨before, e, rest', rfl, ha, ht, w', hrun', hbook⟩

/-- Each field is the law of its operation. For operations that are done in two parts, the first
part is one that spares the linker, so the second starts from the same book. -/
theorem isBook (hb : w.book? l = some b) : IsBook w l b where
  found m n := run_get? hb m n
  switched allow := by
    have h := (Operation.allowShadowing allow).perform_records hb
    exact ⟨_, rfl, h.book⟩
  duplicate m n hoff h item := run_define_taken hb (by simp [Book.taken, hoff, h]) item
  defined m n h item := run_define_free hb (by rcases h with h | h <;> simp [Book.taken, h]) item
  function s m n type code captures f w₁ h := by
    have hbook := (Func.create_confined s type code captures :
      (Func.create s type code captures : Act κ σ _).Confined (Effect.SparesLinker l)).book? hb
    rw [h] at hbook
    exact ⟨hbook, run_bind_value h⟩
  functionFailed s m n type code captures e w₁ h := by
    have hbook := (Func.create_confined s type code captures :
      (Func.create s type code captures : Act κ σ _).Confined (Effect.SparesLinker l)).book? hb
    rw [h] at hbook
    exact ⟨hbook, run_bind_failed h⟩
  exports s i g inst hg hi := by
    have hbook := (Instance.exports_confined (P := Effect.SparesLinker l) s i :
      (Instance.exports s i : Act κ σ _).Confined _).book? hb
    obtain ⟨o, w₁, hrun, -, ho⟩ := run_exports hg hi
    rw [hrun] at hbook
    exact ⟨o, w₁, hrun, hbook, ho⟩
  instance_ s module i items w₁ h := run_defineInstance hb h
  module_ host s name m i w₁ hhost h := by
    have hbook := (instantiate_confined hhost s l m).book? hb
    rw [h] at hbook
    have hinner := defineInstance_records hbook s name i
    have houter := hinner.ensuring (h := i)
    rw [show (defineModule host s l name m).run w = _ from run_bind_value h]
    exact ⟨hbook, houter.outcome.trans hinner.outcome.symm, houter.book.trans hinner.book.symm⟩
  moduleFailed host s name m e w₁ hhost h := by
    have hbook := (instantiate_confined hhost s l m).book? hb
    rw [h] at hbook
    exact ⟨hbook, run_bind_failed h⟩
  records o := o.perform_records hb

/-- What a linker comes to in the course of several events. -/
structure Follows (w : World κ σ) (b : Book) (events : List (Event κ σ l)) : Prop where
  /-- The linker is the book that is left. -/
  book : IsBook (after w events) l (follow b w events).2
  /-- A pair has the item of the last definition of it that succeeded. -/
  items : ∀ m n, (follow b w events).2.items m n =
    (Book.last? (follow b w events).1 m n).or (b.items m n)
  /-- The switch is as it was last set. -/
  shadowing : (follow b w events).2.shadowing =
    (events.filterMap Event.allows?).getLast?.getD b.shadowing
  /-- A pair that has an item while shadowing is off keeps it until someone turns shadowing on. -/
  kept : ∀ earlier later, events = earlier ++ later → (follow b w earlier).2.shadowing = false →
    (∀ e ∈ later, e.allows? ≠ some true) → ∀ m n item,
    (follow b w earlier).2.items m n = some item → (follow b w events).2.items m n = some item

/-- Following events in two parts is following them at once. -/
theorem follow_append (b : Book) (w : World κ σ) (earlier later : List (Event κ σ l)) :
    (follow b w (earlier ++ later)).2 =
      (follow (follow b w earlier).2 (after w earlier) later).2 := by
  induction earlier generalizing w b with
  | nil => rfl
  | cons e rest ih =>
    exact ih ((e.switch b).putAll ((e.switch b).accepted (e.offered w))) (e.act.run w).2

/-- A linker is the map of the definitions that succeeded, in every sequence of operations. -/
theorem follows_definitions (hb : w.book? l = some b) (events : List (Event κ σ l)) :
    Follows w b events where
  book := isBook (book?_after hb events)
  items m n := items_follow b w events m n
  shadowing := shadowing_follow b w events
  kept earlier later h hoff hlater m n item hitem := by
    subst h
    rw [follow_append]
    exact items_follow_off hoff hlater hitem _

/-- A new linker has an empty book, with shadowing off. -/
theorem book?_newLinker (w : World κ σ) (engine : Nat) :
    (w.newLinker engine).2.book? (w.newLinker engine).1 = some ⟨fun _ _ => none, false⟩ := by
  simp only [World.book?, World.newLinker, World.retainEngine, Array.getElem?_push_size,
    Option.map_some, Option.some.injEq]
  exact Book.ext rfl rfl

/-- A linker with two pairs whose names are the same when they are put together. They do not get in
the way of each other, the second definition of the first pair is refused, and the second definition
of the other is accepted, because shadowing is on by then. -/
theorem follows_definitions_from_new :
    let w : World Unit Unit := ((World.empty ()).newLinker 0).2
    let events : List (Event Unit Unit 0) :=
      [.operation (.define "a" "bc" ⟨.func, 0⟩), .operation (.define "ab" "c" ⟨.global, 1⟩),
        .operation (.define "a" "bc" ⟨.memory, 2⟩), .operation (.allowShadowing true),
        .operation (.define "ab" "c" ⟨.table, 3⟩),
        .operation (.module_ (fun _ _ _ _ => pure (.ok [])) (fun _ _ _ _ => .pure) 0 "" 0)]
    w.book? 0 = some ⟨fun _ _ => none, false⟩ ∧ Follows w ⟨fun _ _ => none, false⟩ events ∧
      (follow ⟨fun _ _ => none, false⟩ w events).2.items "a" "bc" = some ⟨.func, 0⟩ ∧
      (follow ⟨fun _ _ => none, false⟩ w events).2.items "ab" "c" = some ⟨.table, 3⟩ :=
  ⟨book?_newLinker _ 0, follows_definitions (book?_newLinker _ 0) _, by rfl, by rfl⟩

end Linker

/-- Every instance that an embedder comes to exports what is in its store, so no linker is stopped by
one that does not. -/
theorem Embedder.exports_declared {κ : Type} (embedder : Embedder κ) (depth : Nat)
    (programs : List (Program κ Unit)) (order : List Nat) {s n : Nat} {g : Guest.Store}
    {inst : Guest.Instance}
    (hg : ((embedder.start depth programs).run order).world.guest? s = some g)
    (hn : g.instances[n]? = some inst) : ∀ e ∈ inst.exports, (g.declaredType? e.2).isSome :=
  (((embedder.typed_run depth programs order []).1.guests s g hg).instances n inst hn).declared

end WasmHost.Host
