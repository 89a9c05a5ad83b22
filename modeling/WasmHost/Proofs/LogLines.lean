import WasmHost.Proofs.ConfinedPrograms
import WasmHost.Proofs.Exports
import WasmHost.Proofs.Rejections

/-!
# Lines that guests log

A guest that calls the logging closure gives a place and a length. If both are no less than zero, and
all of that range lies within the memory that the calling instance exports as `memory`, then one line is
added to the log; otherwise none is. Either way the call comes to its normal end, and guests stay as they
are. So a log has the lines of the calls, in the order of the calls, and what has been taken of it
together with what is left of it is all that was ever added.

The closure is short, and yet a call of it goes through most of the library: the arguments are
marshalled, the caller's export is handed out as a new handle, the memory is read in the context of
the store, the handle is released, and the results are checked. The question is whether all this
could do anything but add the line, and what the line is if anything is wrong with the range.
`lineOf` gives the answer as a function of the store, the instance and the three numbers, with no
handles in it, and `run_callHost_log` says that the call does what the function says.

The bounds are those of signed numbers, as the closure has them, and are compared before anything is
converted. So a negative place is refused as such, and not taken for a large one; a range that ends
beyond the memory is refused even if it would wrap around.
-/

namespace WasmHost

/-- The text of a line is that of its bytes, if they are text. -/
theorem GuestLog.decode_text (text : String) : decode text.toByteArray = text := by
  have hvalid : text.toByteArray.IsValidUTF8 := text.isValidUTF8
  simp [decode, String.fromUTF8?, hvalid, String.fromUTF8]

theorem GuestLog.decode_invalid {bytes : ByteArray} (h : ¬ bytes.IsValidUTF8) :
    decode bytes = undecodable := by
  simp [decode, String.fromUTF8?, h]

end WasmHost

namespace WasmHost.Guest

theorem Store.putMemory_self {g : Store} {i : Nat} {m : Memory} (hm : g.memories[i]? = some m) :
    g.putMemory i m = g := by
  have hset : g.memories.setIfInBounds i m = g.memories := by
    apply Array.ext_getElem?
    intro j
    by_cases hj : i = j
    · subst hj
      rw [Array.getElem?_setIfInBounds_self_of_lt (Array.getElem?_eq_some_iff.mp hm).1, hm]
    · rw [Array.getElem?_setIfInBounds_ne hj]
  rw [putMemory, hset]

end WasmHost.Guest

namespace WasmHost.Host

open Act

variable {κ σ α : Type}

/-! ## Logs

No other operation has anything to do with logs. That is known from the effects of operations, so
handing out and releasing need not be looked into again. -/

/-- An effect leaves all logs alone. -/
def Effect.SparesLogs : Effect → Prop
  | newLog | logLine .. => False
  | _ => True

instance : Effect.Lenient Effect.SparesLogs where
  routine e he := by cases e <;> first | exact trivial | exact he.elim

theorem World.logs_apply {e : Effect} (he : e.SparesLogs) (w : World κ σ) :
    (e.apply w).logs = w.logs := by
  cases e with
  | newLog => exact he.elim
  | logLine sink entry => exact he.elim
  | define l module name item =>
    unfold Effect.apply World.define
    dsimp only
    split
    · rfl
    · split <;> rfl
  | retainObjectOf g =>
    unfold Effect.apply World.retainObjectOf
    dsimp only
    split <;> rfl
  | copyHeld s g =>
    unfold Effect.apply World.copyHeld
    dsimp only
    split <;> rfl
  | dismissObject o =>
    obtain ⟨objects, h⟩ := w.reduceObject_eq o fun c => { c with clones := c.clones - 1 }
    show (w.reduceObject o _).2.logs = _
    rw [h]
  | dismissOrigin g =>
    obtain ⟨objects, origins, h⟩ := w.dismissOrigin_eq g
    show (w.dismissOrigin g).2.logs = _
    rw [h]
  | _ => rfl

theorem Act.Confined.logs {m : Act κ σ α} (hm : m.Confined Effect.SparesLogs) (w : World κ σ) :
    (m.run w).2.logs = w.logs :=
  hm.run (R := fun w w' => w'.logs = w.logs) (fun _ => rfl) (fun h h' => h'.trans h)
    (fun _ he w _ h => h.logs.trans (w.logs_apply he)) w

/-! ## The line of a call

A specification, to be compared with the code in the next section. -/

/-- The place of the export of an instance, if there is one. -/
def exportOf (g : Guest.Store) (instance_ : Option Nat) (name : String) : Option Guest.Place :=
  (instance_.bind (g.instances[·]?)).bind (·.export? name)

/-- The memory at a place, if the host has a view of it. -/
def viewedMemory? (g : Guest.Store) : Guest.Place → Option Guest.Memory
  | .memory m => (g.memories[m]?).filter fun m => !m.type.shared
  | _ => none

/-- The memory that an instance exports as `memory`, if the host has a view of it. -/
def loggedFrom (g : Guest.Store) (instance_ : Option Nat) : Option Guest.Memory :=
  (exportOf g instance_ "memory").bind (viewedMemory? g)

/-- The line of a call. There is none if the range is not within the memory. -/
def lineOf (g : Guest.Store) (instance_ : Option Nat) (level ptr len : BitVec 32) :
    Option LogEntry := do
  let m ← loggedFrom g instance_
  if 0 ≤ ptr.toInt ∧ 0 ≤ len.toInt ∧ ptr.toInt + len.toInt ≤ m.size then
    some ⟨.ofNumber level.toInt,
      GuestLog.decode ⟨(m.slice ptr.toInt.toNat len.toInt.toNat).toArray⟩⟩
  else none

/-- Logs with one line more, if there is one. -/
def addLine (logs : Array GuestLog) (sink : Nat) : Option LogEntry → Array GuestLog
  | some line => logs.modify sink (·.push line)
  | none => logs

variable {g : Guest.Store} {instance_ : Option Nat} {level ptr len : BitVec 32}

theorem lineOf_of_unlogged (h : loggedFrom g instance_ = none) :
    lineOf g instance_ level ptr len = none := by
  simp [lineOf, h]

theorem lineOf_of_negative (h : ptr.toInt < 0 ∨ len.toInt < 0) :
    lineOf g instance_ level ptr len = none := by
  have hrange : ¬(0 ≤ ptr.toInt ∧ 0 ≤ len.toInt) := by omega
  cases hm : loggedFrom g instance_ with
  | none => exact lineOf_of_unlogged hm
  | some m => simp [lineOf, hm, ← and_assoc, hrange]

theorem toInt_eq_toNat {x : BitVec 32} (h : 0 ≤ x.toInt) : x.toInt = x.toNat := by
  rw [BitVec.toInt_eq_toNat_cond] at h ⊢
  split at h <;> omega

theorem lineOf_of_logged {m : Guest.Memory} (hm : loggedFrom g instance_ = some m)
    (hptr : 0 ≤ ptr.toInt) (hlen : 0 ≤ len.toInt) :
    lineOf g instance_ level ptr len =
      (lineAt m ptr.toNat len.toNat).map fun message => ⟨.ofNumber level.toInt, message⟩ := by
  have hp := toInt_eq_toNat hptr
  have hl := toInt_eq_toNat hlen
  -- The two forms of the bound: of signed numbers, and of natural ones after the conversion.
  have hfits : (0 ≤ ptr.toInt ∧ 0 ≤ len.toInt ∧ ptr.toInt + len.toInt ≤ m.size) ↔
      m.fits ptr.toNat len.toNat = true := by
    simp only [Guest.Memory.fits, decide_eq_true_eq]
    omega
  simp only [lineOf, hm, Option.bind_eq_bind, Option.bind_some, hfits, lineAt, Guest.Memory.read?]
  split <;> simp [hp, hl]

/-! ## Logging a line

The cases are those of what the instance exports as `memory`: nothing, something that is no memory,
a memory without a view, a memory. -/

theorem World.guest?_setGuest_self {w : World κ σ} {s : Nat} (hg : w.guest? s = some g) (t : Nat) :
    (w.setGuest s g).guest? t = w.guest? t := by
  by_cases ht : t = s
  · subst ht
    rw [World.guest?_setGuest hg, hg]
  · simp [World.guest?, World.setGuest, World.modifyStore, Array.getElem?_modify, Ne.symm ht]

section Keeper

variable [Keeper κ σ] {R L : Ledger κ} {w : World κ σ} {s : Nat}

/-- A memory that is only looked at stays as it is. -/
theorem Memory.run_withData {α : Type} {a : Handle} {i : Nat} {m : Guest.Memory}
    (hw : Invariant (R + L) w) (ha : w.ItemHandle s a (.memory i)) (hg : w.guest? s = some g)
    (hm : g.memories[i]? = some m) (f : Guest.Memory → α) :
    (withData s a fun m => (f m, m) : Act κ σ α).run w = (.value (f m), (w.drain s).setGuest s g) := by
  have hg' : (w.drain s).guest? s = some g := ((w.drain_settles s).guests s).trans hg
  have hat := run_at ((hw.drain s).2 a _ ha) hg' hm
  refine (run_bind_value (run_context s w)).trans ((run_bind_value hat).trans ?_)
  refine (run_onGuest hg' _).trans ?_
  rw [show ({ m with written := m.written } : Guest.Memory) = m from rfl,
    Guest.Store.putMemory_self hm]

omit [Keeper κ σ] in
theorem Caller.run_getExport_none {name : String} (hg : w.guest? s = some g)
    (h : exportOf g instance_ name = none) :
    (Caller.getExport ⟨s, instance_⟩ name : Act κ σ (Option Item)).run w =
      (.value none, w.drain s) := by
  have hg' : (w.drain s).guest? s = some g := ((w.drain_settles s).guests s).trans hg
  refine (run_bind_value (run_context s w)).trans ((run_bind_value (run_guest hg')).trans ?_)
  unfold exportOf at h
  cases hi : instance_.bind (g.instances[·]?) with
  | none => rfl
  | some i =>
    rw [hi, Option.bind_some] at h
    simp only [h]
    rfl

omit [Keeper κ σ] in
theorem Caller.run_getExport_some {name : String} {place : Guest.Place} (hg : w.guest? s = some g)
    (h : exportOf g instance_ name = some place) :
    (Caller.getExport ⟨s, instance_⟩ name : Act κ σ (Option Item)).run w =
      (handOut s place).run (w.drain s) := by
  have hg' : (w.drain s).guest? s = some g := ((w.drain_settles s).guests s).trans hg
  refine (run_bind_value (run_context s w)).trans ((run_bind_value (run_guest hg')).trans ?_)
  obtain ⟨i, hi, hplace⟩ := Option.bind_eq_some_iff.mp h
  simp only [hi, hplace]

/-- A memory that the host has no view of is not looked at, and neither is anything else. -/
theorem viewedMemory?_eq {place : Guest.Place} (hplace : (g.declaredType? place).isSome) :
    (views g place = true ∧ ∃ i m, place = .memory i ∧ g.memories[i]? = some m ∧
      viewedMemory? g place = some m) ∨
    ((views g place = false ∨ place.kind ≠ .memory) ∧ viewedMemory? g place = none) := by
  cases place with
  | memory i =>
    obtain ⟨type, htype⟩ := Option.isSome_iff_exists.mp hplace
    obtain ⟨m, hm, rfl⟩ := Option.map_eq_some_iff.mp htype
    cases hshared : m.type.shared with
    | false => exact .inl ⟨by simp [views, htype, hshared], i, m, rfl, hm, by simp [viewedMemory?, hm, hshared]⟩
    | true => exact .inr ⟨.inl (by simp [views, htype, hshared]), by simp [viewedMemory?, hm, hshared]⟩
  | _ => exact .inr ⟨.inr (by simp [Guest.Place.kind]), rfl⟩

theorem declared_of_exportOf (hg : g.Typed) {name : String} {place : Guest.Place}
    (h : exportOf g instance_ name = some place) : (g.declaredType? place).isSome := by
  obtain ⟨i, hi, hplace⟩ := Option.bind_eq_some_iff.mp h
  obtain ⟨n, rfl, hi⟩ := Option.bind_eq_some_iff.mp hi
  obtain ⟨before, rest, hexports, -⟩ := List.lookup_eq_some_iff.mp hplace
  exact (hg.instances n i hi).declared (name, place) (by rw [hexports]; simp)

theorem run_lookUp (hw : Invariant (R + L) w) (hg : w.guest? s = some g) {item : Item}
    {place : Guest.Place} (hplace : (g.declaredType? place).isSome) (hview : views g place = true)
    (hkind : item.kind = place.kind) (hitem : w.ItemHandle s item.handle place)
    (hlogged : loggedFrom g instance_ = viewedMemory? g place) (hptr : 0 ≤ ptr.toInt)
    (hlen : 0 ≤ len.toInt) (sink : Nat) (level : BitVec 32) :
    ∃ w', (do
      if item.kind ≠ .memory then return ()
      match ← Memory.withData s item.handle fun m => (lineAt m ptr.toNat len.toNat, m) with
      | none => return ()
      | some message => update (·.logLine sink ⟨.ofNumber level.toInt, message⟩) :
        Act κ σ Unit).run w = (.value (), w') ∧
      (∀ t, w'.guest? t = w.guest? t) ∧
      w'.logs = addLine w.logs sink (lineOf g instance_ level ptr len) := by
  rcases viewedMemory?_eq hplace with ⟨-, i, m, rfl, hm, hviewed⟩ | ⟨hnot, hviewed⟩
  · have hg' : (w.drain s).guest? s = some g := ((w.drain_settles s).guests s).trans hg
    have hguests : ∀ t, ((w.drain s).setGuest s g).guest? t = w.guest? t := fun t =>
      (World.guest?_setGuest_self hg' t).trans ((w.drain_settles s).guests t)
    have hlogs : ((w.drain s).setGuest s g).logs = w.logs := (w.drain_apart s).logs
    have hlook := Memory.run_withData hw hitem hg hm fun m => lineAt m ptr.toNat len.toNat
    have hmemory : item.kind = .memory := hkind
    rw [if_neg (not_not.mpr hmemory), lineOf_of_logged (hlogged.trans hviewed) hptr hlen]
    cases hline : lineAt m ptr.toNat len.toNat with
    | none =>
      rw [hline] at hlook
      exact ⟨_, (run_bind_value hlook).trans rfl, hguests, hlogs⟩
    | some message =>
      rw [hline] at hlook
      refine ⟨_, (run_bind_value hlook).trans rfl, hguests, ?_⟩
      exact congrArg (fun logs : Array GuestLog =>
        logs.modify sink (·.push ⟨.ofNumber level.toInt, message⟩)) hlogs
  · have hother : item.kind ≠ .memory := by
      rcases hnot with h | h
      · rw [hview] at h
        cases h
      · rwa [hkind]
    rw [if_pos hother, lineOf_of_unlogged (hlogged.trans hviewed)]
    exact ⟨w, rfl, fun _ => rfl, rfl⟩

/-- A line is taken from a guest, if there is one. Whatever the caller exports, the closure gives no
error. -/
theorem run_logLine (hw : Invariant (R + L) w) (hg : w.guest? s = some g) (ht : g.Typed)
    (sink : Nat) (instance_ : Option Nat) (level ptr len : BitVec 32) :
    ∃ w', (logLine sink ⟨s, instance_⟩ level ptr len : Act κ σ Unit).run w = (.value (), w') ∧
      (∀ t, w'.guest? t = w.guest? t) ∧
      w'.logs = addLine w.logs sink (lineOf g instance_ level ptr len) := by
  unfold logLine
  by_cases hnegative : ptr.toInt < 0 ∨ len.toInt < 0
  · rw [if_pos hnegative, lineOf_of_negative hnegative]
    exact ⟨w, rfl, fun _ => rfl, rfl⟩
  rw [if_neg hnegative]
  have hptr : 0 ≤ ptr.toInt := by omega
  have hlen : 0 ≤ len.toInt := by omega
  have hdrain := w.drain_settles s
  -- Neither of the numbers is negative. Now it depends on what the instance exports.
  cases hexport : exportOf g instance_ "memory" with
  | none =>
    rw [lineOf_of_unlogged (by rw [loggedFrom, hexport]; rfl)]
    exact ⟨w.drain s, (run_bind_value (Caller.run_getExport_none hg hexport)).trans rfl,
      hdrain.guests, (w.drain_apart s).logs⟩
  | some place =>
    have hlogged : loggedFrom g instance_ = viewedMemory? g place := by
      rw [loggedFrom, hexport]
      rfl
    have hdeclared := declared_of_exportOf ht hexport
    obtain ⟨type, htype⟩ := Option.isSome_iff_exists.mp hdeclared
    obtain ⟨item, w₁, hrun, hguests, hkind, hitem⟩ :=
      run_handOut ((hdrain.guests s).trans hg) htype
    have hguests₁ : ∀ t, w₁.guest? t = w.guest? t := fun t => (hguests t).trans (hdrain.guests t)
    have hlogs₁ : w₁.logs = w.logs := by
      have h := (handOut_confined (P := Effect.SparesLogs) s place :
        (handOut s place : Act κ σ (Option Item)).Confined _).logs (w.drain s)
      rw [hrun] at h
      exact h.trans (w.drain_apart s).logs
    have hrun₁ := (Caller.run_getExport_some (κ := κ) (σ := σ) hg hexport).trans hrun
    have hw₁ := (Caller.getExport_leaves ⟨s, instance_⟩ "memory").run_value hw hrun₁
    cases item with
    | none =>
      have hview : views g place = false := by simpa using hkind
      have hnone : viewedMemory? g place = none := by
        rcases viewedMemory?_eq hdeclared with ⟨h, -⟩ | ⟨-, h⟩
        · rw [hview] at h
          cases h
        · exact h
      rw [lineOf_of_unlogged (hlogged.trans hnone)]
      exact ⟨w₁, (run_bind_value hrun₁).trans rfl, hguests₁, hlogs₁⟩
    | some item =>
      have hview : views g place = true ∧ item.kind = place.kind := by simpa using hkind
      obtain ⟨w₂, hrun₂, hguests₂, hlogs₂⟩ := run_lookUp hw₁ ((hguests₁ s).trans hg) hdeclared
        hview.1 hview.2 (hitem item rfl) hlogged hptr hlen sink level
      -- The handle is let go of in the end, which no guest and no log notices.
      obtain ⟨⟨⟩, w₃, hrelease, hsettles⟩ := releaseHandle_settling item.handle w₂
      have hlogs₃ : w₃.logs = w₂.logs := by
        have h := (releaseHandle_confined (P := Effect.SparesLogs) item.handle :
          (releaseHandle item.handle : Act κ σ Unit).Confined _).logs w₂
        rwa [hrelease] at h
      refine ⟨w₃, (run_bind_value hrun₁).trans (run_ensuring_value hrun₂ hrelease), fun t => ?_, ?_⟩
      · exact (hsettles.guests t).trans ((hguests₂ t).trans (hguests₁ t))
      · rw [hlogs₃, hlogs₂, hlogs₁]

end Keeper

/-! ## Calls of the logging closure

The closure has only numbers for arguments and no results, so marshalling changes nothing. -/

/-- A host runs the code of the logging closure as what it is. -/
def LogsThrough (host : Runner (Code κ) σ) : Prop :=
  ∀ sink captures caller args,
    host (.log sink) captures caller args = (logClosure sink).invoke caller args

/-- A call of the logging closure comes to its normal end, with a line in the log if there is one. -/
theorem run_callHost_log [Keeper (Code κ) σ] {R L : Ledger (Code κ)} {host : Runner (Code κ) σ}
    {known : List (Pin (Code κ))} {v : World (Code κ) σ} {sink : Nat}
    (hhost : LogsThrough host) {key : Nat} {r : Registration (Code κ)}
    (hw : Invariant (R + L) v) (hs : .tenure r.store ((key, r) :: known) none ∈ L)
    (hg : v.guest? r.store = some g) (ht : g.Typed) (hcode : r.code = .log sink)
    (htype : r.type = (logClosure (κ := κ) (σ := σ) sink).type) (instance_ : Option Nat)
    (level ptr len : BitVec 32) :
    ∃ v', (callHost host r.store key instance_ [.i32 level, .i32 ptr, .i32 len]).run v =
        (.value (.ok []), v') ∧
      (∀ t, v'.guest? t = v.guest? t) ∧
      v'.logs = addLine v.logs sink (lineOf g instance_ level ptr len) := by
  let packed : List (Packed r.store) := [.i32 level, .i32 ptr, .i32 len]
  let v₁ := (v.lookup r.store key (packed.map Packed.kind)).2
  obtain ⟨hfound, hsound⟩ := hw.apart.lookup (Multiset.mem_add.mpr (.inl hs))
    (List.mem_cons_self ..) (packed.map Packed.kind)
  have hw₁ : Invariant (R + L) v₁ := hw.of_sound rfl hsound (.refl _)
  have hfind : (make (·.lookup r.store key (packed.map Packed.kind)) : Act (Code κ) σ _).run v =
      (.value (some r), v₁) := congrArg (fun o => (Outcome.value o, v₁)) hfound
  obtain ⟨v₂, hline, hguests, hlogs⟩ := run_logLine hw₁ hg ht sink instance_ level ptr len
  have hclosure : (host r.code r.captures ⟨r.store, instance_⟩
      [.i32 level, .i32 ptr, .i32 len]).run v₁ = (.value (.ok []), v₂) := by
    rw [hcode, hhost]
    have hrun : ((logClosure sink).run ⟨r.store, instance_⟩ (level, ptr, len, ()) :
        Act (Code κ) σ _).run v₁ = (.value (.ok ()), v₂) := (run_bind_value hline).trans rfl
    exact (run_bind_value hrun).trans rfl
  have hresults : checkResults r.type [] = none := checkResults_eq_none (by rw [htype]; rfl)
  have hrun : (runClosure host r instance_ packed).run v₁ = (.value (.ok []), v₂) := by
    refine (run_bind_value (a := [.i32 level, .i32 ptr, .i32 len]) rfl).trans
      (run_ensuring_value ((run_bind_value hclosure).trans (run_ensuring_value ?_ rfl)) rfl)
    rw [hresults]
    rfl
  have hcaught : (catchPanic (runClosure host r instance_ packed)).run v₁ =
      (.value (.ok (.ok [])), v₂) := by
    rw [catchPanic, run_after, hrun]
    rfl
  have hexpose : (exposeAll r.store [.i32 level, .i32 ptr, .i32 len] : Act (Code κ) σ _).run v =
      (.value (.ok packed), v) := rfl
  have hrelease : (releasePackedAll packed : Act (Code κ) σ Unit).run v₂ = (.value (), v₂) := rfl
  have hadopt : (adoptAll r.store ([] : List (Packed r.store)) : Act (Code κ) σ _).run v₂ =
      (.value [], v₂) := rfl
  have hreleased : (releasePackedAll ([] : List (Packed r.store)) : Act (Code κ) σ Unit).run v₂ =
      (.value (), v₂) := rfl
  refine ⟨v₂, (run_bind_value hexpose).trans (run_ensuring_value ?_ hrelease), hguests, hlogs⟩
  refine (run_bind_value hfind).trans ((run_bind_value hcaught).trans ?_)
  exact run_ensuring_value (run_bind_value hadopt) hreleased

end WasmHost.Host
