import WasmHost.Proofs.LogLines

/-!
# Logs in the course of a run

A log grows by the lines of calls, one after the other, and is emptied when it is taken. Nothing else
happens to it: no step of any thread adds more than one line, and none takes a line away. Whoever has the
log has the same lines.

One would like to say that a log holds the lines that guests have logged, in order. But logs are
taken while guests run, and several guests may log into one, from several threads. There is no order
of calls, only one of steps. So it is said in two ways. The first is about calls: in a sequence of
calls with anything in between that spares the logs, what was handed out and what is left are the
lines of the calls (`Logged.conserved`). The second is about steps of any threads in any order: what
is written to a log in a step is at most one line, at the end, and again what was handed out and
what is left are the lines that were written (`Confined.watch`).

Both are equations between lists and not between numbers of lines. They say that none is lost, none
is there twice, and they are in order. The equation of one step has the old lines on the left of the
new ones; everything else is induction.

That there is no other way to write a log is known from effects: a step has one, and of all effects
only two have to do with logs. One makes a log, which is empty, and the other adds a line.
-/

namespace WasmHost.Host

open Act

variable {κ σ : Type}

/-! ## What happens to a log

A log that does not exist has no lines. This makes the equations hold for every number, and they say
something for those of logs. -/

namespace World

variable {w w' : World κ σ}

/-- The lines that a log keeps. -/
def lines (w : World κ σ) (sink : Nat) : List LogEntry := ((w.logs[sink]?).map (·.entries)).getD []

/-- The lines of a log are taken. -/
def takeLines (w : World κ σ) (sink : Nat) : List LogEntry × World κ σ :=
  (w.lines sink, { w with logs := w.logs.modify sink fun log => log.take.2 })

/-- Taking empties the log that is taken, and no other. -/
theorem lines_takeLines (w : World κ σ) (sink k : Nat) :
    (w.takeLines k).2.lines sink = if k = sink then [] else w.lines sink := by
  by_cases h : k = sink
  · subst h
    rw [if_pos rfl]
    unfold lines takeLines
    cases hlog : w.logs[k]? with
    | none => simp [Array.getElem?_modify, hlog]
    | some log => simp [Array.getElem?_modify, hlog, GuestLog.take, GuestLog.empty]
  · rw [if_neg h]
    simp [lines, takeLines, Array.getElem?_modify, h]

/-- Worlds with the same logs have the same lines. -/
theorem lines_of_logs {sink : Nat} (h : w'.logs = w.logs) : w'.lines sink = w.lines sink := by
  rw [lines, lines, h]

/-- An effect adds one line at most to the lines of a log. -/
theorem lines_apply (e : Effect) (w : World κ σ) (sink : Nat) :
    ∃ line : Option LogEntry, (e.apply w).lines sink = w.lines sink ++ line.toList := by
  -- Most effects spare the logs. Only two are left to look at.
  by_cases hspares : e.SparesLogs
  · exact ⟨none, by rw [lines_of_logs (w.logs_apply hspares)]; simp⟩
  cases e with
  | newLog =>
    refine ⟨none, ?_⟩
    simp only [Effect.apply, newLog, lines, Array.getElem?_push, Option.toList_none, List.append_nil]
    split
    · rename_i h
      simp [h, GuestLog.empty]
    · rfl
  | logLine k line =>
    by_cases hk : k = sink
    · subst hk
      cases hlog : w.logs[k]? with
      | none => exact ⟨none, by simp [Effect.apply, logLine, lines, Array.getElem?_modify, hlog]⟩
      | some log =>
        exact ⟨some line, by
          simp [Effect.apply, logLine, lines, Array.getElem?_modify, hlog, GuestLog.push]⟩
    · exact ⟨none, by simp [Effect.apply, logLine, lines, Array.getElem?_modify, hk]⟩
  | _ => exact absurd trivial hspares

/-- What a call adds is behind what was there, in its own log. -/
theorem lines_of_addLine {sink k : Nat} {line : Option LogEntry}
    (h : w'.logs = addLine w.logs k line) (hsink : sink < w.logs.size) :
    w'.lines sink = w.lines sink ++ if k = sink then line.toList else [] := by
  cases line with
  | none =>
    rw [lines_of_logs h]
    simp
  | some line =>
    obtain ⟨log, hlog⟩ : ∃ log, w.logs[sink]? = some log :=
      ⟨_, Array.getElem?_eq_getElem hsink⟩
    rw [lines, h]
    by_cases hk : k = sink
    · subst hk
      simp [addLine, lines, Array.getElem?_modify, hlog, GuestLog.push]
    · simp [addLine, lines, Array.getElem?_modify, hk]

end World

/-! ## Sequences of calls

`MayLog` collects what has to be the case for a guest to call the closure of a log: the world is one
that is reached, and the function is in the store of the guest. In such a world every call comes to
its end, whatever numbers the guest passes. So a sequence of calls can be described by its calls
alone, without saying of any of them that it succeeds. -/

/-- A guest that is running in a store may call the logging closure of a log under a key. -/
structure World.MayLog (w : World (Code κ) Pool) (s key sink : Nat) (g : Guest.Store) : Prop where
  reached : w.Typed ∧ ∃ L, Invariant L w
  inUse : w.InUse s g
  func : ∃ (place : Nat) (type : Signature), g.funcs[place]? = some (.host key type)
  closure : ∃ r, w.registry.get? key = some r ∧ r.code = .log sink ∧
    r.type = (logClosure (κ := κ) (σ := Pool) sink).type

/-- What comes of a call of the logging closure: its normal end, and a line in the log if there is one.
All guests stay as they are. -/
def World.TakesLine (w : World (Code κ) Pool) (host : Runner (Code κ) Pool) (s key sink : Nat)
    (g : Guest.Store) : Prop :=
  ∀ (instance_ : Option Nat) (level ptr len : BitVec 32), ∃ w',
    (callHost host s key instance_ [.i32 level, .i32 ptr, .i32 len]).run w = (.value (.ok []), w') ∧
    (∀ t, w'.guest? t = w.guest? t) ∧
    w'.logs = addLine w.logs sink (lineOf g instance_ level ptr len)

/-- The closure of a log runs in a store that is in use, and this is where the invariants are
needed: that the closure is registered under the key, and that it is the one that was meant. -/
theorem World.MayLog.takesLine {w : World (Code κ) Pool} {host : Runner (Code κ) Pool}
    (hhost : LogsThrough host) {s key sink : Nat} {g : Guest.Store} (h : w.MayLog s key sink g) :
    w.TakesLine host s key sink g := by
  intro instance_ level ptr len
  obtain ⟨ht, L, hw⟩ := h.reached
  obtain ⟨place, type, hplace⟩ := h.func
  obtain ⟨r, hr, hcode, htype⟩ := h.closure
  obtain ⟨rfl, known, L', hs, hknown⟩ := hw.knows h.inUse hplace hr
  exact run_callHost_log hhost hknown hs h.inUse.guest (ht.guests _ g h.inUse.guest) hcode htype
    instance_ level ptr len

/-- A sequence of calls of logging closures and of takings of a log, with anything in between that leaves
the logs alone. It comes with the lines of the calls that go to the log, and with those that are handed
out. -/
inductive Logged (host : Runner (Code κ) Pool) (sink : Nat) :
    World (Code κ) Pool → List LogEntry → List LogEntry → World (Code κ) Pool → Prop
  | done (w : World (Code κ) Pool) : Logged host sink w [] [] w
  | call {w w' : World (Code κ) Pool} {s key k : Nat} {g : Guest.Store} (h : w.MayLog s key k g)
      (instance_ : Option Nat) (level ptr len : BitVec 32) {lines handed : List LogEntry}
      (rest : Logged host sink
        ((callHost host s key instance_ [.i32 level, .i32 ptr, .i32 len]).run w).2 lines handed w') :
      Logged host sink w
        ((if k = sink then (lineOf g instance_ level ptr len).toList else []) ++ lines) handed w'
  | take {w w' : World (Code κ) Pool} (k : Nat) {lines handed : List LogEntry}
      (rest : Logged host sink (w.takeLines k).2 lines handed w') :
      Logged host sink w lines ((if k = sink then (w.takeLines k).1 else []) ++ handed) w'
  | elsewhere {w w₁ w' : World (Code κ) Pool} {lines handed : List LogEntry} (h : w₁.logs = w.logs)
      (rest : Logged host sink w₁ lines handed w') : Logged host sink w lines handed w'

/-- What was handed out and what is left are the lines of the calls, after those there were before.
By induction on the sequence. A call moves a line from those to come to those that there are, and
taking moves what there is to what has been handed out. -/
theorem Logged.conserved {host : Runner (Code κ) Pool} (hhost : LogsThrough host) {sink : Nat}
    {w w' : World (Code κ) Pool} {lines handed : List LogEntry} (h : Logged host sink w lines handed w')
    (hsink : sink < w.logs.size) : handed ++ w'.lines sink = w.lines sink ++ lines := by
  induction h with
  | done w => simp
  | @call w w' s key k g h instance_ level ptr len lines handed _ ih =>
    -- The line of the call follows what the log had, and the rest of the sequence goes on from there.
    obtain ⟨w₁, hrun, -, hlogs⟩ := h.takesLine hhost instance_ level ptr len
    rw [hrun] at ih
    have hsize : w₁.logs.size = w.logs.size := by
      rw [hlogs]
      cases lineOf g instance_ level ptr len <;> simp [addLine]
    rw [ih (hsize ▸ hsink), World.lines_of_addLine hlogs hsink, List.append_assoc]
  | @take w w' k lines handed _ ih =>
    have hrest := ih (by simpa [World.takeLines] using hsink)
    rw [List.append_assoc, hrest, World.lines_takeLines]
    by_cases hk : k = sink
    · subst hk
      simp [World.takeLines]
    · simp [hk]
  | elsewhere h _ ih =>
    rw [ih (by rwa [h]), World.lines_of_logs h]

/-! ## Threads

Turns are steps and takings. The lines that are noted are those by which a log has grown; they are
not found out by looking at what the step does. -/

/-- What happens next: a thread takes a step, or a log is taken. -/
inductive Turn where
  | step (i : Nat)
  | take (sink : Nat)

namespace Threads

/-- The log is taken by somebody who has it, without any thread taking a step. -/
def take (t : Threads κ) (sink : Nat) : Threads κ := ⟨t.rest, (t.world.takeLines sink).2⟩

/-- What follows the lines that a log had before, after a step of a thread. -/
def written (t : Threads κ) (sink i : Nat) : List LogEntry :=
  ((t.step i).world.lines sink).drop (t.world.lines sink).length

/-- Threads take their turns, while the lines that are written to a log and those that are handed out
are noted. -/
def watch (sink : Nat) (t : Threads κ) : List Turn → List LogEntry × List LogEntry × Threads κ
  | [] => ([], [], t)
  | .step i :: rest =>
    let (lines, handed, t') := watch sink (t.step i) rest
    (t.written sink i ++ lines, handed, t')
  | .take k :: rest =>
    let (lines, handed, t') := watch sink (t.take k) rest
    (lines, (if k = sink then t.world.lines k else []) ++ handed, t')

variable {t : Threads κ}

/-- A step leaves the lines that there are, and adds one at most. -/
theorem Confined.written (h : t.Confined) (sink i : Nat) :
    (t.step i).world.lines sink = t.world.lines sink ++ t.written sink i ∧
      (t.written sink i).length ≤ 1 := by
  obtain ⟨-, e, he⟩ := h.step i
  obtain ⟨line, hline⟩ := World.lines_apply e t.world sink
  rw [← World.lines_of_logs he.logs] at hline
  -- The step has one effect, so there is one line at most that it can have added.
  have hwritten : t.written sink i = line.toList := by
    rw [Threads.written, hline, List.drop_left]
  rw [hwritten]
  exact ⟨hline, by cases line <;> simp⟩

/-- What was handed out and what is left are the lines that were written, after those there were. By
induction on the turns. -/
theorem Confined.watch (h : t.Confined) (sink : Nat) (turns : List Turn) :
    (t.watch sink turns).2.1 ++ (t.watch sink turns).2.2.world.lines sink =
      t.world.lines sink ++ (t.watch sink turns).1 := by
  induction turns generalizing t with
  | nil => simp [Threads.watch]
  | cons turn turns ih =>
    cases turn with
    | step i =>
      have hrest := ih (h.step i).1
      rw [(h.written sink i).1, List.append_assoc] at hrest
      exact hrest
    | take k =>
      have hrest := ih (t := t.take k) h
      have hlines : (t.take k).world.lines sink = if k = sink then [] else t.world.lines sink :=
        World.lines_takeLines t.world sink k
      -- What is handed out now is what the log had, and it begins again with nothing.
      have hwatch : t.watch sink (.take k :: turns) = (((t.take k).watch sink turns).1,
          (if k = sink then t.world.lines k else []) ++ ((t.take k).watch sink turns).2.1,
          ((t.take k).watch sink turns).2.2) := rfl
      rw [hlines] at hrest
      rw [hwatch, List.append_assoc, hrest]
      by_cases hk : k = sink
      · subst hk
        simp
      · simp [hk]

end Threads

/-! ## Embedders

The fields of `LogsLines` begin with a single call, and go on with what its line is; then come
sequences of calls, steps and turns. -/

/-- Guests log lines as they ought to, in the world that threads have come to and from there on. -/
structure Threads.LogsLines (t : Threads κ) (host : Runner (Code κ) Pool) : Prop where
  /-- Every call of a logging closure comes to its normal end, and leaves all guests as they are. It adds
  its line to the log if there is one, and changes no log otherwise. -/
  call : ∀ s key sink g, t.world.InUse s g →
    (∃ (place : Nat) (type : Signature), g.funcs[place]? = some (.host key type)) →
    (∃ r, t.world.registry.get? key = some r ∧ r.code = .log sink ∧
      r.type = (logClosure (κ := κ) (σ := Pool) sink).type) →
    t.world.TakesLine host s key sink g
  /-- There is a line if neither the place nor the length is less than zero, the calling instance exports
  a memory that the host has a view of, and the range ends no later than that memory. -/
  line : ∀ (g : Guest.Store) (instance_ : Option Nat) (level ptr len : BitVec 32) (line : LogEntry),
    lineOf g instance_ level ptr len = some line ↔
      ∃ (n place : Nat) (i : Guest.Instance) (m : Guest.Memory), instance_ = some n ∧
        g.instances[n]? = some i ∧ i.export? "memory" = some (.memory place) ∧
        g.memories[place]? = some m ∧ m.type.shared = false ∧ 0 ≤ ptr.toInt ∧ 0 ≤ len.toInt ∧
        ptr.toInt + len.toInt ≤ m.size ∧ line = ⟨.ofNumber level.toInt,
          GuestLog.decode ⟨(m.slice ptr.toInt.toNat len.toInt.toNat).toArray⟩⟩
  /-- It says what its bytes say, if they are text. -/
  text : (∀ text : String, GuestLog.decode text.toByteArray = text) ∧
    ∀ bytes : ByteArray, ¬bytes.IsValidUTF8 → GuestLog.decode bytes = "<invalid utf8>"
  /-- After any sequence of calls and takings, what was handed out and what is left are the lines of the
  calls, in their order. -/
  sequence : ∀ sink lines handed w', sink < t.world.logs.size →
    Logged host sink t.world lines handed w' →
    handed ++ w'.lines sink = t.world.lines sink ++ lines
  /-- Whatever threads do, each step leaves the lines there are and adds one at most. -/
  step : ∀ sink i, (t.step i).world.lines sink = t.world.lines sink ++ t.written sink i ∧
    (t.written sink i).length ≤ 1
  /-- Whenever the log is taken in between, what was handed out and what is left are the lines that were
  written. -/
  turns : ∀ sink turns, (t.watch sink turns).2.1 ++ (t.watch sink turns).2.2.world.lines sink =
    t.world.lines sink ++ (t.watch sink turns).1

/-- The line of a call is there under the conditions of the statement. They are those that are
checked one after the other while it is made, and are collected here. -/
theorem lineOf_eq_some {g : Guest.Store} {instance_ : Option Nat} {level ptr len : BitVec 32}
    {line : LogEntry} : lineOf g instance_ level ptr len = some line ↔
      ∃ (n place : Nat) (i : Guest.Instance) (m : Guest.Memory), instance_ = some n ∧
        g.instances[n]? = some i ∧ i.export? "memory" = some (.memory place) ∧
        g.memories[place]? = some m ∧ m.type.shared = false ∧ 0 ≤ ptr.toInt ∧ 0 ≤ len.toInt ∧
        ptr.toInt + len.toInt ≤ m.size ∧ line = ⟨.ofNumber level.toInt,
          GuestLog.decode ⟨(m.slice ptr.toInt.toNat len.toInt.toNat).toArray⟩⟩ := by
  constructor
  · intro h
    obtain ⟨m, hm, hline⟩ := Option.bind_eq_some_iff.mp h
    obtain ⟨p, hplace, hviewed⟩ := Option.bind_eq_some_iff.mp hm
    obtain ⟨i, hi, hexport⟩ := Option.bind_eq_some_iff.mp hplace
    obtain ⟨n, rfl, hi⟩ := Option.bind_eq_some_iff.mp hi
    -- An export of that name that is something else counts as none.
    cases p with
    | memory place =>
      obtain ⟨hmem, hshared⟩ := Option.filter_eq_some_iff.mp hviewed
      split at hline
      · rename_i hrange
        exact ⟨n, place, i, m, rfl, hi, hexport, hmem, by simpa using hshared, hrange.1, hrange.2.1,
          hrange.2.2, (Option.some.inj hline).symm⟩
      · cases hline
    | _ => cases hviewed
  · rintro ⟨n, place, i, m, rfl, hi, hexport, hmem, hshared, hptr, hlen, hrange, rfl⟩
    have hlogged : loggedFrom g (some n) = some m := by
      simp [loggedFrom, exportOf, hi, hexport, viewedMemory?, hmem, hshared]
    simp [lineOf, hlogged, hptr, hlen, hrange]

/-- In every world that an embedder reaches, and however it goes on from there, guests log lines as they
ought to. -/
theorem Embedder.lines_logged (embedder : Embedder κ) (depth : Nat) (programs : List (Program κ Unit))
    (order : List Nat) (nesting : Nat) :
    ((embedder.start depth programs).run order).LogsLines (embedder.hostTo (nesting + 1)) := by
  have hhost : LogsThrough (embedder.hostTo (nesting + 1)) := fun _ _ _ _ => rfl
  obtain ⟨Ls, -, hw⟩ := (embedder.safe_start depth programs).run order
  obtain ⟨ht, -⟩ := embedder.typed_run depth programs order []
  have hconfined : ((embedder.start depth programs).run order).Confined :=
    Threads.Confined.run (embedder.confined_start depth programs) order
  exact {
    call := fun s key sink g huse hfunc hclosure =>
      World.MayLog.takesLine hhost ⟨⟨ht.toTyped, _, hw⟩, huse, hfunc, hclosure⟩
    line := fun _ _ _ _ _ _ => lineOf_eq_some
    text := ⟨GuestLog.decode_text, fun _ h => GuestLog.decode_invalid h⟩
    sequence := fun sink lines handed w' hsink h => h.conserved hhost hsink
    step := fun sink i => hconfined.written sink i
    turns := fun sink turns => hconfined.watch sink turns }

set_option maxRecDepth 20000 in
/-- The second function of the store has the closure that logs. -/
theorem Specimen.logs_world : ∃ r, world.registry.get? 1 = some r ∧ r.code = .log 0 ∧
    r.type = (logClosure (κ := Unit) (σ := Pool) 0).type := by
  refine ⟨⟨0, ⟨[.i32, .i32, .i32], []⟩, .log 0, [], 1⟩, ?_, rfl, rfl⟩
  with_unfolding_all rfl

/-- A guest that logs three bytes on behalf of the instance with the memory adds one line. -/
theorem Embedder.lines_logged_lent :
    ∃ w, (callHost (Specimen.embedder.hostTo 1) 0 1 (some 0) [.i32 2, .i32 0, .i32 3]).run
        Specimen.world = (.value (.ok []), w) ∧
      w.logs = addLine Specimen.world.logs 0
        (some ⟨.ofNumber 2, GuestLog.decode ⟨(Specimen.memory.slice 0 3).toArray⟩⟩) := by
  have hlogs : Threads.LogsLines ((Specimen.embedder.start 1 Specimen.programs).run Specimen.order)
      (Specimen.embedder.hostTo 1) :=
    Specimen.embedder.lines_logged 1 Specimen.programs Specimen.order 0
  have hline := (hlogs.line Specimen.store (some 0) 2 0 3 _).mpr
    ⟨0, 1, Specimen.listing, Specimen.memory, rfl, rfl, by decide +kernel, rfl, rfl, by decide, by decide,
      by decide, rfl⟩
  have htakes : Specimen.world.TakesLine (Specimen.embedder.hostTo 1) 0 1 0 Specimen.store := by
    have hclosure := hlogs.call 0 1 0 Specimen.store
    rw [← Specimen.world_eq] at hclosure
    exact hclosure Specimen.inUse_store ⟨1, _, rfl⟩ Specimen.logs_world
  obtain ⟨w, hrun, -, hw⟩ := htakes (some 0) 2 0 3
  rw [hline] at hw
  exact ⟨w, hrun, hw⟩

end WasmHost.Host
