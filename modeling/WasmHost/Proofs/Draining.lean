import WasmHost.Reclaim

/-!
# Handles are reclaimed in the order in which they came

Any thread may put a handle into a queue at any time: before a drain, after it has taken its batch,
between any two of its deletions, and from inside one of them. The thread that owns the queue drains
it, one drain after the other. This module has the runs of a queue, with what happens in them written
down, and says that handles come out as they went in, and what each drain is accountable for.

A queue by itself is a pair of lists and easily understood. What has to be shown concerns the times
at which things happen. A drain is not one step: it swaps, deletes handles one by one, and ends, and
between any two of these others may put handles in. So a run is a sequence of events, of which only
those of the drain are in order with one another. The threads do not occur in it. Whose event it is
does not matter, and a deletion that puts handles in, as deleting a store may do, is nothing
special.

One equation carries the module: what was there and what joins is what is deleted and what is left,
in order (`Step.toList_eq`). All that the queue knows is what lies before and behind the swap, which
moves handles from the one part to the other without changing the list that they form together. By
induction it holds of runs, and from an empty queue it says that what was deleted is a prefix of
what has joined. What a single drain is accountable for does not follow from it, since it does not
say when a handle joined. For that, the two parts are looked at separately, as long as the drain
goes on (`within`).
-/

namespace WasmHost

namespace ReclaimQueue

variable {α : Type}

/-! ## Taking from a batch

Only the drain takes from the batch, and it takes from the front. -/

theorem batch_of_next? {q q' : ReclaimQueue α} {h : α} (hq : q.next? = some (h, q')) :
    q.batch = h :: q'.batch ∧ q'.pending = q.pending := by
  unfold next? at hq
  split at hq
  · cases hq
  · rename_i hb
    cases hq
    exact ⟨hb, rfl⟩

theorem batch_of_next?_none {q : ReclaimQueue α} (hq : q.next? = none) : q.batch = [] := by
  unfold next? at hq
  split at hq
  · assumption
  · cases hq

/-! ## Runs of a queue

An event tells what happened, with the handle that it happened to. So a run determines what joined,
what was refused and what was deleted, and these are read off from the list of its events. -/

/-- What happens to a queue. -/
inductive Event (α : Type) where
  /-- A handle joins. -/
  | enqueue (handle : α)
  /-- A handle is refused, because it waits already. -/
  | refuse (handle : α)
  /-- A drain takes all that waits. -/
  | swap
  /-- The drain deletes a handle. -/
  | reclaim (handle : α)
  /-- The drain is over, and says how many handles it had taken. -/
  | finish (count : Nat)
  deriving DecidableEq

namespace Event

/-- The handle that joins. -/
def enqueued : Event α → List α
  | enqueue h => [h]
  | _ => []

/-- The handle that is to join, refused or not. -/
def offered : Event α → List α
  | enqueue h | refuse h => [h]
  | _ => []

/-- The handle that is deleted. -/
def reclaimed : Event α → List α
  | reclaim h => [h]
  | _ => []

/-- The event begins a drain, or ends one. -/
def isBoundary : Event α → Bool
  | swap | finish _ => true
  | _ => false

end Event

/-- The handles that have joined, in order. -/
def enqueuedIn (es : List (Event α)) : List α := es.flatMap Event.enqueued

/-- The handles that were to join, in order. -/
def offeredIn (es : List (Event α)) : List α := es.flatMap Event.offered

/-- The handles that have been deleted, in order. -/
def reclaimedIn (es : List (Event α)) : List α := es.flatMap Event.reclaimed

/-- A queue, and what the drain that is under way will say in the end, if there is one. That number
is fixed when the drain begins, whatever joins later. -/
structure Site (α : Type) where
  queue : ReclaimQueue α
  drain : Option Nat
  deriving DecidableEq

/-- A queue in which nothing has happened. -/
def Site.start : Site α := ⟨.empty, none⟩

variable [BEq α]

/-- One event. Drains do not overlap, but everything else may come in any order. -/
inductive Step : Site α → Event α → Site α → Prop
  | enqueue {q q' : ReclaimQueue α} {d : Option Nat} {h : α} (hq : q.enqueue? h = some q') :
    Step ⟨q, d⟩ (.enqueue h) ⟨q', d⟩
  | refuse {q : ReclaimQueue α} {d : Option Nat} {h : α} (hq : q.enqueue? h = none) :
    Step ⟨q, d⟩ (.refuse h) ⟨q, d⟩
  | swap {q : ReclaimQueue α} : Step ⟨q, none⟩ .swap ⟨q.beginDrain, some q.beginDrain.batch.length⟩
  | reclaim {q q' : ReclaimQueue α} {n : Nat} {h : α} (hq : q.next? = some (h, q')) :
    Step ⟨q, some n⟩ (.reclaim h) ⟨q', some n⟩
  | finish {q : ReclaimQueue α} {n : Nat} (hq : q.next? = none) :
    Step ⟨q, some n⟩ (.finish n) ⟨q, none⟩

/-- Events one after the other. -/
inductive Run : Site α → List (Event α) → Site α → Prop
  | nil {s : Site α} : Run s [] s
  | cons {s s' s'' : Site α} {e : Event α} {es : List (Event α)} (h : Step s e s')
    (hs : Run s' es s'') : Run s (e :: es) s''

variable {s s' s'' : Site α} {e : Event α} {es es' : List (Event α)}

/-- Runs that fit together are one run. -/
theorem Run.append (h : Run s es s') (h' : Run s' es' s'') : Run s (es ++ es') s'' := by
  induction h with
  | nil => exact h'
  | cons hstep _ ih => exact .cons hstep (ih h')

/-- A run can be cut at any place. A drain is looked at by cutting it behind its swap and before its
end. -/
theorem Run.exists_of_append (h : Run s (es ++ es') s'') : ∃ s', Run s es s' ∧ Run s' es' s'' := by
  induction es generalizing s with
  | nil => exact ⟨s, .nil, h⟩
  | cons e es ih =>
    cases h with
    | cons hstep hs =>
      obtain ⟨s', hs, hs'⟩ := ih hs
      exact ⟨s', .cons hstep hs, hs'⟩

/-! ## What one event does

For each of the statements there is one lemma about an event and one, by induction, about a run. The
names are the same. -/

theorem pending_of_enqueue? {q q' : ReclaimQueue α} {h : α} (hq : q.enqueue? h = some q') :
    q'.batch = q.batch ∧ q'.pending = q.pending ++ [h] := by
  unfold enqueue? at hq
  split at hq
  · cases hq
  · cases hq
    exact ⟨rfl, rfl⟩

/-- A handle is refused if it waits, and only then. -/
theorem enqueue?_eq_none [LawfulBEq α] {q : ReclaimQueue α} {h : α} :
    q.enqueue? h = none ↔ h ∈ q.pending := by
  simp [enqueue?]

namespace Step

/-- What was there and what joins is what leaves and what is there afterwards, in order. -/
theorem toList_eq (h : Step s e s') :
    s.queue.toList ++ e.enqueued = e.reclaimed ++ s'.queue.toList := by
  cases h with
  | enqueue hq => simp [toList_of_enqueue? hq, Event.enqueued, Event.reclaimed]
  | refuse => simp [Event.enqueued, Event.reclaimed]
  | swap => simp [toList_beginDrain, Event.enqueued, Event.reclaimed]
  | reclaim hq => simp [toList_of_next? hq, Event.enqueued, Event.reclaimed]
  | finish => simp [Event.enqueued, Event.reclaimed]

/-- Between drains, no batch is left over. -/
theorem idle (h : Step s e s') (hs : s.drain = none → s.queue.batch = []) :
    s'.drain = none → s'.queue.batch = [] := by
  cases h with
  | enqueue hq => exact fun hd => (pending_of_enqueue? hq).1.trans (hs hd)
  | refuse => exact hs
  | swap => exact fun hd => by cases hd
  | reclaim => exact fun hd => by cases hd
  | finish hq => exact fun _ => batch_of_next?_none hq

/-- While a drain is under way, only it takes from its batch, and what joins waits behind all that
waits. -/
theorem within (h : Step s e s') (he : e.isBoundary = false) :
    s.queue.batch = e.reclaimed ++ s'.queue.batch ∧
      s'.queue.pending = s.queue.pending ++ e.enqueued ∧ s'.drain = s.drain := by
  cases h with
  | enqueue hq =>
    obtain ⟨hb, hp⟩ := pending_of_enqueue? hq
    exact ⟨hb.symm, hp, rfl⟩
  | refuse => exact ⟨rfl, (List.append_nil _).symm, rfl⟩
  | reclaim hq =>
    obtain ⟨hb, hp⟩ := batch_of_next? hq
    exact ⟨hb, by simpa [Event.enqueued] using hp, rfl⟩
  | swap => cases he
  | finish => cases he

end Step

/-! ## What a run does

Of a run it has to be assumed that it does not begin in the middle of a drain with something left in
the batch; runs that start from nothing do not, and this is the only invariant that is needed. -/

namespace Run

/-- Handles are conserved, and their order is. By induction: what joined in the first event is
behind everything that was there, and what was deleted in it was at the front. -/
theorem toList_eq (h : Run s es s') :
    s.queue.toList ++ enqueuedIn es = reclaimedIn es ++ s'.queue.toList := by
  induction h with
  | nil => simp [enqueuedIn, reclaimedIn]
  | @cons s s' s'' e es hstep _ ih =>
    calc s.queue.toList ++ enqueuedIn (e :: es)
        = s.queue.toList ++ e.enqueued ++ enqueuedIn es := by simp [enqueuedIn]
      _ = e.reclaimed ++ (s'.queue.toList ++ enqueuedIn es) := by
        rw [hstep.toList_eq, List.append_assoc]
      _ = reclaimedIn (e :: es) ++ s''.queue.toList := by simp [ih, reclaimedIn]

theorem idle (h : Run s es s') (hs : s.drain = none → s.queue.batch = []) :
    s'.drain = none → s'.queue.batch = [] := by
  induction h with
  | nil => exact hs
  | cons hstep _ ih => exact ih (hstep.idle hs)

theorem within (h : Run s es s') (he : ∀ e ∈ es, e.isBoundary = false) :
    s.queue.batch = reclaimedIn es ++ s'.queue.batch ∧
      s'.queue.pending = s.queue.pending ++ enqueuedIn es ∧ s'.drain = s.drain := by
  induction h with
  | nil => simp [enqueuedIn, reclaimedIn]
  | @cons s s' s'' e es hstep _ ih =>
    obtain ⟨hb, hp, hd⟩ := hstep.within (he e (List.mem_cons_self ..))
    obtain ⟨hb', hp', hd'⟩ := ih fun e he' => he e (List.mem_cons_of_mem _ he')
    refine ⟨?_, ?_, hd'.trans hd⟩
    · rw [hb, hb']
      simp [reclaimedIn]
    · rw [hp', hp]
      simp [enqueuedIn]

/-- A drain, from its swap to its end: it gives the number of handles that waited at the swap, deletes
those, and leaves what has joined since. -/
theorem drain {during : List (Event α)} {n : Nat} (h : Run s (.swap :: during ++ [.finish n]) s')
    (hs : s.drain = none → s.queue.batch = []) (he : ∀ e ∈ during, e.isBoundary = false) :
    n = s.queue.pending.length ∧ reclaimedIn during = s.queue.pending ∧
      s'.queue = ⟨[], enqueuedIn during⟩ := by
  cases h with
  | cons hswap hrest =>
    cases hswap with
    | @swap q =>
      have hbatch : q.batch = [] := hs rfl
      have hq : q.beginDrain = ⟨q.pending, []⟩ := by simp [beginDrain, hbatch]
      obtain ⟨⟨q', d⟩, hduring, hfinish⟩ := hrest.exists_of_append
      obtain ⟨hb, hp, hd⟩ := hduring.within he
      cases hfinish with
      | cons hstep hnil =>
        cases hnil
        cases hstep with
        | finish hnext =>
          simp only [hq] at hb hp hd
          have hempty := batch_of_next?_none hnext
          obtain ⟨batch, pending⟩ := q'
          obtain rfl : batch = [] := hempty
          simp only [List.append_nil, List.nil_append, Option.some.injEq] at hb hp hd
          exact ⟨hd, hb.symm, by rw [hp]⟩

/-- If all handles that are to join are distinct, and none of them is there, none is refused. By
induction on the run: a handle that joins moves from those to come to those that are there, so
together they stay distinct. A handle that is refused would be in both. -/
theorem accepted [LawfulBEq α] (h : Run s es s')
    (hd : (s.queue.toList ++ offeredIn es).Nodup) (x : α) : .refuse x ∉ es := by
  induction h with
  | nil => simp
  | @cons s s' s'' e es hstep _ ih =>
    -- In every event but a refusal, nothing is added to the handles that are there or to come.
    have hsub : s'.queue.toList ++ offeredIn es <:+ s.queue.toList ++ offeredIn (e :: es) ∨
        ∃ y, e = .refuse y := by
      cases hstep with
      | enqueue hq => exact .inl ⟨[], by simp [toList_of_enqueue? hq, offeredIn, Event.offered]⟩
      | refuse => exact .inr ⟨_, rfl⟩
      | swap => exact .inl ⟨[], by simp [toList_beginDrain, offeredIn, Event.offered]⟩
      | reclaim hq =>
        exact .inl ⟨[_], by simp [toList_of_next? hq, offeredIn, Event.offered]; rfl⟩
      | finish => exact .inl ⟨[], by simp [offeredIn, Event.offered]⟩
    rcases hsub with hsub | ⟨y, rfl⟩
    · refine fun hmem => ?_
      rcases List.mem_cons.mp hmem with rfl | hmem
      · cases hstep with
        | @refuse q d _ hq =>
          -- The handle waits, and it is offered once more.
          have hy : x ∈ q.toList := List.mem_append_right _ (enqueue?_eq_none.mp hq)
          exact (List.nodup_append.mp hd).2.2 x hy x (by simp [offeredIn, Event.offered]) rfl
      · exact ih (hd.sublist hsub.sublist) hmem
    · cases hstep with
      | @refuse q d _ hq =>
        have hy : y ∈ q.toList := List.mem_append_right _ (enqueue?_eq_none.mp hq)
        exact absurd rfl
          ((List.nodup_append.mp hd).2.2 y hy y (by simp [offeredIn, Event.offered]))

end Run

/-- A queue that nobody else uses any more can be drained, and then nothing is left in it. -/
theorem run_drop (q : ReclaimQueue α) (hq : q.batch = []) :
    Run ⟨q, none⟩ (.swap :: q.pending.map .reclaim ++ [.finish q.pending.length]) Site.start := by
  -- By induction on the batch, for any number that the drain is going to give.
  have hdelete : ∀ (l : List α) (n : Nat), Run (⟨⟨l, []⟩, some n⟩ : Site α)
      (l.map .reclaim ++ [.finish n]) Site.start := by
    intro l n
    induction l with
    | nil => exact .cons (.finish rfl) .nil
    | cons h l ih => exact .cons (.reclaim rfl) ih
  have hbegin : q.beginDrain = ⟨q.pending, []⟩ := by simp [beginDrain, hq]
  refine .cons .swap ?_
  rw [hbegin]
  exact hdelete _ _

/-! ## The law

What is known of a run is said about its end, with all that may come next. So `drain` and `drop`
speak of runs that go on from here, and the statement covers every drain of a run, as the run up to
it is a run. -/

/-- What is known at the end of a run. -/
structure InOrder (es : List (Event α)) (s : Site α) : Prop where
  /-- What has been deleted is a prefix of what has joined. The rest is the rest of the batch, and
  then what waits. -/
  history : enqueuedIn es = reclaimedIn es ++ (s.queue.batch ++ s.queue.pending)
  /-- A handle that joins changes neither what has been deleted nor the batch. -/
  quiet : ∀ x s', Step s (.enqueue x) s' →
    s'.queue = ⟨s.queue.batch, s.queue.pending ++ [x]⟩ ∧ s'.drain = s.drain
  /-- If all handles that are to join are distinct, none is refused. -/
  accepted : (offeredIn es).Nodup → ∀ x, .refuse x ∉ es
  /-- A handle can be refused if it waits, and only then, and a handle that is refused leaves the
  queue as it was. -/
  refused : ∀ x, (Step s (.refuse x) s ↔ x ∈ s.queue.pending) ∧
    ∀ s', Step s (.refuse x) s' → s' = s
  /-- A drain that begins here gives the number of handles that wait here, deletes those, and leaves
  those that have joined since, whatever happens in the meantime. -/
  drain : ∀ during n s', (∀ e ∈ during, e.isBoundary = false) →
    Run s (.swap :: during ++ [.finish n]) s' →
    n = s.queue.pending.length ∧ reclaimedIn during = s.queue.pending ∧
      s'.queue = ⟨[], enqueuedIn during⟩
  /-- A queue that is dropped deletes all that waits. -/
  drop : s.drain = none →
    Run s (.swap :: s.queue.pending.map .reclaim ++ [.finish s.queue.pending.length]) Site.start

/-- Whatever happens to a queue and in whatever order, handles are deleted in the order in which they
came, and each drain is accountable for those that waited when it began. -/
theorem reclaimed_in_order [LawfulBEq α] (h : Run Site.start es s) : InOrder es s := by
  have hidle := h.idle fun _ => rfl
  exact {
    history := by simpa [Site.start, empty, toList] using h.toList_eq
    quiet := by
      rintro x s' hstep
      cases hstep with
      | enqueue hq =>
        obtain ⟨hb, hp⟩ := pending_of_enqueue? hq
        rw [← hb, ← hp]
        exact ⟨rfl, rfl⟩
    accepted := fun hd => h.accepted (by simpa [Site.start, empty, toList] using hd)
    refused := by
      refine fun x => ⟨⟨fun hstep => ?_, fun hx => .refuse (enqueue?_eq_none.mpr hx)⟩, ?_⟩
      · cases hstep with
        | refuse hq => exact enqueue?_eq_none.mp hq
      · rintro s' ⟨⟩
        rfl
    drain := fun during n s' he hrun => hrun.drain hidle he
    drop := fun hd => by
      obtain ⟨q, d⟩ := s
      obtain rfl : d = none := hd
      exact run_drop q (hidle rfl) }

/-- A handle joins while a drain is at work, and waits for the next one. -/
theorem reclaimed_in_order_during_drain :
    Run Site.start [.enqueue 1, .enqueue 2, .swap, .reclaim 1, .enqueue 3, .reclaim 2, .finish 2]
        ⟨⟨[], [3]⟩, none⟩ ∧
      InOrder [.enqueue 1, .enqueue 2, .swap, .reclaim 1, .enqueue 3, .reclaim 2, .finish 2]
        (⟨⟨[], [3]⟩, none⟩ : Site Nat) := by
  have h : Run Site.start
      [.enqueue 1, .enqueue 2, .swap, .reclaim 1, .enqueue 3, .reclaim 2, .finish 2]
      (⟨⟨[], [3]⟩, none⟩ : Site Nat) :=
    .cons (.enqueue rfl) <| .cons (.enqueue rfl) <| .cons .swap <| .cons (.reclaim rfl) <|
      .cons (.enqueue rfl) <| .cons (.reclaim rfl) <| .cons (.finish rfl) .nil
  exact ⟨h, reclaimed_in_order h⟩

end ReclaimQueue

end WasmHost
