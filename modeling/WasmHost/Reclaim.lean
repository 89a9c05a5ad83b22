/-!
# Reclamation queues

Handles that are no longer used are not deleted on the spot. They wait in a queue until their
store is at a safe point, where a drain takes everything that waits and deletes it in order. While
a drain works through its batch, more handles may arrive; they wait for the next drain.

A queue is therefore two lists: the rest of the batch that is being drained, and what has arrived
since the drain began. Handles leave in the order in which they came.
-/

namespace WasmHost

/-- Handles on their way to being deleted. -/
structure ReclaimQueue (α : Type) where
  /-- What a drain has taken and not yet deleted; empty between drains. -/
  batch : List α
  /-- What waits for the next drain. -/
  pending : List α
  deriving Repr, DecidableEq

namespace ReclaimQueue

variable {α : Type}

/-- Nothing waits. -/
def empty : ReclaimQueue α := ⟨[], []⟩

instance : Inhabited (ReclaimQueue α) := ⟨empty⟩

/-- The number of handles that wait for the next drain. -/
def len (q : ReclaimQueue α) : Nat := q.pending.length

/-- Everything not yet deleted, in the order in which it will be. -/
def toList (q : ReclaimQueue α) : List α := q.batch ++ q.pending

/-- A handle joins the queue. One that already waits is refused, and the queue stays as it was. -/
def enqueue? [BEq α] (q : ReclaimQueue α) (handle : α) : Option (ReclaimQueue α) :=
  if q.pending.contains handle then none
  else some { q with pending := q.pending ++ [handle] }

/-- A drain begins: all that waits becomes its batch. -/
def beginDrain (q : ReclaimQueue α) : ReclaimQueue α := ⟨q.batch ++ q.pending, []⟩

/-- The next handle of the batch. -/
def next? (q : ReclaimQueue α) : Option (α × ReclaimQueue α) :=
  match q.batch with
  | [] => none
  | handle :: rest => some (handle, { q with batch := rest })

/-- The message for a handle that joins a queue in which it already waits. -/
def duplicateMessage : String := "native handle enqueued for reclamation twice"

theorem toList_beginDrain (q : ReclaimQueue α) : q.beginDrain.toList = q.toList := by
  simp [beginDrain, toList]

theorem toList_of_next? {q q' : ReclaimQueue α} {handle : α} (h : q.next? = some (handle, q')) :
    q.toList = handle :: q'.toList := by
  unfold next? at h
  split at h
  · simp at h
  · rename_i head rest hb
    obtain ⟨rfl, rfl⟩ := by simpa using h
    simp [toList, hb]

theorem toList_of_enqueue? [BEq α] {q q' : ReclaimQueue α} {handle : α}
    (h : q.enqueue? handle = some q') : q'.toList = q.toList ++ [handle] := by
  unfold enqueue? at h
  split at h
  · simp at h
  · obtain rfl := by simpa using h
    simp [toList]

end ReclaimQueue

/-- A handle that, when it is deleted, hands the next handle of its chain to the queue. -/
structure ChainedHandle where
  id : Nat
  chain : List Nat
  deriving Repr

/-- Chained handles are told apart by their first number. -/
instance : BEq ChainedHandle := ⟨fun a b => a.id == b.id⟩

/-- A queue of chained handles together with the numbers it has deleted, first to last. -/
structure ChainQueue where
  queue : ReclaimQueue ChainedHandle
  reclaimed : List Nat
  deriving Repr

namespace ChainQueue

/-- A queue that has deleted nothing. -/
def empty : ChainQueue := ⟨.empty, []⟩

/-- Adds a handle; refused if one with the same number waits. -/
def enqueue? (q : ChainQueue) (id : Nat) (chain : List Nat) : Option ChainQueue :=
  (q.queue.enqueue? ⟨id, chain⟩).map fun queue => { q with queue }

/-- Deletes one handle of the batch. While `open` holds, the next of its chain joins the queue. -/
def reclaimNext (isOpen : Bool) (q : ChainQueue) : Option (Option ChainQueue) :=
  q.queue.next?.map fun (handle, queue) =>
    let q' : ChainQueue := ⟨queue, q.reclaimed ++ [handle.id]⟩
    match isOpen, handle.chain with
    | true, id :: rest => q'.enqueue? id rest
    | _, _ => some q'

/-- Deletes up to `steps` handles of the batch; `none` if a chained handle was refused. -/
def reclaimBatch (isOpen : Bool) : Nat → ChainQueue → Option ChainQueue
  | 0, q => some q
  | steps + 1, q =>
    match q.reclaimNext isOpen with
    | none => some q
    | some none => none
    | some (some q') => reclaimBatch isOpen steps q'

/-- Deletes everything that waits now, and says how many handles that were. -/
def drain? (q : ChainQueue) (isOpen : Bool) : Option (Nat × ChainQueue) :=
  let begun := { q with queue := q.queue.beginDrain }
  let count := begun.queue.batch.length
  (begun.reclaimBatch isOpen count).map fun q' => (count, q')

end ChainQueue

end WasmHost
