import WasmHost.Proofs.Carriage

/-!
# Reading and writing linear memory

A range of bytes can be read, and can be written, if it ends no later than the memory: however long it
is, and wherever it begins. Reading and writing check this separately, each with a sum that must be a
word, and accept the same ranges. What is written is read again, and nothing else is changed.

The two checks are written differently in the code. Reading computes the end of the range first and
refuses it if the sum is no word; writing finds the slice. Both were written with overflow in mind,
and the question is whether they agree at the edges: at the end of the memory, with no bytes, with
an offset near the greatest word. In `checkedRange_eq` and `overwrite?_eq_some` each is brought to
the same condition on natural numbers.

The contents of a memory are kept as pages of zeros with what was written on top of it. So two
memories with the same bytes need not be equal, and `Alike` is the equality that a program could
notice.
-/

namespace WasmHost.Guest.Memory

variable {m m' : Memory} {offset : Nat} {bytes : List UInt8}

/-! ## Bytes of a memory

What writing does is described by `Overwritten`, for every address. The other statements are
consequences of it and do not look into how bytes are stored. -/

/-- A memory differs from another one in a range of bytes, and in nothing else. -/
structure Overwritten (m : Memory) (offset : Nat) (bytes : List UInt8) (m' : Memory) : Prop where
  type : m'.type = m.type
  pages : m'.pages = m.pages
  inside : ∀ (k : Nat) (h : k < bytes.length), m'.byte (offset + k) = bytes[k]
  outside : ∀ a, a < offset ∨ offset + bytes.length ≤ a → m'.byte a = m.byte a

/-- Two memories cannot be told apart. -/
structure Alike (m m' : Memory) : Prop where
  type : m.type = m'.type
  pages : m.pages = m'.pages
  byte : ∀ a, m.byte a = m'.byte a

theorem byte_insert (m : Memory) (address a : Nat) (b : UInt8) :
    byte { m with written := m.written.insert address b } a =
      if address = a then b else m.byte a := by
  simp only [byte, Std.HashMap.getD_insert, beq_iff_eq]

/-- To put bytes into a memory changes those bytes. The induction is on the bytes, and a byte that
was put is not overwritten by those after it, which go to greater addresses. -/
theorem overwritten_put (m : Memory) (offset : Nat) (bytes : List UInt8) :
    m.Overwritten offset bytes (m.put offset bytes) := by
  induction bytes generalizing m offset with
  | nil => exact ⟨rfl, rfl, fun k h => absurd h (Nat.not_lt_zero k), fun _ _ => rfl⟩
  | cons b bytes ih =>
    have hrest := ih { m with written := m.written.insert offset b } (offset + 1)
    refine ⟨hrest.type, hrest.pages, fun k h => ?_, fun a ha => ?_⟩
    · cases k with
      | zero =>
        refine (hrest.outside offset (.inl (Nat.lt_succ_self _))).trans ?_
        rw [byte_insert, if_pos rfl]
        rfl
      | succ k =>
        rw [show offset + (k + 1) = offset + 1 + k by omega]
        exact hrest.inside k (Nat.lt_of_succ_lt_succ h)
    · rw [List.length_cons] at ha
      refine (hrest.outside a (by omega)).trans ?_
      rw [byte_insert, if_neg (by omega)]

namespace Overwritten

theorem size (h : m.Overwritten offset bytes m') : m'.size = m.size :=
  congrArg (· * pageSize) h.pages

/-- What has been put into a memory is found there. -/
theorem slice (h : m.Overwritten offset bytes m') : m'.slice offset bytes.length = bytes := by
  refine List.ext_getElem (by simp [Memory.slice]) fun k hk hk' => ?_
  simpa [Memory.slice] using h.inside k hk'

/-- It does not matter which of two disjoint ranges is written first. -/
theorem comm {offset' : Nat} {bytes' : List UInt8} {m₁ m₂ m₁' m₂' : Memory}
    (hdisjoint : offset + bytes.length ≤ offset' ∨ offset' + bytes'.length ≤ offset)
    (h₁ : m.Overwritten offset bytes m₁) (h₁' : m₁.Overwritten offset' bytes' m₁')
    (h₂ : m.Overwritten offset' bytes' m₂) (h₂' : m₂.Overwritten offset bytes m₂') :
    m₁'.Alike m₂' where
  type := (h₁'.type.trans h₁.type).trans (h₂'.type.trans h₂.type).symm
  pages := (h₁'.pages.trans h₁.pages).trans (h₂'.pages.trans h₂.pages).symm
  byte a := by
    -- An address lies in one of the ranges, or in neither.
    by_cases ha : offset ≤ a ∧ a < offset + bytes.length
    · obtain ⟨k, rfl⟩ := Nat.exists_eq_add_of_le ha.1
      have hk : k < bytes.length := by omega
      rw [h₁'.outside _ (by omega), h₁.inside k hk, h₂'.inside k hk]
    · by_cases ha' : offset' ≤ a ∧ a < offset' + bytes'.length
      · obtain ⟨k, rfl⟩ := Nat.exists_eq_add_of_le ha'.1
        have hk : k < bytes'.length := by omega
        rw [h₁'.inside k hk, h₂'.outside _ (by omega), h₂.inside k hk]
      · rw [h₁'.outside a (by omega), h₁.outside a (by omega), h₂'.outside a (by omega),
          h₂.outside a (by omega)]

end Overwritten

end WasmHost.Guest.Memory

namespace WasmHost.Host

open Act

/-! ## The two checks

As functions of the memory and the numbers, without any world. -/

namespace Memory

variable {m : Guest.Memory} {offset len : Nat} {bytes : List UInt8}

/-- A range that is read is in order, as its end is a sum. -/
theorem checkedRange_eq (m : Guest.Memory) (offset len : Nat) : checkedRange m offset len =
    if offset + len < Nat.pow 2 64 ∧ offset + len ≤ m.size then .ok (m.slice offset len)
    else .error (.memoryAccess offset len m.size) := by
  unfold checkedRange checkedSum
  by_cases hsum : offset + len < Nat.pow 2 64
  · by_cases hend : offset + len ≤ m.size
    · simp [range?, hsum, hend]
    · simp [range?, hsum, hend]
  · simp only [hsum, false_and, if_false, Option.bind_none]

theorem checkedRange_of_le (hsize : m.size < Nat.pow 2 64) (h : offset + len ≤ m.size) :
    checkedRange m offset len = .ok (m.slice offset len) := by
  rw [checkedRange_eq, if_pos ⟨Nat.lt_of_le_of_lt h hsize, h⟩]

theorem checkedRange_of_lt (h : m.size < offset + len) :
    checkedRange m offset len = .error (.memoryAccess offset len m.size) := by
  rw [checkedRange_eq, if_neg fun hle => absurd hle.2 (Nat.not_le_of_lt h)]

theorem overwrite?_of_le (hsize : m.size < Nat.pow 2 64) (h : offset + bytes.length ≤ m.size) :
    overwrite? m offset bytes = some (m.put offset bytes) :=
  overwrite?_eq_some.mpr ⟨Nat.lt_of_le_of_lt h hsize, h, rfl⟩

theorem overwrite?_of_lt (h : m.size < offset + bytes.length) : overwrite? m offset bytes = none := by
  cases hover : overwrite? m offset bytes with
  | none => rfl
  | some m' => exact absurd (overwrite?_eq_some.mp hover).2.1 (Nat.not_le_of_lt h)

/-- The two checks accept the same ranges. -/
theorem isSome_overwrite? (m : Guest.Memory) (offset : Nat) (bytes : List UInt8) :
    (overwrite? m offset bytes).isSome = (checkedRange m offset bytes.length).isOk := by
  rw [checkedRange_eq, Bool.eq_iff_iff, Option.isSome_iff_exists]
  simp only [overwrite?_eq_some]
  split
  · rename_i h
    exact ⟨fun _ => rfl, fun _ => ⟨_, h.1, h.2, rfl⟩⟩
  · rename_i h
    exact ⟨fun ⟨_, hlt, hle, _⟩ => absurd ⟨hlt, hle⟩ h, fun hok => by cases hok⟩

end Memory

/-! ## Reading and writing

The context of the store is obtained each time. After the first time there is nothing in the queue,
and obtaining it changes nothing any more; that is what makes it possible to put two operations
together (`Idle`). -/

variable {κ σ : Type}

namespace World

variable {w : World κ σ} {s i : Nat} {g : Guest.Store} {a : Handle} {memory : Guest.Memory}

theorem setGuest_setGuest (w : World κ σ) (s : Nat) (g g' : Guest.Store) :
    (w.setGuest s g).setGuest s g' = w.setGuest s g' := by
  have hstores : (w.stores.modify s fun c => { c with guest := some g }).modify s
      (fun c => { c with guest := some g' }) = w.stores.modify s fun c => { c with guest := some g' } := by
    refine Array.ext_getElem? fun t => ?_
    simp only [Array.getElem?_modify]
    split
    · rw [Option.map_map]
      rfl
    · rfl
  unfold setGuest modifyStore
  rw [hstores]

/-- A handle of a store stands for a memory. -/
structure HasMemory (w : World κ σ) (s : Nat) (g : Guest.Store) (a : Handle) (i : Nat)
    (memory : Guest.Memory) : Prop where
  guest : w.guest? s = some g
  item : w.ItemHandle s a (.memory i)
  found : g.memories[i]? = some memory

/-- The memory after another one has been put in its place, with nothing waiting in its store. -/
theorem HasMemory.put (h : w.HasMemory s g a i memory) (hidle : w.Idle s) (memory' : Guest.Memory) :
    (w.setGuest s (g.putMemory i memory')).HasMemory s (g.putMemory i memory') a i memory' ∧
      (w.setGuest s (g.putMemory i memory')).Idle s := by
  refine ⟨⟨World.guest?_setGuest h.guest _, h.item, ?_⟩, hidle.modifyStore s fun _ => rfl⟩
  have hlt := (Array.getElem?_eq_some_iff.mp h.found).1
  simp [Guest.Store.putMemory, hlt]

end World

namespace Memory

variable {w : World κ σ} {s i offset : Nat} {g : Guest.Store} {a : Handle}
  {memory memory' : Guest.Memory} {bytes : List UInt8} (h : (w.drain s).HasMemory s g a i memory)

include h

theorem run_write (hover : overwrite? memory offset bytes = some memory') :
    (write s a offset bytes : Act κ σ Unit).run w =
      (.value (), (w.drain s).setGuest s (g.putMemory i memory')) := by
  have hat := run_at h.item h.guest h.found
  refine (run_bind_value (run_context s w)).trans ((run_bind_value hat).trans ?_)
  simp only [hover]
  exact run_onGuest h.guest _

theorem run_write_refused (hover : overwrite? memory offset bytes = none) :
    (write s a offset bytes : Act κ σ Unit).run w =
      (.failure (.memoryAccess offset bytes.length memory.size), w.drain s) := by
  have hat := run_at h.item h.guest h.found
  refine (run_bind_value (run_context s w)).trans ((run_bind_value hat).trans ?_)
  simp only [hover]
  rfl

theorem run_readInto {buffer : List UInt8} (hrange : checkedRange memory offset buffer.length = .ok bytes) :
    (readInto s a offset buffer : Act κ σ _).run w = (.value (.ok (), bytes), w.drain s) := by
  have hat := run_at h.item h.guest h.found
  refine (run_bind_value (run_context s w)).trans ((run_bind_value hat).trans ?_)
  simp only [hrange]
  rfl

theorem run_readInto_refused {buffer : List UInt8} {e : Error}
    (hrange : checkedRange memory offset buffer.length = .error e) :
    (readInto s a offset buffer : Act κ σ _).run w = (.value (.error e, buffer), w.drain s) := by
  have hat := run_at h.item h.guest h.found
  refine (run_bind_value (run_context s w)).trans ((run_bind_value hat).trans ?_)
  simp only [hrange]
  rfl

/-- Two ranges are written, one after the other. -/
theorem run_write_write {offset' : Nat} {bytes' : List UInt8} (hsize : memory.size < Nat.pow 2 64)
    (hle : offset + bytes.length ≤ memory.size) (hle' : offset' + bytes'.length ≤ memory.size) :
    ∃ memory₁ memory₂, memory.Overwritten offset bytes memory₁ ∧
      memory₁.Overwritten offset' bytes' memory₂ ∧
      (do
        write s a offset bytes
        write s a offset' bytes' : Act κ σ Unit).run w =
          (.value (), (w.drain s).setGuest s (g.putMemory i memory₂)) := by
  obtain ⟨c, hc, -⟩ := Option.bind_eq_some_iff.mp (((w.drain_settles s).guests s).symm.trans h.guest)
  have h₁ := memory.overwritten_put offset bytes
  obtain ⟨hhas, hidle⟩ := h.put (World.idle_drain hc) (memory.put offset bytes)
  have hover₂ : overwrite? (memory.put offset bytes) offset' bytes' =
      some ((memory.put offset bytes).put offset' bytes') :=
    overwrite?_of_le (by rwa [h₁.size]) (by rwa [h₁.size])
  rw [← hidle.drain_eq] at hhas
  refine ⟨_, _, h₁, (memory.put offset bytes).overwritten_put offset' bytes', ?_⟩
  refine (run_bind_value (run_write h (overwrite?_of_le hsize hle))).trans ?_
  refine (run_write hhas hover₂).trans ?_
  rw [hidle.drain_eq, World.setGuest_setGuest]
  simp [Guest.Store.putMemory]

/-- A range is written if, and only if, it would be read. -/
theorem run_write_iff_run_readInto {buffer : List UInt8} (hlen : bytes.length = buffer.length) :
    (∃ w', (write s a offset bytes : Act κ σ Unit).run w = (.value (), w')) ↔
      ∃ read w', (readInto s a offset buffer : Act κ σ _).run w = (.value (.ok (), read), w') := by
  have hsame := isSome_overwrite? memory offset bytes
  rw [hlen] at hsame
  cases hover : overwrite? memory offset bytes with
  | none =>
    cases hrange : checkedRange memory offset buffer.length with
    | ok read => simp [hover, hrange, Except.isOk, Except.toBool] at hsame
    | error e => simp [run_write_refused h hover, run_readInto_refused h hrange]
  | some memory' =>
    cases hrange : checkedRange memory offset buffer.length with
    | ok read => simp [run_write h hover, run_readInto h hrange]
    | error e => simp [hover, hrange, Except.isOk, Except.toBool] at hsame

/-- What has been written is read. -/
theorem run_readInto_of_run_write {buffer : List UInt8} {w' : World κ σ}
    (hlen : bytes.length = buffer.length)
    (hrun : (write s a offset bytes : Act κ σ Unit).run w = (.value (), w')) :
    (readInto s a offset buffer : Act κ σ _).run w' = (.value (.ok (), bytes), w') := by
  obtain ⟨c, hc, -⟩ := Option.bind_eq_some_iff.mp (((w.drain_settles s).guests s).symm.trans h.guest)
  cases hover : overwrite? memory offset bytes with
  | none => cases hrun.symm.trans (run_write_refused h hover)
  | some memory' =>
    obtain ⟨-, rfl⟩ := Prod.mk.inj (hrun.symm.trans (run_write h hover))
    obtain ⟨hsum, hle, rfl⟩ := overwrite?_eq_some.mp hover
    have hput := memory.overwritten_put offset bytes
    obtain ⟨hhas, hidle⟩ := h.put (World.idle_drain hc) (memory.put offset bytes)
    have hrange : checkedRange (memory.put offset bytes) offset buffer.length = .ok bytes := by
      rw [checkedRange_eq, ← hlen, hput.size, if_pos ⟨hsum, hle⟩, hput.slice]
    rw [← hidle.drain_eq] at hhas
    have hread := run_readInto hhas hrange
    rwa [hidle.drain_eq] at hread

omit h in
/-- A handle of a memory still stands for it once the context is obtained. -/
theorem hasMemory_drain [Keeper κ σ] {R L : Ledger κ} (hw : Invariant (R + L) w)
    (h : w.HasMemory s g a i memory) : (w.drain s).HasMemory s g a i memory where
  guest := ((w.drain_settles s).guests s).trans h.guest
  item := (hw.drain s).2 a _ h.item
  found := h.found

end Memory

/-! ## Embedders

Nothing is assumed of a memory but that a handle of its store stands for it. That its size is a word
holds of every memory that an engine can have. -/

/-- How the host reads and writes the memories of stores. The size of a memory is a word; an offset may
be any number, and no sum is cut off. Nothing but the one memory is ever changed, apart from handles that
waited and have been reclaimed. -/
structure World.AccessesMemory (w : World (Code κ) Pool) : Prop where
  /-- Bytes are written if they end no later than the memory, -/
  write : ∀ (s i offset : Nat) (g : Guest.Store) (a : Handle) (memory : Guest.Memory)
    (bytes : List UInt8), w.HasMemory s g a i memory → memory.size < Nat.pow 2 64 →
    offset + bytes.length ≤ memory.size → ∃ memory', memory.Overwritten offset bytes memory' ∧
      (Memory.write s a offset bytes : Job κ Unit).run w =
        (.value (), (w.drain s).setGuest s (g.putMemory i memory'))
  /-- and are refused otherwise. -/
  writeRefused : ∀ (s i offset : Nat) (g : Guest.Store) (a : Handle) (memory : Guest.Memory)
    (bytes : List UInt8), w.HasMemory s g a i memory → memory.size < offset + bytes.length →
    (Memory.write s a offset bytes : Job κ Unit).run w =
      (.failure (.memoryAccess offset bytes.length memory.size), w.drain s)
  /-- A buffer is filled if the range ends no later than the memory, -/
  read : ∀ (s i offset : Nat) (g : Guest.Store) (a : Handle) (memory : Guest.Memory)
    (buffer : List UInt8), w.HasMemory s g a i memory → memory.size < Nat.pow 2 64 →
    offset + buffer.length ≤ memory.size → ∃ bytes, bytes.length = buffer.length ∧
      (∀ (k : Nat) (h : k < bytes.length), bytes[k] = memory.byte (offset + k)) ∧
      (Memory.readInto s a offset buffer : Job κ _).run w = (.value (.ok (), bytes), w.drain s)
  /-- and stays as it is otherwise. -/
  readRefused : ∀ (s i offset : Nat) (g : Guest.Store) (a : Handle) (memory : Guest.Memory)
    (buffer : List UInt8), w.HasMemory s g a i memory → memory.size < offset + buffer.length →
    (Memory.readInto s a offset buffer : Job κ _).run w =
      (.value (.error (.memoryAccess offset buffer.length memory.size), buffer), w.drain s)
  /-- Reading and writing accept the same ranges. -/
  sameRanges : ∀ (s i offset : Nat) (g : Guest.Store) (a : Handle) (memory : Guest.Memory)
    (bytes buffer : List UInt8), w.HasMemory s g a i memory → bytes.length = buffer.length →
    ((∃ w', (Memory.write s a offset bytes : Job κ Unit).run w = (.value (), w')) ↔
      ∃ read w', (Memory.readInto s a offset buffer : Job κ _).run w = (.value (.ok (), read), w'))
  /-- What has been written is read. -/
  readBack : ∀ (s i offset : Nat) (g : Guest.Store) (a : Handle) (memory : Guest.Memory)
    (bytes buffer : List UInt8) (w' : World (Code κ) Pool), w.HasMemory s g a i memory →
    bytes.length = buffer.length →
    (Memory.write s a offset bytes : Job κ Unit).run w = (.value (), w') →
    (Memory.readInto s a offset buffer : Job κ _).run w' = (.value (.ok (), bytes), w')
  /-- It does not matter in which order bytes are written to disjoint ranges. -/
  disjoint : ∀ (s i offset offset' : Nat) (g : Guest.Store) (a : Handle) (memory : Guest.Memory)
    (bytes bytes' : List UInt8), w.HasMemory s g a i memory → memory.size < Nat.pow 2 64 →
    offset + bytes.length ≤ memory.size → offset' + bytes'.length ≤ memory.size →
    (offset + bytes.length ≤ offset' ∨ offset' + bytes'.length ≤ offset) →
    ∃ memory₁ memory₂, memory₁.Alike memory₂ ∧
      (do
        Memory.write s a offset bytes
        Memory.write s a offset' bytes' : Job κ Unit).run w =
          (.value (), (w.drain s).setGuest s (g.putMemory i memory₁)) ∧
      (do
        Memory.write s a offset' bytes'
        Memory.write s a offset bytes : Job κ Unit).run w =
          (.value (), (w.drain s).setGuest s (g.putMemory i memory₂))
  /-- To obtain the context of a store leaves all memories as they are. -/
  drain : ∀ s t, (w.drain s).guest? t = w.guest? t

theorem Invariant.accessesMemory {L : Ledger (Code κ)} {w : World (Code κ) Pool} (hw : Invariant L w) :
    w.AccessesMemory := by
  have hw₀ : Invariant (0 + L) w := by rwa [zero_add]
  exact {
    write := fun s i offset g a memory bytes h hsize hle =>
      ⟨_, memory.overwritten_put offset bytes,
        Memory.run_write (Memory.hasMemory_drain hw₀ h) (Memory.overwrite?_of_le hsize hle)⟩
    writeRefused := fun s i offset g a memory bytes h hlt =>
      Memory.run_write_refused (Memory.hasMemory_drain hw₀ h) (Memory.overwrite?_of_lt hlt)
    read := fun s i offset g a memory buffer h hsize hle => by
      refine ⟨memory.slice offset buffer.length, by simp [Guest.Memory.slice], fun k hk => ?_,
        Memory.run_readInto (Memory.hasMemory_drain hw₀ h) (Memory.checkedRange_of_le hsize hle)⟩
      simp [Guest.Memory.slice]
    readRefused := fun s i offset g a memory buffer h hlt =>
      Memory.run_readInto_refused (Memory.hasMemory_drain hw₀ h) (Memory.checkedRange_of_lt hlt)
    sameRanges := fun s i offset g a memory bytes buffer h hlen =>
      Memory.run_write_iff_run_readInto (Memory.hasMemory_drain hw₀ h) hlen
    readBack := fun s i offset g a memory bytes buffer w' h hlen hrun =>
      Memory.run_readInto_of_run_write (Memory.hasMemory_drain hw₀ h) hlen hrun
    disjoint := fun s i offset offset' g a memory bytes bytes' h hsize hle hle' hdisjoint => by
      have h := Memory.hasMemory_drain hw₀ h
      obtain ⟨m₁, m₁', h₁, h₁', hrun₁⟩ := Memory.run_write_write h hsize hle hle'
      obtain ⟨m₂, m₂', h₂, h₂', hrun₂⟩ := Memory.run_write_write h hsize hle' hle
      exact ⟨m₁', m₂', h₁.comm hdisjoint h₁' h₂ h₂', hrun₁, hrun₂⟩
    drain := fun s => (w.drain_settles s).guests }

/-- In every world that an embedder reaches, the host reads and writes linear memory within its bounds,
and accepts all that is within them. -/
theorem Embedder.memory_accessed (embedder : Embedder κ) (depth : Nat)
    (programs : List (Program κ Unit)) (order : List Nat) :
    ((embedder.start depth programs).run order).world.AccessesMemory := by
  obtain ⟨Ls, -, hw⟩ := (embedder.safe_start depth programs).run order
  exact hw.accessesMemory

/-- The last three bytes of a page are written; of a range that ends one byte later none is written or
read. -/
theorem Embedder.memory_accessed_lent :
    Specimen.world.HasMemory 0 Specimen.store 3 0 Specimen.memory ∧
      (∃ memory', Specimen.memory.Overwritten 65533 [1, 2, 3] memory' ∧
        (Memory.write 0 3 65533 [1, 2, 3] : Job Unit Unit).run Specimen.world =
          (.value (), (Specimen.world.drain 0).setGuest 0 (Specimen.store.putMemory 0 memory'))) ∧
      (Memory.write 0 3 65534 [1, 2, 3] : Job Unit Unit).run Specimen.world =
        (.failure (.memoryAccess 65534 3 65536), Specimen.world.drain 0) ∧
      (Memory.readInto 0 3 65534 [7, 7, 7] : Job Unit _).run Specimen.world =
        (.value (.error (.memoryAccess 65534 3 65536), [7, 7, 7]), Specimen.world.drain 0) := by
  have haccesses : Specimen.world.AccessesMemory :=
    Specimen.world_eq ▸ Specimen.embedder.memory_accessed 1 Specimen.programs Specimen.order
  have hmemory : Specimen.world.HasMemory 0 Specimen.store 3 0 Specimen.memory :=
    ⟨Specimen.inUse_store.guest, Specimen.memoryHandle, rfl⟩
  have hsize : Specimen.memory.size = 65536 := rfl
  refine ⟨hmemory, ?_, ?_, ?_⟩
  · exact haccesses.write 0 0 65533 _ 3 _ [1, 2, 3] hmemory (by rw [hsize]; decide)
      (by rw [hsize]; decide)
  · exact haccesses.writeRefused 0 0 65534 _ 3 _ [1, 2, 3] hmemory (by rw [hsize]; decide)
  · exact haccesses.readRefused 0 0 65534 _ 3 _ [7, 7, 7] hmemory (by rw [hsize]; decide)

end WasmHost.Host
