import SimpleOlap.Lib.Transition
import SimpleOlap.Memory.BufferPool

/-!
# Each buffer has one owner

The users of the two pools, and what holds of them after any calls.

* `BlockUsers`, `BlockCall`: the variables that hold blocks, and what is done to them; `BufferUsers`,
  `BufferCall`: the same of handles, with their moves, resets and ends.
* `OwnedOnce`: the live allocations are the outstanding ones and the cached ones, none of them twice, and the
  counters differ by their number.
* `pools_own_once`: of every run of either pool, which is always defined.
-/

namespace SimpleOlap

open Lib

/-! ## What is to be shown -/

/-- The live allocations are outstanding or cached, no address is so twice, and the counters differ by their
number. -/
structure OwnedOnce (live : Finset Allocation) (allocs frees : UInt64) (outstanding cached : Multiset Allocation) :
    Prop where
  live : live.val = outstanding + cached
  once : (outstanding.map Allocation.addr + cached.map Allocation.addr).Nodup
  balance : (allocs - frees).toNat = outstanding.card + cached.card

theorem Lib.Ledger.ownedOnce {h : SystemHeap} {allocs frees : UInt64} {outstanding cached : Multiset Allocation}
    (hl : Ledger h allocs frees (outstanding + cached)) : OwnedOnce h.live allocs frees outstanding cached where
  live := hl.live
  once := by
    rw [← Multiset.map_add]
    exact hl.nodup_addr
  balance := by
    rw [← Multiset.card_add]
    exact hl.count (by decide) le_rfl

/-- The largest request that a caller makes: a slot of 64 bytes for each of 2 ^ 32 rows. -/
def maxRequest : ℕ := 64 * 2 ^ 32

/-- To round up such a request does not wrap. -/
theorem add_alignment_le_of_maxRequest {n : UInt64} (hn : n.toNat ≤ maxRequest) :
    n.toNat + defaultAlignment.toNat ≤ 2 ^ 64 := by
  have halign : defaultAlignment.toNat = 64 := rfl
  have hmax : maxRequest = 64 * 2 ^ 32 := rfl
  omega

/-! ## Users of the block pool -/

/-- A block pool, and the variables that its users have. -/
structure BlockUsers where
  memory : BlockMemory
  blocks : List MemoryBlock

/-- What the users do. A variable is named by its place. -/
inductive BlockCall
  | acquire (minCapacity : UInt64)
  | moveConstruct (i : ℕ)
  | release (i : ℕ)

namespace BlockUsers

/-- A new pool, without users. -/
def start (blockSize maxCachedBlocks : UInt64) : BlockUsers := ⟨.new blockSize maxCachedBlocks, []⟩

/-- A call. An `Acquire` that throws changes nothing, and there is no call on a variable that there is none of. -/
def apply (w : BlockUsers) (call : SystemAllocator × BlockCall) : Option BlockUsers :=
  match call.2 with
  | .acquire n =>
    match w.memory.acquire call.1 n with
    | some (b, m) => some ⟨m, w.blocks ++ [b]⟩
    | none => some w
  | .moveConstruct i =>
    match w.blocks[i]? with
    | some b => some { w with blocks := w.blocks.set i .null ++ [b] }
    | none => some w
  | .release i =>
    match w.blocks[i]? with
    | some b => (w.memory.release b).map fun r => ⟨r.2, w.blocks.set i r.1⟩
    | none => some w

/-- A sequence of calls. -/
def run (w : BlockUsers) (calls : List (SystemAllocator × BlockCall)) : Option BlockUsers := calls.foldlM apply w

/-- The blocks that are outstanding. -/
def outstanding (w : BlockUsers) : Multiset MemoryBlock := held MemoryBlock.Holds w.blocks

/-- What holds of the users, the free list and the system. -/
structure Sound (w : BlockUsers) : Prop where
  ownedOnce : OwnedOnce w.memory.heap.live w.memory.pool.systemAllocations w.memory.pool.systemDeallocations
    (w.outstanding.map MemoryBlock.allocation)
    ((w.memory.pool.freeBlocks : Multiset MemoryBlock).map MemoryBlock.allocation)
  cached : ∀ b ∈ w.memory.pool.freeBlocks, b.pooled = true ∧ b.capacity = w.memory.pool.blockSize
  serves : ∀ sys n b m, n.toNat ≤ maxRequest → w.memory.acquire sys n = some (b, m) → n ≤ b.capacity

theorem sound_of_owns {w : BlockUsers} (h : w.memory.Owns w.outstanding) : w.Sound where
  ownedOnce := by
    have hledger := h.ledger
    rw [BlockMemory.blocks, Multiset.map_add] at hledger
    exact hledger.ownedOnce
  cached := fun b hb => ⟨h.cached b hb, h.capacity b (by simp [BlockMemory.blocks, hb]) (h.cached b hb)⟩
  serves := fun _ _ _ _ hn hres =>
    BlockMemory.le_capacity_of_acquire h hres (add_alignment_le_of_maxRequest hn)

/-- **A call keeps each block with one owner**, and is defined. -/
theorem apply_owns {w : BlockUsers} (call : SystemAllocator × BlockCall) (h : w.memory.Owns (0 + w.outstanding)) :
    ∃ w', w.apply call = some w' ∧ w'.memory.Owns (0 + w'.outstanding) := by
  obtain ⟨sys, call⟩ := call
  cases call with
  | acquire n =>
    simp only [apply]
    split
    · rename_i hres
      exact ⟨_, rfl, BlockMemory.acquire_held h hres⟩
    · exact ⟨w, rfl, h⟩
  | moveConstruct i =>
    simp only [apply]
    split
    · rename_i b hb
      have hlt := (List.getElem?_eq_some_iff.mp hb).1
      refine ⟨_, rfl, ?_⟩
      rw [outstanding, held_append, held_set _ hlt, if_neg MemoryBlock.not_holds_null, ← held_of_getElem? _ hb]
      exact h
    · exact ⟨w, rfl, h⟩
  | release i =>
    simp only [apply]
    split
    · rename_i b hb
      obtain ⟨b', m', hres, howns⟩ := BlockMemory.release_held h hb
      exact ⟨_, by rw [hres]; rfl, howns⟩
    · exact ⟨w, rfl, h⟩

/-- After any calls. -/
theorem run_sound (blockSize maxCachedBlocks : UInt64) (calls : List (SystemAllocator × BlockCall)) :
    ∃ w, (start blockSize maxCachedBlocks).run calls = some w ∧ w.Sound := by
  have hstart : (start blockSize maxCachedBlocks).memory.Owns
      (0 + (start blockSize maxCachedBlocks).outstanding) :=
    BlockMemory.owns_new blockSize maxCachedBlocks
  obtain ⟨w, hrun, howns⟩ := exists_foldlM (fun w call hw => apply_owns (w := w) call hw) calls _ hstart
  rw [zero_add] at howns
  exact ⟨w, hrun, sound_of_owns howns⟩

end BlockUsers

/-! ## Users of the buffer pool -/

/-- A buffer pool, and the handles that its users have. -/
structure BufferUsers where
  memory : BufferMemory
  handles : List BufferHandle

/-- What the users do. A handle is named by its place. -/
inductive BufferCall
  | acquire (minCapacity : UInt64)
  | construct
  | moveConstruct (other : ℕ)
  | moveAssign (this other : ℕ)
  | reset (i : ℕ)
  | destroy (i : ℕ)

namespace BufferUsers

/-- A new pool, without users. -/
def start (maxCachedPerClass : UInt64) (mode : BufferPoolMode) : BufferUsers :=
  ⟨.new maxCachedPerClass mode, []⟩

/-- A call. An `Acquire` that throws changes nothing, and there is no call on a handle that there is none of. -/
def apply (w : BufferUsers) (call : SystemAllocator × BufferCall) : Option BufferUsers :=
  match call.2 with
  | .acquire n =>
    match w.memory.acquire call.1 n with
    | some (h, m) => some ⟨m, w.handles ++ [h]⟩
    | none => some w
  | .construct => some { w with handles := w.handles ++ [.empty] }
  | .moveConstruct j =>
    match w.handles[j]? with
    | some other =>
      let r := BufferHandle.moveConstruct other
      some { w with handles := w.handles.set j r.2 ++ [r.1] }
    | none => some w
  | .moveAssign i j =>
    -- `this != &other`
    if i = j then some w
    else
      match w.handles[i]?, w.handles[j]? with
      | some h, some other =>
        (h.moveAssign other w.memory).map fun r => ⟨r.2.2, (w.handles.set i r.1).set j r.2.1⟩
      | _, _ => some w
  | .reset i =>
    match w.handles[i]? with
    | some h => (h.reset w.memory).map fun r => ⟨r.2, w.handles.set i r.1⟩
    | none => some w
  | .destroy i =>
    match w.handles[i]? with
    | some h => (h.reset w.memory).map fun r => ⟨r.2, w.handles.eraseIdx i⟩
    | none => some w

/-- A sequence of calls. -/
def run (w : BufferUsers) (calls : List (SystemAllocator × BufferCall)) : Option BufferUsers :=
  calls.foldlM apply w

/-- The handles that have a buffer. -/
def outstanding (w : BufferUsers) : Multiset BufferHandle := held BufferHandle.Holds w.handles

/-- What holds of the handles, the free lists and the system. -/
structure Sound (w : BufferUsers) : Prop where
  ownedOnce : OwnedOnce w.memory.heap.live w.memory.pool.systemAllocations w.memory.pool.systemDeallocations
    (w.outstanding.map BufferHandle.allocation) (BufferMemory.cachedIn w.memory.pool.freeLists)
  cached : ∀ i, ∀ addr ∈ w.memory.pool.freeLists i, ⟨addr, (sizeClasses i).toNat⟩ ∈ w.memory.heap.live
  serves : ∀ sys n h m, n.toNat ≤ maxRequest → w.memory.acquire sys n = some (h, m) → n ≤ h.capacity

theorem sound_of_owns {w : BufferUsers} (h : w.memory.Owns w.outstanding) : w.Sound where
  ownedOnce := h.ledger.ownedOnce
  cached := by
    intro i addr haddr
    have hmem := BufferMemory.mem_cachedIn.mpr ⟨i, addr, haddr, rfl⟩
    exact h.ledger.mem_live.mp (Multiset.mem_add.mpr (Or.inr hmem))
  serves := fun _ _ _ _ hn hres =>
    BufferMemory.le_capacity_of_acquire h hres (add_alignment_le_of_maxRequest hn)

/-- **A call keeps each buffer with one owner**, and is defined. -/
theorem apply_owns {w : BufferUsers} (call : SystemAllocator × BufferCall) (hw : w.memory.Owns w.outstanding) :
    ∃ w', w.apply call = some w' ∧ w'.memory.Owns w'.outstanding := by
  obtain ⟨sys, call⟩ := call
  cases call with
  | acquire n =>
    simp only [apply]
    split
    · rename_i h m hres
      have howns := BufferMemory.acquire_owns hw hres
      have hholds : h.Holds := howns.ledger.addr_ne_zero (b := h.allocation) (by simp [BufferMemory.buffers])
      refine ⟨_, rfl, ?_⟩
      rw [outstanding, held_append, if_pos hholds]
      exact howns
    · exact ⟨w, rfl, hw⟩
  | construct =>
    refine ⟨_, rfl, ?_⟩
    rw [outstanding, held_append, if_neg BufferHandle.not_holds_empty]
    exact hw
  | moveConstruct j =>
    simp only [apply]
    split
    · rename_i other hother
      have hlt := (List.getElem?_eq_some_iff.mp hother).1
      refine ⟨_, rfl, ?_⟩
      rw [outstanding, BufferHandle.moveConstruct, held_append, held_set _ hlt,
        if_neg BufferHandle.not_holds_empty, ← held_of_getElem? _ hother]
      exact hw
    · exact ⟨w, rfl, hw⟩
  | moveAssign i j =>
    simp only [apply]
    split
    · exact ⟨w, rfl, hw⟩
    · rename_i hne
      split
      · rename_i h other hh hother
        have hlt := (List.getElem?_eq_some_iff.mp hh).1
        rw [outstanding, held_of_getElem? _ hh] at hw
        obtain ⟨m', hres, howns⟩ := BufferMemory.reset_owns hw
        refine ⟨_, by rw [BufferHandle.moveAssign, hres]; rfl, ?_⟩
        rw [outstanding, held_move _ hlt hother hne BufferHandle.not_holds_empty]
        exact howns
      · exact ⟨w, rfl, hw⟩
  | reset i =>
    simp only [apply]
    split
    · rename_i h hh
      have hlt := (List.getElem?_eq_some_iff.mp hh).1
      rw [outstanding, held_of_getElem? _ hh] at hw
      obtain ⟨m', hres, howns⟩ := BufferMemory.reset_owns hw
      refine ⟨_, by rw [hres]; rfl, ?_⟩
      rw [outstanding, held_set _ hlt, if_neg BufferHandle.not_holds_empty]
      exact howns
    · exact ⟨w, rfl, hw⟩
  | destroy i =>
    simp only [apply]
    split
    · rename_i h hh
      rw [outstanding, held_of_getElem? _ hh] at hw
      obtain ⟨m', hres, howns⟩ := BufferMemory.reset_owns hw
      exact ⟨_, by rw [hres]; rfl, howns⟩
    · exact ⟨w, rfl, hw⟩

/-- After any calls. -/
theorem run_sound (maxCachedPerClass : UInt64) (mode : BufferPoolMode)
    (calls : List (SystemAllocator × BufferCall)) :
    ∃ w, (start maxCachedPerClass mode).run calls = some w ∧ w.Sound := by
  have hstart : (start maxCachedPerClass mode).memory.Owns (start maxCachedPerClass mode).outstanding :=
    BufferMemory.owns_new maxCachedPerClass mode
  obtain ⟨w, hrun, howns⟩ := exists_foldlM (fun w call hw => apply_owns (w := w) call hw) calls _ hstart
  exact ⟨w, hrun, sound_of_owns howns⟩

end BufferUsers

/-! ## Both pools -/

/-- **Both pools own each buffer exactly once.** Every sequence of calls, with any sizes, limits and modes and any
answers of the system, is defined: nothing is freed that is not live. After it no buffer is outstanding and
cached, or so twice; a cached buffer has the size of its free list; the counters differ by the buffers that there
are; and the next buffer has the capacity that is asked for. -/
theorem pools_own_once (blockSize maxCachedBlocks : UInt64) (blockCalls : List (SystemAllocator × BlockCall))
    (maxCachedPerClass : UInt64) (mode : BufferPoolMode) (bufferCalls : List (SystemAllocator × BufferCall)) :
    (∃ w, (BlockUsers.start blockSize maxCachedBlocks).run blockCalls = some w ∧ w.Sound) ∧
      ∃ w, (BufferUsers.start maxCachedPerClass mode).run bufferCalls = some w ∧ w.Sound :=
  ⟨BlockUsers.run_sound blockSize maxCachedBlocks blockCalls,
    BufferUsers.run_sound maxCachedPerClass mode bufferCalls⟩

end SimpleOlap
