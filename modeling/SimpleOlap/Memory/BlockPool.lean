import Mathlib.Data.UInt
import SimpleOlap.Lib.Heap

/-!
# The block pool

`BlockPool` hands out blocks of one size and caches those that come back, up to a limit. A request above that
size gets an allocation of its own, which is not cached. Source: `memory_block.h`, `block_pool.cpp`.

* `alignUp`: a size rounded up in the arithmetic of `size_t`; `alignUp_bounds` where nothing wraps.
* `BlockPool.acquire`, `BlockPool.release`: with the heap of the system, where to free what is not live is
  undefined.
* `BlockMemory.Owns`: the live allocations are the outstanding blocks and the cached ones, each once.
  `acquire_owns` and `release_owns`: both calls keep it, and a release is never undefined.
-/

namespace SimpleOlap

open Lib

/-! ## Alignment -/

/-- Source: AlignUp, of `block_pool.cpp`, `arena.cpp` and `buffer_pool.cpp`. -/
def alignUp (value alignment : UInt64) : UInt64 := (value + alignment - 1) &&& ~~~(alignment - 1)

/-- The bits of a word under a mask, and the others. -/
theorem toNat_and_add_and_not (x m : UInt64) : (x &&& m).toNat + (x &&& ~~~m).toNat = x.toNat := by
  have hzero : (x.toBitVec &&& m.toBitVec) &&& (x.toBitVec &&& ~~~m.toBitVec) = 0#64 := by
    ext i
    simp only [BitVec.getElem_and, BitVec.getElem_not, BitVec.getElem_zero]
    cases x.toBitVec[i] <;> cases m.toBitVec[i] <;> rfl
  have hor : (x.toBitVec &&& m.toBitVec) ||| (x.toBitVec &&& ~~~m.toBitVec) = x.toBitVec := by
    ext i
    simp only [BitVec.getElem_or, BitVec.getElem_and, BitVec.getElem_not]
    cases x.toBitVec[i] <;> cases m.toBitVec[i] <;> rfl
  have hsum := BitVec.toNat_add_of_and_eq_zero hzero
  rw [BitVec.add_eq_or_of_and_eq_zero _ _ hzero, hor] at hsum
  exact hsum.symm

/-- One less does not wrap. -/
theorem toNat_sub_one {a : UInt64} (ha : a ≠ 0) : (a - 1).toNat = a.toNat - 1 := by
  have hpos : 1 ≤ a := by
    rw [UInt64.le_iff_toNat_le]
    exact Nat.one_le_iff_ne_zero.mpr fun h => ha (UInt64.toNat_inj.mp h)
  exact UInt64.toNat_sub_of_le _ _ hpos

/-- Not zero is positive. -/
theorem toNat_pos {a : UInt64} (ha : a ≠ 0) : 0 < a.toNat :=
  Nat.pos_of_ne_zero fun h => ha (UInt64.toNat_inj.mp h)

/-- **A size is rounded up, by less than the alignment**, where its sum does not wrap. -/
theorem alignUp_bounds {v a : UInt64} (ha : a ≠ 0) (hsum : v.toNat + a.toNat ≤ 2 ^ 64) :
    v.toNat ≤ (alignUp v a).toNat ∧ (alignUp v a).toNat < v.toNat + a.toNat := by
  have hpos := toNat_pos ha
  have hx : (v + a - 1).toNat = v.toNat + (a.toNat - 1) := by
    rw [add_sub_assoc, UInt64.toNat_add, toNat_sub_one ha]
    exact Nat.mod_eq_of_lt (by omega)
  have hsplit := toNat_and_add_and_not (v + a - 1) (a - 1)
  have hmask : ((v + a - 1) &&& (a - 1)).toNat ≤ (a - 1).toNat := by
    rw [UInt64.toNat_and]
    exact Nat.and_le_right
  rw [toNat_sub_one ha] at hmask
  unfold alignUp
  omega

/-- Zero is aligned. -/
@[simp] theorem alignUp_zero (a : UInt64) : alignUp 0 a = 0 := by
  rw [alignUp, zero_add, UInt64.and_not_self]

/-! ## Blocks -/

/-- Source: MemoryBlock. Address 0 is the null pointer. -/
structure MemoryBlock where
  data : ℕ := 0
  capacity : UInt64 := 0
  pooled : Bool := false
  deriving DecidableEq, Repr

namespace MemoryBlock

/-- What is left where a block was moved from. -/
def null : MemoryBlock := {}

/-- The allocation that a block stands for. -/
def allocation (b : MemoryBlock) : Allocation := ⟨b.data, b.capacity.toNat⟩

/-- Source: operator bool. -/
def Holds (b : MemoryBlock) : Prop := b.data ≠ 0

/-- Whether a handle holds a block can be decided. -/
instance : DecidablePred Holds := fun b => inferInstanceAs (Decidable (b.data ≠ 0))

/-- The null handle holds nothing. -/
theorem not_holds_null : ¬ null.Holds := not_not.mpr rfl

end MemoryBlock

/-! ## The pool -/

/-- The heap that `operator new` and `operator delete` work on. -/
abbrev SystemHeap := Heap (2 ^ 64)

/-- `operator new` with the alignment that the pools ask for. -/
abbrev SystemAllocator := Allocator (2 ^ 64) 64

/-- Source: BlockPool. The free list is a vector: what is released last is at its end. -/
structure BlockPool where
  blockSize : UInt64
  maxCachedBlocks : UInt64
  freeBlocks : List MemoryBlock := []
  systemAllocations : UInt64 := 0
  systemDeallocations : UInt64 := 0
  poolHits : UInt64 := 0
  poolReturns : UInt64 := 0
  deriving DecidableEq

/-- Source: DEFAULT_BLOCK_SIZE. -/
def defaultBlockSize : UInt64 := 1048576

/-- Source: DEFAULT_ALIGNMENT. -/
def defaultAlignment : UInt64 := 64

/-- A pool and the heap it allocates on. -/
structure BlockMemory where
  pool : BlockPool
  heap : SystemHeap

namespace BlockMemory

/-- Source: BlockPool::BlockPool. -/
def new (blockSize maxCachedBlocks : UInt64) : BlockMemory where
  pool :=
    { blockSize := alignUp (if blockSize = 0 then defaultBlockSize else blockSize) defaultAlignment
      maxCachedBlocks }
  heap := Heap.empty

/-- A block of a new allocation; the system can fail. -/
def allocateBlock (sys : SystemAllocator) (m : BlockMemory) (capacity : UInt64) (pooled : Bool) :
    Option (MemoryBlock × BlockMemory) :=
  (sys.allocate m.heap capacity.toNat).map fun new =>
    (⟨new.1, capacity, pooled⟩,
      ⟨{ m.pool with systemAllocations := m.pool.systemAllocations + 1 }, new.2⟩)

/-- Source: AllocateNormalBlock. -/
def allocateNormalBlock (sys : SystemAllocator) (m : BlockMemory) : Option (MemoryBlock × BlockMemory) :=
  m.allocateBlock sys m.pool.blockSize true

/-- Source: AllocateLargeBlock. -/
def allocateLargeBlock (sys : SystemAllocator) (m : BlockMemory) (capacity : UInt64) :
    Option (MemoryBlock × BlockMemory) :=
  m.allocateBlock sys (alignUp capacity defaultAlignment) false

/-- Source: Acquire. It throws where the system allocator fails. -/
def acquire (sys : SystemAllocator) (m : BlockMemory) (minCapacity : UInt64) :
    Option (MemoryBlock × BlockMemory) :=
  if minCapacity ≤ m.pool.blockSize then
    match m.pool.freeBlocks.getLast? with
    | some block =>
      some (block, { m with pool :=
        { m.pool with
          freeBlocks := m.pool.freeBlocks.dropLast
          poolHits := m.pool.poolHits + 1 } })
    | none => m.allocateNormalBlock sys
  else m.allocateLargeBlock sys minCapacity

/-- Source: FreeBlock. The result has what is left of the block; to free what is not live is undefined. -/
def freeBlock (m : BlockMemory) (block : MemoryBlock) : Option (MemoryBlock × BlockMemory) :=
  if block.data = 0 then some (block, m)
  else
    (m.heap.free block.data).map fun heap =>
      (.null, ⟨{ m.pool with systemDeallocations := m.pool.systemDeallocations + 1 }, heap⟩)

/-- Source: Release. -/
def release (m : BlockMemory) (block : MemoryBlock) : Option (MemoryBlock × BlockMemory) :=
  if block.data = 0 then some (block, m)
  else if block.pooled then
    if m.pool.freeBlocks.length < m.pool.maxCachedBlocks.toNat then
      some (.null, { m with pool :=
        { m.pool with
          freeBlocks := m.pool.freeBlocks ++ [block]
          poolReturns := m.pool.poolReturns + 1 } })
    else m.freeBlock block
  else m.freeBlock block

/-! ## Ownership -/

/-- The blocks that a pool has got from the system and not given back: `outstanding` ones, and cached ones. -/
def blocks (m : BlockMemory) (outstanding : Multiset MemoryBlock) : Multiset MemoryBlock :=
  outstanding + (m.pool.freeBlocks : Multiset MemoryBlock)

/-- The ledger of a pool has each of its blocks once. -/
structure Owns (m : BlockMemory) (outstanding : Multiset MemoryBlock) : Prop where
  ledger : Ledger m.heap m.pool.systemAllocations m.pool.systemDeallocations
    ((m.blocks outstanding).map MemoryBlock.allocation)
  aligned : ∀ b ∈ m.blocks outstanding, defaultAlignment.toNat ∣ b.data
  capacity : ∀ b ∈ m.blocks outstanding, b.pooled = true → b.capacity = m.pool.blockSize
  cached : ∀ b ∈ m.pool.freeBlocks, b.pooled = true

/-- A new pool owns nothing. -/
theorem owns_new (blockSize maxCachedBlocks : UInt64) : (new blockSize maxCachedBlocks).Owns 0 :=
  ⟨Ledger.empty, by simp [blocks, new], by simp [blocks, new], by simp [new]⟩

variable {sys : SystemAllocator} {m m' : BlockMemory} {outstanding outstanding' : Multiset MemoryBlock}
  {b : MemoryBlock} {n : UInt64}

/-- A block of the pool is allocated. -/
theorem Owns.mem_live (h : m.Owns outstanding) (hb : b ∈ m.blocks outstanding) :
    b.allocation ∈ m.heap.live :=
  h.ledger.mem_live.mp (Multiset.mem_map_of_mem _ hb)

/-- No block of the pool is null. -/
theorem Owns.holds (h : m.Owns outstanding) (hb : b ∈ m.blocks outstanding) : b.Holds :=
  h.ledger.addr_ne_zero (Multiset.mem_map_of_mem _ hb)

/-- **No two blocks of a pool have one address.** -/
theorem Owns.nodup_data (h : m.Owns outstanding) : ((m.blocks outstanding).map MemoryBlock.data).Nodup := by
  have hnodup := h.ledger.nodup_addr
  rw [Multiset.map_map] at hnodup
  exact hnodup

/-- Blocks of different addresses have no byte in common. -/
theorem Owns.clear {c : MemoryBlock} (h : m.Owns outstanding) (hb : b ∈ m.blocks outstanding)
    (hc : c ∈ m.blocks outstanding) (hne : b.data ≠ c.data) : b.allocation.Clear c.allocation :=
  (m.heap.apart _ (h.mem_live hb) _ (h.mem_live hc) fun heq => hne (congrArg Allocation.addr heq)).clear

/-- **The capacities of the blocks of a pool add up to less than `2 ^ 64`.** -/
theorem Owns.sum_capacity_lt (h : m.Owns outstanding) :
    ((m.blocks outstanding).map fun b => b.capacity.toNat).sum < 2 ^ 64 := by
  have hsum := m.heap.sum_size_lt (by decide)
  have hlive : ∑ b ∈ m.heap.live, b.size = (m.heap.live.val.map Allocation.size).sum := rfl
  rw [hlive, h.ledger.live, Multiset.map_map] at hsum
  exact hsum

/-- A block that is handed on between the users and the free list stays the pool's. -/
theorem Owns.of_blocks_eq (h : m.Owns outstanding) (hblocks : m'.blocks outstanding' = m.blocks outstanding)
    (hheap : m'.heap = m.heap) (hsize : m'.pool.blockSize = m.pool.blockSize)
    (hallocs : m'.pool.systemAllocations = m.pool.systemAllocations)
    (hfrees : m'.pool.systemDeallocations = m.pool.systemDeallocations)
    (hcached : ∀ b ∈ m'.pool.freeBlocks, b.pooled = true) : m'.Owns outstanding' where
  ledger := by
    rw [hheap, hallocs, hfrees, hblocks]
    exact h.ledger
  aligned := by
    rw [hblocks]
    exact h.aligned
  capacity := by
    rw [hblocks, hsize]
    exact h.capacity
  cached := hcached

/-! ## Acquire -/

/-- Where an acquired block comes from: the free list, or the system. -/
inductive Acquired (sys : SystemAllocator) (m : BlockMemory) (n : UInt64) : MemoryBlock → BlockMemory → Prop
  | cached {b : MemoryBlock} {rest : List MemoryBlock} (hle : n ≤ m.pool.blockSize)
      (hfree : m.pool.freeBlocks = rest ++ [b]) :
      Acquired sys m n b
        { m with pool := { m.pool with freeBlocks := rest, poolHits := m.pool.poolHits + 1 } }
  | allocated {capacity : UInt64} {pooled : Bool} {addr : ℕ} {heap : SystemHeap}
      (hnew : sys.allocate m.heap capacity.toNat = some (addr, heap))
      (hcapacity : if pooled then capacity = m.pool.blockSize ∧ n ≤ m.pool.blockSize
        else capacity = alignUp n defaultAlignment) :
      Acquired sys m n ⟨addr, capacity, pooled⟩
        ⟨{ m.pool with systemAllocations := m.pool.systemAllocations + 1 }, heap⟩

/-- What the system did. -/
theorem allocateBlock_cases {capacity : UInt64} {pooled : Bool}
    (h : m.allocateBlock sys capacity pooled = some (b, m')) :
    ∃ addr heap, sys.allocate m.heap capacity.toNat = some (addr, heap) ∧ b = ⟨addr, capacity, pooled⟩ ∧
      m' = ⟨{ m.pool with systemAllocations := m.pool.systemAllocations + 1 }, heap⟩ := by
  obtain ⟨⟨addr, heap⟩, hnew, heq⟩ := Option.map_eq_some_iff.mp h
  simp only [Prod.mk.injEq] at heq
  exact ⟨addr, heap, hnew, heq.1.symm, heq.2.symm⟩

/-- What an acquisition did. -/
theorem acquired_of_acquire (h : m.acquire sys n = some (b, m')) : Acquired sys m n b m' := by
  unfold acquire at h
  split at h
  · rename_i hle
    split at h
    · rename_i block hlast
      simp only [Option.some.injEq, Prod.mk.injEq] at h
      obtain ⟨rfl, rfl⟩ := h
      exact .cached hle (List.dropLast_append_getLast? _ hlast).symm
    · obtain ⟨addr, heap, hnew, rfl, rfl⟩ := allocateBlock_cases h
      exact .allocated hnew ⟨rfl, hle⟩
  · obtain ⟨addr, heap, hnew, rfl, rfl⟩ := allocateBlock_cases h
    exact .allocated hnew rfl

/-- **An acquired block is outstanding, and nothing else changes hands.** -/
theorem acquire_owns (h : m.Owns outstanding) (hres : m.acquire sys n = some (b, m')) :
    m'.Owns (b ::ₘ outstanding) := by
  rcases acquired_of_acquire hres with ⟨hle, hfree⟩ | @⟨capacity, pooled, addr, heap, hnew, hcapacity⟩
  · refine h.of_blocks_eq ?_ rfl rfl rfl rfl ?_
    · simp [blocks, hfree, ← Multiset.coe_add, ← Multiset.singleton_add, add_left_comm, add_comm]
    · intro c hc
      exact h.cached c (by simp [hfree, hc])
  · have haligned := (Allocator.allocate_spec hnew).1
    have hblocks : blocks ⟨{ m.pool with systemAllocations := m.pool.systemAllocations + 1 }, heap⟩
        (⟨addr, capacity, pooled⟩ ::ₘ outstanding) = ⟨addr, capacity, pooled⟩ ::ₘ m.blocks outstanding :=
      Multiset.cons_add _ _ _
    refine ⟨?_, ?_, ?_, h.cached⟩
    · rw [hblocks, Multiset.map_cons]
      exact h.ledger.allocate hnew
    · rw [hblocks]
      exact Multiset.forall_mem_cons.mpr ⟨haligned, h.aligned⟩
    · rw [hblocks]
      refine Multiset.forall_mem_cons.mpr ⟨fun hpooled => ?_, h.capacity⟩
      rw [if_pos hpooled] at hcapacity
      exact hcapacity.1

/-- **A block has the capacity that was asked for**, where rounding it up does not wrap. -/
theorem le_capacity_of_acquire (h : m.Owns outstanding) (hres : m.acquire sys n = some (b, m'))
    (hn : n.toNat + defaultAlignment.toNat ≤ 2 ^ 64) : n ≤ b.capacity := by
  rcases acquired_of_acquire hres with @⟨b, rest, hle, hfree⟩ | @⟨capacity, pooled, addr, heap, hnew, hcapacity⟩
  · have hmem : b ∈ m.pool.freeBlocks := by simp [hfree]
    rw [h.capacity b (by simp [blocks, hmem]) (h.cached b hmem)]
    exact hle
  · cases pooled with
    | true => exact hcapacity.1.symm ▸ hcapacity.2
    | false =>
      have hcap : capacity = alignUp n defaultAlignment := hcapacity
      rw [hcap, UInt64.le_iff_toNat_le]
      exact (alignUp_bounds (by decide) hn).1

/-! ## Release -/

/-- The release of what was moved from does nothing. -/
theorem release_of_not_holds (hb : ¬ b.Holds) : m.release b = some (b, m) :=
  if_pos (not_not.mp hb)

/-- A block of the pool can be freed. -/
theorem freeBlock_owns (h : m.Owns (b ::ₘ outstanding)) :
    ∃ m', m.freeBlock b = some (.null, m') ∧ m'.Owns outstanding := by
  have hblocks : m.blocks (b ::ₘ outstanding) = b ::ₘ m.blocks outstanding := Multiset.cons_add _ _ _
  have hledger := h.ledger
  rw [hblocks, Multiset.map_cons] at hledger
  obtain ⟨heap, hfree, hledger'⟩ := hledger.free
  have hheap : m.heap.free b.data = some heap := hfree
  have hholds : b.data ≠ 0 := h.holds (by simp [hblocks])
  have hres : m.freeBlock b = some (.null,
      ⟨{ m.pool with systemDeallocations := m.pool.systemDeallocations + 1 }, heap⟩) := by
    rw [freeBlock, if_neg hholds, hheap]
    rfl
  refine ⟨_, hres, hledger', ?_, ?_, h.cached⟩
  · exact fun c hc => h.aligned c (hblocks ▸ Multiset.mem_cons_of_mem hc)
  · exact fun c hc => h.capacity c (hblocks ▸ Multiset.mem_cons_of_mem hc)

/-- **A release of an outstanding block is defined, and takes it back.** -/
theorem release_owns (h : m.Owns (b ::ₘ outstanding)) :
    ∃ m', m.release b = some (.null, m') ∧ m'.Owns outstanding := by
  have hholds : b.data ≠ 0 := h.holds (by simp [blocks])
  unfold release
  rw [if_neg hholds]
  split
  · rename_i hpooled
    split
    · refine ⟨_, rfl, h.of_blocks_eq ?_ rfl rfl rfl rfl ?_⟩
      · simp [blocks, ← Multiset.coe_add, ← Multiset.singleton_add, add_left_comm, add_comm]
      · intro c hc
        rcases List.mem_append.mp hc with hc | hc
        · exact h.cached c hc
        · rw [List.mem_singleton.mp hc]
          exact hpooled
    · exact freeBlock_owns h
  · exact freeBlock_owns h

/-! ## Variables of users -/

variable {vars : List MemoryBlock} {rest : Multiset MemoryBlock} {i : ℕ}

/-- A block that is acquired into a new variable. -/
theorem acquire_held (h : m.Owns (rest + held MemoryBlock.Holds vars)) (hres : m.acquire sys n = some (b, m')) :
    m'.Owns (rest + held MemoryBlock.Holds (vars ++ [b])) := by
  have howns := acquire_owns h hres
  have hholds : b.Holds := howns.holds (by simp [blocks])
  rw [held_append, if_pos hholds, Multiset.add_cons]
  exact howns

/-- A variable that is released, also where it was moved from. -/
theorem release_held (h : m.Owns (rest + held MemoryBlock.Holds vars)) (hb : vars[i]? = some b) :
    ∃ b' m', m.release b = some (b', m') ∧ m'.Owns (rest + held MemoryBlock.Holds (vars.set i b')) := by
  have hlt := (List.getElem?_eq_some_iff.mp hb).1
  rw [held_of_getElem? _ hb] at h
  by_cases hholds : b.Holds
  · rw [if_pos hholds, Multiset.add_cons] at h
    obtain ⟨m', hres, howns⟩ := release_owns h
    refine ⟨.null, m', hres, ?_⟩
    rw [held_set _ hlt, if_neg MemoryBlock.not_holds_null]
    exact howns
  · rw [if_neg hholds] at h
    refine ⟨b, m, release_of_not_holds hholds, ?_⟩
    rw [held_set _ hlt, if_neg hholds]
    exact h

end BlockMemory

end SimpleOlap
