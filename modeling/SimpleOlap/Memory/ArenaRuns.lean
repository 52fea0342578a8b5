import SimpleOlap.Lib.Transition
import SimpleOlap.Memory.Arena

/-!
# Runs of an arena

What an arena has allocated, after any calls of it and of the others that use its pool.

* `ArenaWorld`, `ArenaCall`: an arena, its pool and the other users, with what was allocated since the last reset.
* `apply_owns`: the blocks of the arena are its own, whatever the sizes.
* `Inv`, `apply_inv`: allocations lie in front of the offset of their block, and have no byte in common, where no
  sum wraps; `allocations_disjoint`: in every state of a run.
-/

namespace SimpleOlap

open Lib

/-! ## States and calls -/

/-- An arena on a pool, the blocks that others have of the pool, and what the arena has allocated since the last
reset. -/
structure ArenaWorld where
  memory : BlockMemory
  arena : Arena
  others : List MemoryBlock
  regions : List Allocation

/-- What the arena and the others are called for. -/
inductive ArenaCall
  | allocate (size alignment : UInt64)
  | reset
  | release
  | otherAcquire (minCapacity : UInt64)
  | otherRelease (i : ℕ)

/-- The blocks of an arena. -/
def Arena.memories (a : Arena) : Multiset MemoryBlock := (a.blocks.map ArenaBlock.memory : List MemoryBlock)

namespace ArenaWorld

/-- A new arena on a new pool. -/
def start (blockSize maxCachedBlocks : UInt64) : ArenaWorld := ⟨.new blockSize maxCachedBlocks, .empty, [], []⟩

/-- A call. One that throws changes nothing. -/
def apply (w : ArenaWorld) (call : SystemAllocator × ArenaCall) : Option ArenaWorld :=
  match call.2 with
  | .allocate size alignment =>
    match w.arena.allocate call.1 w.memory size alignment with
    | some ((addr, arena), memory) =>
      some { w with memory, arena, regions := ⟨addr, size.toNat⟩ :: w.regions }
    | none => some w
  | .reset => some { w with arena := w.arena.reset, regions := [] }
  | .release =>
    (w.arena.release w.memory).map fun r => { w with memory := r.2, arena := r.1, regions := [] }
  | .otherAcquire n =>
    match w.memory.acquire call.1 n with
    | some (b, memory) => some { w with memory, others := w.others ++ [b] }
    | none => some w
  | .otherRelease i =>
    match w.others[i]? with
    | some b => (w.memory.release b).map fun r => { w with memory := r.2, others := w.others.set i r.1 }
    | none => some w

/-- A step of a run whose calls meet a condition. -/
def Step (P : ArenaWorld → ArenaCall → Prop) (w w' : ArenaWorld) : Prop :=
  ∃ sys call, P w call ∧ w.apply (sys, call) = some w'

/-- The blocks of the pool that somebody has. -/
def outstanding (w : ArenaWorld) : Multiset MemoryBlock :=
  w.arena.memories + held MemoryBlock.Holds w.others

end ArenaWorld

/-! ## The blocks of an arena -/

namespace Arena

variable {sys : SystemAllocator} {a a' : Arena} {m m' : BlockMemory} {size alignment : UInt64} {addr : ℕ}
  {rest : Multiset MemoryBlock}

/-- What an allocation does: it goes to a block of the arena, or to a new one. -/
inductive Allocated (sys : SystemAllocator) (a : Arena) (m : BlockMemory) (size alignment : UInt64) :
    ℕ → Arena → BlockMemory → Prop
  | bump {i : Fin a.blocks.length} (hplace : a.place size alignment = some i) :
      Allocated sys a m size alignment (a.bump i size alignment).1 (a.bump i size alignment).2 m
  | grow {b : MemoryBlock} {m' : BlockMemory} (hplace : a.place size alignment = none)
      (hnew : m.acquire sys (size + alignment) = some (b, m')) :
      Allocated sys a m size alignment (a.grow b size alignment).1 (a.grow b size alignment).2 m'

/-- What an allocation did. -/
theorem allocated_of_allocate (h : a.allocate sys m size alignment = some ((addr, a'), m')) :
    Allocated sys a m size alignment addr a' m' := by
  rw [allocate_eq] at h
  split at h
  · rename_i i hplace
    simp only [Option.some.injEq, Prod.ext_iff] at h
    obtain ⟨⟨rfl, rfl⟩, rfl⟩ := h
    exact .bump hplace
  · rename_i hplace
    obtain ⟨⟨b, m''⟩, hnew, heq⟩ := Option.map_eq_some_iff.mp h
    simp only [Prod.ext_iff] at heq
    obtain ⟨⟨rfl, rfl⟩, rfl⟩ := heq
    exact .grow hplace hnew

/-- A bump keeps the memory. -/
theorem memories_bump (a : Arena) (i : Fin a.blocks.length) (size alignment : UInt64) :
    (a.bump i size alignment).2.memories = a.memories := by
  have hself : (a.blocks.map ArenaBlock.memory).set i (a.blocks.get i).memory = a.blocks.map ArenaBlock.memory := by
    apply List.ext_getElem
    · simp
    · intro j hj hj'
      rw [List.getElem_set]
      split
      · rename_i hij
        simp [← hij]
      · rfl
  simp only [memories, bump, List.map_set, ArenaBlock.advance]
  rw [hself]

/-- One more block. -/
theorem memories_grow (a : Arena) (b : MemoryBlock) (size alignment : UInt64) :
    (a.grow b size alignment).2.memories = b ::ₘ a.memories := by
  simp only [memories, grow, List.map_append, List.map_singleton, ArenaBlock.advance]
  exact Multiset.coe_eq_coe.mpr (List.perm_append_singleton b _)

/-- A reset keeps the memory. -/
theorem memories_reset (a : Arena) : a.reset.memories = a.memories := by
  simp [memories, reset, Function.comp_def]

/-- **The blocks that an arena has after an allocation are its own.** -/
theorem allocate_owns (h : m.Owns (a.memories + rest))
    (hres : a.allocate sys m size alignment = some ((addr, a'), m')) : m'.Owns (a'.memories + rest) := by
  rcases allocated_of_allocate hres with @⟨i, hplace⟩ | @⟨b, m', hplace, hnew⟩
  · rw [memories_bump]
    exact h
  · rw [memories_grow, Multiset.cons_add]
    exact BlockMemory.acquire_owns h hnew

/-- The blocks that are given back one after the other. -/
theorem releaseBlocks_owns : ∀ (bs : List ArenaBlock) (m : BlockMemory),
    m.Owns ((bs.map ArenaBlock.memory : List MemoryBlock) + rest) →
      ∃ m', releaseBlocks m bs = some m' ∧ m'.Owns rest
  | [], m, h => ⟨m, rfl, by simpa using h⟩
  | b :: bs, m, h => by
    rw [List.map_cons, ← Multiset.cons_coe, Multiset.cons_add] at h
    obtain ⟨m₁, hres, h₁⟩ := BlockMemory.release_owns h
    obtain ⟨m', hrest, h'⟩ := releaseBlocks_owns bs m₁ h₁
    refine ⟨m', ?_, h'⟩
    rw [releaseBlocks, hres]
    exact hrest

end Arena

namespace ArenaWorld

/-- **A call is defined, and the blocks of the arena stay its own**, whatever the sizes. -/
theorem apply_owns {w : ArenaWorld} (call : SystemAllocator × ArenaCall) (h : w.memory.Owns w.outstanding) :
    ∃ w', w.apply call = some w' ∧ w'.memory.Owns w'.outstanding := by
  obtain ⟨sys, call⟩ := call
  cases call with
  | allocate size alignment =>
    simp only [apply]
    split
    · rename_i hres
      exact ⟨_, rfl, Arena.allocate_owns h hres⟩
    · exact ⟨w, rfl, h⟩
  | reset =>
    refine ⟨_, rfl, ?_⟩
    rw [outstanding, Arena.memories_reset]
    exact h
  | release =>
    obtain ⟨m', hres, howns⟩ := Arena.releaseBlocks_owns w.arena.blocks w.memory h
    refine ⟨_, by rw [apply, Arena.release, hres]; rfl, ?_⟩
    have hnone : Arena.empty.memories + held MemoryBlock.Holds w.others = held MemoryBlock.Holds w.others :=
      Multiset.zero_add _
    rw [outstanding, hnone]
    exact howns
  | otherAcquire n =>
    simp only [apply]
    split
    · rename_i hres
      exact ⟨_, rfl, BlockMemory.acquire_held h hres⟩
    · exact ⟨w, rfl, h⟩
  | otherRelease i =>
    simp only [apply]
    split
    · rename_i b hb
      obtain ⟨b', m', hres, howns⟩ := BlockMemory.release_held h hb
      exact ⟨_, by rw [hres]; rfl, howns⟩
    · exact ⟨w, rfl, h⟩

/-- **A call keeps every block with one owner.** -/
theorem owns_of_apply {w w' : ArenaWorld} {call : SystemAllocator × ArenaCall} (h : w.memory.Owns w.outstanding)
    (hres : w.apply call = some w') : w'.memory.Owns w'.outstanding := by
  obtain ⟨w₁, hres₁, howns⟩ := apply_owns call h
  obtain rfl := Option.some.inj (hres₁.symm.trans hres)
  exact howns

/-- At the start nothing is owned. -/
theorem owns_start (blockSize maxCachedBlocks : UInt64) :
    (start blockSize maxCachedBlocks).memory.Owns (start blockSize maxCachedBlocks).outstanding :=
  BlockMemory.owns_new blockSize maxCachedBlocks

end ArenaWorld

/-! ## Regions in blocks -/

namespace ArenaBlock

variable {b : ArenaBlock} {size alignment : UInt64}

/-- What an allocation in a block returns. -/
def region (b : ArenaBlock) (size alignment : UInt64) : Allocation := ⟨b.address alignment, size.toNat⟩

/-- The used part of a block is within it. -/
theorem used_within (hle : b.offset ≤ b.memory.capacity) : b.used.Within b.memory.allocation :=
  ⟨le_rfl, Nat.add_le_add_left (UInt64.le_iff_toNat_le.mp hle) _⟩

/-- The offset after an advance that does not wrap. -/
theorem NoWrap.toNat_offset_advance (h : b.NoWrap size alignment) :
    (b.advance size alignment).offset.toNat = (alignUp b.offset alignment).toNat + size.toNat := by
  rw [advance, UInt64.toNat_add]
  exact Nat.mod_eq_of_lt h.size

/-- The region is behind the offset of the block before the call. -/
theorem NoWrap.region_clear (h : b.NoWrap size alignment) (halign : alignment ≠ 0) :
    (b.region size alignment).Clear b.used := by
  have hup := (alignUp_bounds halign h.up).1
  refine Or.inr ?_
  simp only [used, region, address]
  omega

/-- It is in front of the offset after it. -/
theorem NoWrap.region_within (h : b.NoWrap size alignment) :
    (b.region size alignment).Within (b.advance size alignment).used := by
  have hoffset := h.toNat_offset_advance
  constructor
  · simp only [used, region, address, advance]
    omega
  · simp only [used, region, address]
    rw [hoffset]
    simp only [advance]
    omega

/-- What was in front of the offset stays so. -/
theorem NoWrap.used_within_advance (h : b.NoWrap size alignment) (halign : alignment ≠ 0) :
    b.used.Within (b.advance size alignment).used := by
  have hup := (alignUp_bounds halign h.up).1
  have hoffset := h.toNat_offset_advance
  constructor
  · exact le_rfl
  · simp only [used]
    rw [hoffset]
    simp only [advance]
    omega

/-- A block that was acquired for a request has room for it. -/
theorem fits_fresh {memory : MemoryBlock} (hsum : size.toNat + alignment.toNat < 2 ^ 64)
    (hcapacity : size + alignment ≤ memory.capacity) : ({ memory } : ArenaBlock).Fits size alignment := by
  have hzero : alignUp ({ memory } : ArenaBlock).offset alignment = 0 := alignUp_zero alignment
  rw [Fits, hzero, zero_add, UInt64.le_iff_toNat_le]
  rw [UInt64.le_iff_toNat_le, UInt64.toNat_add, Nat.mod_eq_of_lt hsum] at hcapacity
  exact (Nat.le_add_right _ _).trans hcapacity

/-- In a fresh block nothing wraps that fits the sum. -/
theorem noWrap_fresh {memory : MemoryBlock} (hsum : size.toNat + alignment.toNat < 2 ^ 64) :
    ({ memory } : ArenaBlock).NoWrap size alignment := by
  have hzero : alignUp ({ memory } : ArenaBlock).offset alignment = 0 := alignUp_zero alignment
  have hoffset : ({ memory } : ArenaBlock).offset.toNat = 0 := rfl
  refine ⟨by omega, ?_⟩
  rw [hzero, UInt64.toNat_zero]
  omega

end ArenaBlock

namespace Arena

/-- The regions lie in front of the offsets of the blocks, and no two have a byte in common. -/
structure Holds (blocks : List ArenaBlock) (regions : List Allocation) : Prop where
  offset_le : ∀ b ∈ blocks, b.offset ≤ b.memory.capacity
  inside : ∀ r ∈ regions, ∃ b ∈ blocks, r.Within b.used
  clear : regions.Pairwise Allocation.Clear

variable {blocks : List ArenaBlock} {regions : List Allocation} {b : ArenaBlock} {size alignment : UInt64}

/-- A region that is clear of what the blocks have in use comes to the others. -/
theorem Holds.cons {blocks' : List ArenaBlock} {r : Allocation} (h : Holds blocks regions)
    (hoffset : ∀ b ∈ blocks', b.offset ≤ b.memory.capacity)
    (hkeep : ∀ b ∈ blocks, ∃ b' ∈ blocks', b.used.Within b'.used)
    (hr : ∃ b' ∈ blocks', r.Within b'.used) (hclear : ∀ b ∈ blocks, r.Clear b.used) :
    Holds blocks' (r :: regions) where
  offset_le := hoffset
  inside := by
    refine List.forall_mem_cons.mpr ⟨hr, fun s hs => ?_⟩
    obtain ⟨b, hb, hsb⟩ := h.inside s hs
    obtain ⟨b', hb', hbb'⟩ := hkeep b hb
    exact ⟨b', hb', hsb.trans hbb'⟩
  clear := by
    refine List.pairwise_cons.mpr ⟨fun s hs => ?_, h.clear⟩
    obtain ⟨b, hb, hsb⟩ := h.inside s hs
    exact (hclear b hb).mono ⟨le_rfl, le_rfl⟩ hsb

/-- A region is in the memory of its block. -/
theorem region_within_memory (hfits : b.Fits size alignment) (hwrap : b.NoWrap size alignment) :
    (b.region size alignment).Within b.memory.allocation :=
  hwrap.region_within.trans (ArenaBlock.used_within (b := b.advance size alignment) hfits)

/-- **An allocation in a block of the arena.** -/
theorem Holds.bump {a : Arena} {i : Fin a.blocks.length} (h : Holds a.blocks regions) (halign : alignment ≠ 0)
    (hapart : ∀ b ∈ a.blocks, b ≠ a.blocks.get i → b.memory.allocation.Clear (a.blocks.get i).memory.allocation)
    (hfits : (a.blocks.get i).Fits size alignment) (hwrap : (a.blocks.get i).NoWrap size alignment) :
    Holds (a.bump i size alignment).2.blocks ((a.blocks.get i).region size alignment :: regions) := by
  have hnew : (a.blocks.get i).advance size alignment ∈ (a.bump i size alignment).2.blocks :=
    List.mem_set i.isLt _
  refine h.cons ?_ ?_ ⟨_, hnew, hwrap.region_within⟩ ?_
  · intro b hb
    rcases List.mem_or_eq_of_mem_set hb with hb | rfl
    · exact h.offset_le b hb
    · exact hfits
  · intro b hb
    by_cases hbi : b = a.blocks.get i
    · exact ⟨_, hnew, hbi ▸ hwrap.used_within_advance halign⟩
    · obtain ⟨j, hj, rfl⟩ := List.mem_iff_getElem.mp hb
      have hij : (i : ℕ) ≠ j := fun heq => hbi (by simp [← heq])
      refine ⟨a.blocks[j], ?_, le_rfl, le_rfl⟩
      exact List.mem_iff_getElem?.mpr ⟨j, by rw [Arena.bump, List.getElem?_set_ne hij, List.getElem?_eq_getElem hj]⟩
  · intro b hb
    by_cases hbi : b = a.blocks.get i
    · exact hbi ▸ hwrap.region_clear halign
    · exact (hapart b hb hbi).symm.mono (region_within_memory hfits hwrap) (ArenaBlock.used_within (h.offset_le b hb))

/-- **An allocation in a new block.** -/
theorem Holds.grow {a : Arena} {memory : MemoryBlock} (h : Holds a.blocks regions)
    (hapart : ∀ b ∈ a.blocks, b.memory.allocation.Clear memory.allocation)
    (hfits : ({ memory } : ArenaBlock).Fits size alignment)
    (hwrap : ({ memory } : ArenaBlock).NoWrap size alignment) :
    Holds (a.grow memory size alignment).2.blocks (({ memory } : ArenaBlock).region size alignment :: regions) := by
  have hnew : ({ memory } : ArenaBlock).advance size alignment ∈ (a.grow memory size alignment).2.blocks :=
    List.mem_append_right _ (List.mem_singleton.mpr rfl)
  refine h.cons ?_ ?_ ⟨_, hnew, hwrap.region_within⟩ ?_
  · intro b hb
    rcases List.mem_append.mp hb with hb | hb
    · exact h.offset_le b hb
    · exact (List.mem_singleton.mp hb) ▸ hfits
  · exact fun b hb => ⟨b, List.mem_append_left _ hb, le_rfl, le_rfl⟩
  · intro b hb
    exact (hapart b hb).symm.mono (region_within_memory hfits hwrap) (ArenaBlock.used_within (h.offset_le b hb))

/-- After a reset nothing is held. -/
theorem holds_reset {a : Arena} : Holds a.reset.blocks [] := by
  refine ⟨fun b hb => ?_, fun _ hr => absurd hr List.not_mem_nil, List.Pairwise.nil⟩
  obtain ⟨b', -, rfl⟩ := List.mem_map.mp hb
  exact UInt64.le_iff_toNat_le.mpr (Nat.zero_le _)

/-- An arena without blocks holds nothing. -/
theorem holds_empty : Holds empty.blocks [] :=
  ⟨fun _ hb => absurd hb List.not_mem_nil, fun _ hr => absurd hr List.not_mem_nil, List.Pairwise.nil⟩

end Arena

/-! ## Disjoint allocations -/

namespace Arena

variable {m : BlockMemory} {a : Arena} {rest : Multiset MemoryBlock} {b c : ArenaBlock}

/-- The memory of a block is that of the arena. -/
theorem mem_memories (hb : b ∈ a.blocks) : b.memory ∈ a.memories :=
  Multiset.mem_coe.mpr (List.mem_map_of_mem hb)

/-- The memory of a block is that of the pool. -/
theorem mem_blocks_of_mem (hb : b ∈ a.blocks) : b.memory ∈ m.blocks (a.memories + rest) :=
  Multiset.mem_add.mpr (Or.inl (Multiset.mem_add.mpr (Or.inl (mem_memories hb))))

/-- Two blocks of an arena have no byte in common. -/
theorem clear_of_ne (h : m.Owns (a.memories + rest)) (hb : b ∈ a.blocks) (hc : c ∈ a.blocks) (hne : b ≠ c) :
    b.memory.allocation.Clear c.memory.allocation := by
  have hle : a.memories ≤ m.blocks (a.memories + rest) :=
    (Multiset.le_add_right _ _).trans (Multiset.le_add_right _ _)
  have hnodup := Multiset.nodup_of_le (Multiset.map_le_map hle) h.nodup_data
  rw [memories, Multiset.map_coe, List.map_map, Multiset.coe_nodup] at hnodup
  exact h.clear (mem_blocks_of_mem hb) (mem_blocks_of_mem hc) fun heq =>
    hne (List.inj_on_of_nodup_map hnodup hb hc heq)

/-- A block that was acquired has no byte in common with those of the arena. -/
theorem clear_of_acquired {memory : MemoryBlock} (h : m.Owns (memory ::ₘ (a.memories + rest))) (hb : b ∈ a.blocks) :
    b.memory.allocation.Clear memory.allocation := by
  have hblocks : m.blocks (memory ::ₘ (a.memories + rest)) = memory ::ₘ m.blocks (a.memories + rest) :=
    Multiset.cons_add _ _ _
  have hnodup := h.nodup_data
  rw [hblocks, Multiset.map_cons, Multiset.nodup_cons] at hnodup
  have hmem : b.memory ∈ m.blocks (a.memories + rest) := mem_blocks_of_mem hb
  refine h.clear (hblocks ▸ Multiset.mem_cons_of_mem hmem) (hblocks ▸ Multiset.mem_cons_self _ _) fun heq => ?_
  exact hnodup.1 (heq ▸ Multiset.mem_map_of_mem _ hmem)

/-! ### Bytes in use -/

/-- A sum of sizes that does not wrap. -/
theorem toNat_foldl_add (f : ArenaBlock → UInt64) : ∀ (bs : List ArenaBlock) (total : UInt64),
    total.toNat + (bs.map fun b => (f b).toNat).sum < 2 ^ 64 →
      (bs.foldl (fun t b => t + f b) total).toNat = total.toNat + (bs.map fun b => (f b).toNat).sum
  | [], total, _ => by simp
  | b :: bs, total, h => by
    rw [List.map_cons, List.sum_cons] at h
    have hhead : (total + f b).toNat = total.toNat + (f b).toNat := by
      rw [UInt64.toNat_add]
      exact Nat.mod_eq_of_lt (by omega)
    rw [List.foldl_cons, toNat_foldl_add f bs (total + f b) (by rw [hhead]; omega), hhead, List.map_cons,
      List.sum_cons]
    omega

/-- The capacities of the blocks of an arena add up to less than `2 ^ 64`. -/
theorem sum_capacity_lt (h : m.Owns (a.memories + rest)) :
    (a.blocks.map fun b => b.memory.capacity.toNat).sum < 2 ^ 64 := by
  have hsum := h.sum_capacity_lt
  rw [BlockMemory.blocks, Multiset.map_add, Multiset.map_add, Multiset.sum_add, Multiset.sum_add, memories,
    Multiset.map_coe, List.map_map, Multiset.sum_coe] at hsum
  have hmap : (a.blocks.map ((fun b : MemoryBlock => b.capacity.toNat) ∘ ArenaBlock.memory)) =
      a.blocks.map fun b => b.memory.capacity.toNat := rfl
  rw [hmap] at hsum
  omega

/-- **There are no more bytes in use than there are in the blocks.** -/
theorem usedBytes_le_reservedBytes (h : m.Owns (a.memories + rest))
    (hoffset : ∀ b ∈ a.blocks, b.offset ≤ b.memory.capacity) : a.usedBytes ≤ a.reservedBytes := by
  have hcapacity := sum_capacity_lt h
  have hle : (a.blocks.map fun b => b.offset.toNat).sum ≤
      (a.blocks.map fun b => b.memory.capacity.toNat).sum :=
    List.sum_le_sum fun b hb => UInt64.le_iff_toNat_le.mp (hoffset b hb)
  rw [UInt64.le_iff_toNat_le, usedBytes, reservedBytes, toNat_foldl_add _ _ _ (by simp; omega),
    toNat_foldl_add _ _ _ (by simp; omega)]
  exact Nat.add_le_add_left hle _

end Arena

namespace ArenaWorld

/-- Calls whose sums do not wrap: an alignment that is not zero, and a size that leaves room for the rounding. -/
def SumsFit (w : ArenaWorld) : ArenaCall → Prop
  | .allocate size alignment => alignment ≠ 0 ∧ w.arena.NoWrap size alignment
  | _ => True

/-- The arena has its blocks, and what it has allocated lies in them. -/
structure Inv (w : ArenaWorld) : Prop where
  owns : w.memory.Owns w.outstanding
  holds : Arena.Holds w.arena.blocks w.regions

/-- The invariant at the start. -/
theorem inv_start (blockSize maxCachedBlocks : UInt64) : (start blockSize maxCachedBlocks).Inv :=
  ⟨owns_start blockSize maxCachedBlocks, Arena.holds_empty⟩

/-- An allocation keeps the regions apart. -/
theorem holds_of_allocate {w : ArenaWorld} {sys : SystemAllocator} {size alignment : UInt64} {addr : ℕ} {a' : Arena}
    {m' : BlockMemory} (h : w.Inv) (halign : alignment ≠ 0) (hwrap : w.arena.NoWrap size alignment)
    (hres : w.arena.allocate sys w.memory size alignment = some ((addr, a'), m')) :
    Arena.Holds a'.blocks (⟨addr, size.toNat⟩ :: w.regions) := by
  rcases Arena.allocated_of_allocate hres with @⟨i, hplace⟩ | @⟨b, m', hplace, hnew⟩
  · rw [Arena.NoWrap, hplace] at hwrap
    have hmem : w.arena.blocks.get i ∈ w.arena.blocks := List.get_mem _ i
    exact h.holds.bump halign (fun b hb hne => Arena.clear_of_ne h.owns hb hmem hne)
      (Arena.fits_of_place hplace) hwrap
  · rw [Arena.NoWrap, hplace] at hwrap
    have hdefault : defaultAlignment.toNat = 64 := rfl
    have hsum : size.toNat + alignment.toNat < 2 ^ 64 := by omega
    have hcapacity : size + alignment ≤ b.capacity := by
      refine BlockMemory.le_capacity_of_acquire h.owns hnew ?_
      rw [UInt64.toNat_add, Nat.mod_eq_of_lt hsum]
      exact hwrap
    have howns := BlockMemory.acquire_owns h.owns hnew
    exact h.holds.grow (fun c hc => Arena.clear_of_acquired howns hc) (ArenaBlock.fits_fresh hsum hcapacity)
      (ArenaBlock.noWrap_fresh hsum)

/-- **A call keeps the regions apart**, where no sum of its wraps. -/
theorem apply_inv {w w' : ArenaWorld} {sys : SystemAllocator} {call : ArenaCall} (h : w.Inv)
    (hcall : w.SumsFit call) (hres : w.apply (sys, call) = some w') : w'.Inv := by
  refine ⟨owns_of_apply h.owns hres, ?_⟩
  cases call with
  | allocate size alignment =>
    simp only [apply] at hres
    split at hres
    · rename_i hallocate
      obtain rfl := Option.some.inj hres
      exact holds_of_allocate h hcall.1 hcall.2 hallocate
    · obtain rfl := Option.some.inj hres
      exact h.holds
  | reset =>
    obtain rfl := Option.some.inj hres
    exact Arena.holds_reset
  | release =>
    obtain ⟨⟨a', m'⟩, hrelease, rfl⟩ := Option.map_eq_some_iff.mp hres
    obtain ⟨m'', -, heq⟩ := Option.map_eq_some_iff.mp hrelease
    obtain ⟨rfl, rfl⟩ := Prod.ext_iff.mp heq
    exact Arena.holds_empty
  | otherAcquire n =>
    simp only [apply] at hres
    split at hres
    · obtain rfl := Option.some.inj hres
      exact h.holds
    · obtain rfl := Option.some.inj hres
      exact h.holds
  | otherRelease i =>
    simp only [apply] at hres
    split at hres
    · obtain ⟨r, -, rfl⟩ := Option.map_eq_some_iff.mp hres
      exact h.holds
    · obtain rfl := Option.some.inj hres
      exact h.holds

/-- **Allocations never overlap.** In every state that a run of calls reaches whose sums do not wrap, with any
answers of the system and any other users of the pool, what the arena has returned since its last reset has
pairwise no byte in common, each lies inside one live block that the arena has, and there are no more bytes in use
than reserved. -/
theorem allocations_disjoint (blockSize maxCachedBlocks : UInt64) {w : ArenaWorld}
    (h : Reachable (· = start blockSize maxCachedBlocks) (Step SumsFit) w) :
    w.regions.Pairwise Allocation.Clear ∧
      (∀ r ∈ w.regions, ∃ b ∈ w.arena.blocks,
        b.memory.allocation ∈ w.memory.heap.live ∧ r.Within b.memory.allocation) ∧
      w.arena.usedBytes ≤ w.arena.reservedBytes := by
  have hinv : w.Inv := by
    refine h.invariant ?_ ?_
    · rintro _ rfl
      exact inv_start blockSize maxCachedBlocks
    · rintro _ _ hw ⟨sys, call, hcall, hres⟩
      exact apply_inv hw hcall hres
  refine ⟨hinv.holds.clear, fun r hr => ?_, ?_⟩
  · obtain ⟨b, hb, hrb⟩ := hinv.holds.inside r hr
    exact ⟨b, hb, hinv.owns.mem_live (Arena.mem_blocks_of_mem hb),
      hrb.trans (ArenaBlock.used_within (hinv.holds.offset_le b hb))⟩
  · exact Arena.usedBytes_le_reservedBytes hinv.owns hinv.holds.offset_le

/-- Two allocations in one block: the second one starts at the next multiple of 64. -/
theorem allocations_disjoint_two :
    ∃ w : ArenaWorld, w.regions = [⟨192, 8⟩, ⟨64, 100⟩] ∧ w.regions.Pairwise Allocation.Clear ∧
      (∀ r ∈ w.regions, ∃ b ∈ w.arena.blocks,
        b.memory.allocation ∈ w.memory.heap.live ∧ r.Within b.memory.allocation) ∧
      w.arena.usedBytes ≤ w.arena.reservedBytes := by
  refine ⟨_, ?_, allocations_disjoint 0 4 (.next (.next (.start rfl)
    ⟨Allocator.bump (by decide), .allocate 100 16, ⟨by decide, by decide⟩, rfl⟩)
    ⟨Allocator.bump (by decide), .allocate 8 64, ⟨by decide, by decide⟩, rfl⟩)⟩
  rfl

end ArenaWorld

end SimpleOlap
