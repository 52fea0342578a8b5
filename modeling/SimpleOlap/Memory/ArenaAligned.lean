import SimpleOlap.Memory.ArenaRuns

/-!
# Aligned allocations

`Allocate` aligns the offset in a block, and not the address. The base of a block is a multiple of 64, for which the
pool asks the system, and of no more.

* `ArenaBlock.dvd_address`: an address is aligned where the base of its block is.
* `aligned_iff`: in every run the addresses are aligned, for exactly the alignments up to 64.
-/

namespace SimpleOlap

open Lib

/-! ## Bases and addresses -/

/-- The address of an allocation is a multiple of an alignment that the base of its block is a multiple of. -/
theorem ArenaBlock.dvd_address {b : ArenaBlock} {alignment : UInt64} (ha : IsAlignment alignment)
    (hbase : alignment.toNat ∣ b.memory.data) : alignment.toNat ∣ b.address alignment :=
  Nat.dvd_add hbase (dvd_alignUp ha b.offset)

theorem isAlignment_default : IsAlignment defaultAlignment := by decide

/-- The capacity that a pool allocates leaves room in front of it for the first aligned address. -/
theorem default_add_alignUp_le (v : UInt64) : 64 + (alignUp v defaultAlignment).toNat ≤ 2 ^ 64 := by
  obtain ⟨q, hq⟩ := dvd_alignUp isAlignment_default v
  have hdefault : defaultAlignment.toNat = 64 := rfl
  rw [hdefault] at hq
  have hlt := (alignUp v defaultAlignment).toNat_lt
  omega

/-! ## Runs -/

namespace ArenaWorld

/-- The calls that the source's assertion lets through, of any sizes. -/
def Asserted (_ : ArenaWorld) : ArenaCall → Prop
  | .allocate _ alignment => IsAlignment alignment
  | _ => True

/-- An allocation of any size returns a multiple of the alignment. -/
def ReturnsAligned (w : ArenaWorld) (alignment : UInt64) : Prop :=
  ∀ sys size addr a' m', w.arena.allocate sys w.memory size alignment = some ((addr, a'), m') →
    alignment.toNat ∣ addr

/-- The base of a block is aligned as far as the pool aligns it. -/
theorem returnsAligned_of_le {w : ArenaWorld} {alignment : UInt64} (h : w.memory.Owns w.outstanding)
    (ha : IsAlignment alignment) (hle : alignment ≤ defaultAlignment) : w.ReturnsAligned alignment := by
  intro sys size addr a' m' hres
  have hdvd := ha.dvd_of_le isAlignment_default hle
  rcases Arena.allocated_of_allocate hres with @⟨i, hplace⟩ | @⟨b, m', hplace, hnew⟩
  · have hbase := h.aligned _ (Arena.mem_blocks_of_mem (List.get_mem _ i))
    exact ArenaBlock.dvd_address ha (hdvd.trans hbase)
  · have hbase := (BlockMemory.acquire_owns h hnew).aligned b (by simp [BlockMemory.blocks])
    exact ArenaBlock.dvd_address ha (hdvd.trans hbase)

/-- A pool can get its first block at address 64. -/
theorem exists_acquire_at (blockSize maxCachedBlocks n : UInt64) :
    ∃ b m, (BlockMemory.new blockSize maxCachedBlocks).acquire (Allocator.bump (by decide)) n = some (b, m) ∧
      b.data = 64 := by
  have hnew : ∀ (capacity : UInt64) (pooled : Bool), 64 + capacity.toNat ≤ 2 ^ 64 →
      ∃ b m, (BlockMemory.new blockSize maxCachedBlocks).allocateBlock (Allocator.bump (by decide)) capacity
        pooled = some (b, m) ∧ b.data = 64 := by
    intro capacity pooled hend
    obtain ⟨heap, hres⟩ := @Allocator.exists_allocate_bump (2 ^ 64) 64 (by decide) capacity.toNat (by decide) hend
    have hmap : (BlockMemory.new blockSize maxCachedBlocks).allocateBlock (Allocator.bump (by decide)) capacity
        pooled = (some (64, heap)).map _ :=
      congrArg _ hres
    exact ⟨_, _, hmap, rfl⟩
  unfold BlockMemory.acquire
  split
  · exact hnew _ true (default_add_alignUp_le _)
  · exact hnew _ false (default_add_alignUp_le _)

/-- **The addresses are aligned in every run if and only if the alignment is at most 64.** In every state that a run
of calls reaches, of any sizes and any powers of two, an allocation returns a multiple of its alignment; above 64
it need not. -/
theorem aligned_iff (blockSize maxCachedBlocks alignment : UInt64) (ha : IsAlignment alignment) :
    (∀ w, Reachable (· = start blockSize maxCachedBlocks) (Step Asserted) w → w.ReturnsAligned alignment) ↔
      alignment ≤ defaultAlignment := by
  constructor
  · intro h
    obtain ⟨b, m, hacquire, hdata⟩ := exists_acquire_at blockSize maxCachedBlocks (0 + alignment)
    have hres : (start blockSize maxCachedBlocks).arena.allocate (Allocator.bump (by decide))
        (start blockSize maxCachedBlocks).memory 0 alignment = some (Arena.empty.grow b 0 alignment, m) := by
      change ((BlockMemory.new blockSize maxCachedBlocks).acquire _ (0 + alignment)).map _ = _
      rw [hacquire]
      rfl
    have hdvd := h _ (.start rfl) _ _ _ _ _ hres
    have haddr : ({ memory := b } : ArenaBlock).address alignment = 64 := by
      simp only [ArenaBlock.address, alignUp_zero, hdata]
      rfl
    rw [haddr] at hdvd
    exact UInt64.le_iff_toNat_le.mpr (Nat.le_of_dvd (by decide) hdvd)
  · intro hle w hw
    have howns : w.memory.Owns w.outstanding := by
      refine hw.invariant (P := fun w => w.memory.Owns w.outstanding) ?_ ?_
      · rintro _ rfl
        exact owns_start blockSize maxCachedBlocks
      · rintro _ _ h ⟨sys, call, -, hres⟩
        exact owns_of_apply h hres
    exact returnsAligned_of_le howns ha hle

/-- The alignment of `std::max_align_t`. -/
theorem aligned_iff_sixteen :
    (∀ w, Reachable (· = start 0 64) (Step Asserted) w → w.ReturnsAligned 16) ↔ 16 ≤ defaultAlignment :=
  aligned_iff 0 64 16 (by decide)

/-- **An allocation of one byte aligned to 128 can return address 64.** -/
theorem not_always_aligned :
    ¬ ∀ blockSize maxCachedBlocks w, Reachable (· = start blockSize maxCachedBlocks) (Step Asserted) w →
      ∀ alignment, IsAlignment alignment → w.ReturnsAligned alignment := by
  intro h
  have haligned := h 0 64 (start 0 64) (.start rfl) 128 (by decide)
  have hdvd := haligned (Allocator.bump (by decide)) 1 64 _ _ rfl
  exact absurd hdvd (by decide)

end ArenaWorld

end SimpleOlap
