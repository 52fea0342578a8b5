import SimpleOlap.Memory.BlockPool

/-!
# The arena

`Arena` allocates inside blocks of a pool: it moves the offset of its current block forward, goes on to a later
block that has room, or acquires a new one. `Reset` takes all offsets back and keeps the blocks. Source: `arena.cpp`.

* `Arena.allocate`, `allocateSlow`, `reset`, `release`, `usedBytes`, `reservedBytes`: the source's functions.
* `Arena.place`: the block that a request goes to; `allocate_eq`: what an allocation is in its words.
* `IsAlignment`: what the source asserts of an alignment, and `dvd_alignUp` what it gives.
-/

namespace SimpleOlap

open Lib

/-! ## Powers of two -/

/-- Source: the assertion in Allocate. -/
def IsAlignment (alignment : UInt64) : Prop := alignment ≠ 0 ∧ alignment &&& (alignment - 1) = 0

instance : DecidablePred IsAlignment := fun a =>
  inferInstanceAs (Decidable (a ≠ 0 ∧ a &&& (a - 1) = 0))

/-- It says that the alignment is a power of two. -/
theorem IsAlignment.exists_pow {a : UInt64} (ha : IsAlignment a) : ∃ k, a.toNat = 2 ^ k := by
  have hne : a.toNat ≠ 0 := (toNat_pos ha.1).ne'
  have hand : a.toNat &&& (a.toNat - 1) = 0 := by
    have hzero := congrArg UInt64.toNat ha.2
    rwa [UInt64.toNat_and, toNat_sub_one ha.1] at hzero
  exact (Nat.and_sub_one_eq_zero_iff_isPowerOfTwo hne).mp hand

/-- **What is rounded up is a multiple of the alignment**, also where the sum wraps. -/
theorem dvd_alignUp {a : UInt64} (ha : IsAlignment a) (v : UInt64) : a.toNat ∣ (alignUp v a).toNat := by
  obtain ⟨k, hk⟩ := ha.exists_pow
  have hsplit := toNat_and_add_and_not (v + a - 1) (a - 1)
  have hmask : ((v + a - 1) &&& (a - 1)).toNat = (v + a - 1).toNat % 2 ^ k := by
    rw [UInt64.toNat_and, toNat_sub_one ha.1, hk, Nat.and_two_pow_sub_one_eq_mod]
  have hrest : (alignUp v a).toNat = (v + a - 1).toNat - (v + a - 1).toNat % 2 ^ k := by
    rw [← hmask]
    unfold alignUp
    omega
  rw [hrest, hk]
  exact Nat.dvd_sub_mod _

/-- Of two powers of two the smaller divides the larger. -/
theorem IsAlignment.dvd_of_le {a b : UInt64} (ha : IsAlignment a) (hb : IsAlignment b) (hle : a ≤ b) :
    a.toNat ∣ b.toNat := by
  obtain ⟨j, hj⟩ := ha.exists_pow
  obtain ⟨k, hk⟩ := hb.exists_pow
  rw [UInt64.le_iff_toNat_le, hj, hk] at hle
  rw [hj, hk]
  exact Nat.pow_dvd_pow 2 ((Nat.pow_le_pow_iff_right Nat.one_lt_two).mp hle)

/-! ## Arenas -/

/-- Source: ArenaBlock. -/
structure ArenaBlock where
  memory : MemoryBlock
  offset : UInt64 := 0
  deriving DecidableEq

namespace ArenaBlock

/-- The check of a request against a block. -/
def Fits (b : ArenaBlock) (size alignment : UInt64) : Prop :=
  alignUp b.offset alignment + size ≤ b.memory.capacity

instance (b : ArenaBlock) (size alignment : UInt64) : Decidable (b.Fits size alignment) :=
  inferInstanceAs (Decidable (_ ≤ _))

/-- The block after an allocation in it. -/
def advance (b : ArenaBlock) (size alignment : UInt64) : ArenaBlock :=
  { b with offset := alignUp b.offset alignment + size }

/-- The address that an allocation in a block has. -/
def address (b : ArenaBlock) (alignment : UInt64) : ℕ := b.memory.data + (alignUp b.offset alignment).toNat

/-- The sums of an allocation in a block do not wrap. -/
structure NoWrap (b : ArenaBlock) (size alignment : UInt64) : Prop where
  up : b.offset.toNat + alignment.toNat ≤ 2 ^ 64
  size : (alignUp b.offset alignment).toNat + size.toNat < 2 ^ 64

instance (b : ArenaBlock) (size alignment : UInt64) : Decidable (b.NoWrap size alignment) :=
  decidable_of_iff (_ ∧ _) ⟨fun h => ⟨h.1, h.2⟩, fun h => ⟨h.up, h.size⟩⟩

/-- The part of a block in front of its offset. -/
def used (b : ArenaBlock) : Allocation := ⟨b.memory.data, b.offset.toNat⟩

end ArenaBlock

/-- Source: Arena. Where there are blocks the current one is one of them. -/
structure Arena where
  blocks : List ArenaBlock := []
  currentBlock : ℕ := 0
  current_lt : blocks ≠ [] → currentBlock < blocks.length := by simp

namespace Arena

/-- A new arena. -/
def empty : Arena := {}

/-- An allocation in a block that has room. -/
def bump (a : Arena) (i : Fin a.blocks.length) (size alignment : UInt64) : ℕ × Arena :=
  ((a.blocks.get i).address alignment,
    { blocks := a.blocks.set i ((a.blocks.get i).advance size alignment)
      currentBlock := i
      current_lt := fun _ => by simp })

/-- An allocation in a block that was acquired for it. -/
def grow (a : Arena) (memory : MemoryBlock) (size alignment : UInt64) : ℕ × Arena :=
  let fresh : ArenaBlock := { memory }
  (fresh.address alignment,
    { blocks := a.blocks ++ [fresh.advance size alignment]
      currentBlock := a.blocks.length
      current_lt := fun _ => by simp })

/-- The first block after the current one that has room. -/
def laterFit (a : Arena) (size alignment : UInt64) : Option (Fin a.blocks.length) :=
  (List.finRange a.blocks.length).find? fun i => a.currentBlock < i ∧ (a.blocks.get i).Fits size alignment

/-- Source: AllocateSlow. It throws where the pool does. -/
def allocateSlow (sys : SystemAllocator) (a : Arena) (m : BlockMemory) (size alignment : UInt64) :
    Option ((ℕ × Arena) × BlockMemory) :=
  match a.laterFit size alignment with
  | some i => some (a.bump i size alignment, m)
  | none => (m.acquire sys (size + alignment)).map fun r => (a.grow r.1 size alignment, r.2)

/-- Source: Allocate. The address, the arena after it, and the pool. -/
def allocate (sys : SystemAllocator) (a : Arena) (m : BlockMemory) (size alignment : UInt64) :
    Option ((ℕ × Arena) × BlockMemory) :=
  if h : a.blocks = [] then a.allocateSlow sys m size alignment
  else
    let block : Fin a.blocks.length := ⟨a.currentBlock, a.current_lt h⟩
    if (a.blocks.get block).Fits size alignment then some (a.bump block size alignment, m)
    else a.allocateSlow sys m size alignment

/-- Source: Reset. It writes zeros over what was allocated, which the model has no contents for. -/
def reset (a : Arena) : Arena where
  blocks := a.blocks.map fun b => { b with offset := 0 }
  currentBlock := 0
  current_lt := fun h => List.length_pos_iff.mpr h

/-- The blocks given back to the pool, in their order. -/
def releaseBlocks (m : BlockMemory) : List ArenaBlock → Option BlockMemory
  | [] => some m
  | b :: bs => (m.release b.memory).bind fun r => releaseBlocks r.2 bs

/-- Source: Release, also ~Arena. -/
def release (a : Arena) (m : BlockMemory) : Option (Arena × BlockMemory) :=
  (releaseBlocks m a.blocks).map fun m' => (empty, m')

/-- Source: used_bytes. -/
def usedBytes (a : Arena) : UInt64 := a.blocks.foldl (fun total b => total + b.offset) 0

/-- Source: reserved_bytes. -/
def reservedBytes (a : Arena) : UInt64 := a.blocks.foldl (fun total b => total + b.memory.capacity) 0

/-! ## Where a request goes -/

/-- The block that a request goes to, if one of the arena's has room. -/
def place (a : Arena) (size alignment : UInt64) : Option (Fin a.blocks.length) :=
  if h : a.blocks = [] then none
  else
    let block : Fin a.blocks.length := ⟨a.currentBlock, a.current_lt h⟩
    if (a.blocks.get block).Fits size alignment then some block else a.laterFit size alignment

variable {a : Arena} {size alignment : UInt64}

theorem laterFit_nil (h : a.blocks = []) : a.laterFit size alignment = none := by
  rw [laterFit, List.find?_eq_none]
  intro i
  exact absurd i.isLt (by simp [h])

/-- An allocation, by the block that it goes to. -/
theorem allocate_eq (sys : SystemAllocator) (a : Arena) (m : BlockMemory) (size alignment : UInt64) :
    a.allocate sys m size alignment =
      match a.place size alignment with
      | some i => some (a.bump i size alignment, m)
      | none => (m.acquire sys (size + alignment)).map fun r => (a.grow r.1 size alignment, r.2) := by
  by_cases h : a.blocks = []
  · rw [allocate, place, dif_pos h, dif_pos h, allocateSlow, laterFit_nil h]
  · rw [allocate, place, dif_neg h, dif_neg h]
    by_cases hfits : (a.blocks.get ⟨a.currentBlock, a.current_lt h⟩).Fits size alignment
    · simp only [if_pos hfits]
    · simp only [if_neg hfits, allocateSlow]

theorem fits_of_place {i : Fin a.blocks.length} (h : a.place size alignment = some i) :
    (a.blocks.get i).Fits size alignment := by
  unfold place at h
  split at h
  · exact absurd h (by simp)
  · dsimp only at h
    split at h
    · rename_i hfits
      obtain rfl := Option.some.inj h
      exact hfits
    · have hfound := List.find?_some (p := fun i : Fin a.blocks.length =>
        decide (a.currentBlock < i ∧ (a.blocks.get i).Fits size alignment)) h
      exact (of_decide_eq_true hfound).2

/-- The sums of an allocation do not wrap: those at the block that it goes to, or those of the request for a new
one, which the pool rounds up. -/
def NoWrap (a : Arena) (size alignment : UInt64) : Prop :=
  match a.place size alignment with
  | some i => (a.blocks.get i).NoWrap size alignment
  | none => size.toNat + alignment.toNat + defaultAlignment.toNat ≤ 2 ^ 64

instance (a : Arena) (size alignment : UInt64) : Decidable (a.NoWrap size alignment) :=
  match h : a.place size alignment with
  | some i => decidable_of_iff ((a.blocks.get i).NoWrap size alignment) (by rw [NoWrap, h])
  | none => decidable_of_iff (size.toNat + alignment.toNat + defaultAlignment.toNat ≤ 2 ^ 64) (by rw [NoWrap, h])

end Arena

end SimpleOlap
