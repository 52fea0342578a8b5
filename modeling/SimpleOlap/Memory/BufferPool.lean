import Mathlib.Algebra.BigOperators.Group.Finset.Piecewise
import Mathlib.Data.Fin.VecNotation
import SimpleOlap.Memory.BlockPool

/-!
# The buffer pool

`BufferPool` hands out buffers of five size classes and caches those that come back, each in the free list of
its class, up to a limit. What is above the largest class, and everything in the mode `direct`, is allocated and
freed at once. Its buffers are held by handles, which give them back. Source: `buffer_pool.cpp`.

* `BufferMemory.acquire`, `BufferMemory.release`: the calls of the pool.
* `BufferHandle.reset`, `moveConstruct`, `moveAssign`: the calls of a handle.
* `BufferMemory.Owns`: the live allocations are the outstanding buffers and the cached ones, each once; a cached
  buffer has the size of its class. `acquire_owns`, `reset_owns`: the calls keep it, and are never undefined.
-/

namespace SimpleOlap

open Lib

/-! ## Handles -/

/-- Source: UINT32_MAX, the size class of a buffer that is none of the pool's sizes. -/
def directClass : UInt32 := 4294967295

/-- Source: BufferHandle. `pool` says that the handle has a pool; address 0 is the null pointer. -/
structure BufferHandle where
  pool : Bool := false
  data : ℕ := 0
  capacity : UInt64 := 0
  sizeClass : UInt32 := directClass
  deriving DecidableEq, Repr

namespace BufferHandle

/-- The handle without a buffer, which is also what is left where a handle was moved from. -/
def empty : BufferHandle := {}

/-- The allocation that a handle stands for. -/
def allocation (h : BufferHandle) : Allocation := ⟨h.data, h.capacity.toNat⟩

/-- Source: operator bool. -/
def Holds (h : BufferHandle) : Prop := h.data ≠ 0

/-- Whether a handle holds a buffer can be decided. -/
instance : DecidablePred Holds := fun h => inferInstanceAs (Decidable (h.data ≠ 0))

/-- The empty handle holds nothing. -/
theorem not_holds_empty : ¬ empty.Holds := not_not.mpr rfl

/-- Source: BufferHandle(BufferHandle&&). The new handle, and what is left of the other. -/
def moveConstruct (other : BufferHandle) : BufferHandle × BufferHandle := (other, empty)

end BufferHandle

/-! ## The pool -/

/-- Source: BufferPoolMode. -/
inductive BufferPoolMode
  | pooled
  | direct
  deriving DecidableEq, Repr

/-- Source: kClassCount. -/
abbrev classCount : ℕ := 5

/-- Source: SIZE_CLASSES. -/
def sizeClasses : Fin classCount → UInt64 := ![4096, 8192, 16384, 32768, 65536]

/-- Source: BufferPool. A free list is a vector: what is released last is at its end. -/
structure BufferPool where
  freeLists : Fin classCount → List ℕ := fun _ => []
  maxCachedPerClass : UInt64
  mode : BufferPoolMode
  systemAllocations : UInt64 := 0
  systemDeallocations : UInt64 := 0
  poolHits : UInt64 := 0
  poolReturns : UInt64 := 0

/-- A pool and the heap it allocates on. -/
structure BufferMemory where
  pool : BufferPool
  heap : SystemHeap

namespace BufferMemory

/-- Source: BufferPool::BufferPool. -/
def new (maxCachedPerClass : UInt64) (mode : BufferPoolMode) : BufferMemory where
  pool := { maxCachedPerClass, mode }
  heap := Heap.empty

/-- A buffer of a new allocation; the system can fail. -/
def allocateBuffer (sys : SystemAllocator) (m : BufferMemory) (capacity : UInt64) (sizeClass : UInt32) :
    Option (BufferHandle × BufferMemory) :=
  (sys.allocate m.heap capacity.toNat).map fun new =>
    (⟨true, new.1, capacity, sizeClass⟩,
      ⟨{ m.pool with systemAllocations := m.pool.systemAllocations + 1 }, new.2⟩)

/-- A buffer of no size class. -/
def allocateDirect (sys : SystemAllocator) (m : BufferMemory) (minCapacity : UInt64) :
    Option (BufferHandle × BufferMemory) :=
  m.allocateBuffer sys (alignUp minCapacity defaultAlignment) directClass

/-- The first size class with room for a request. -/
def classOf (minCapacity : UInt64) : Option (Fin classCount) :=
  (List.finRange classCount).find? fun i => minCapacity ≤ sizeClasses i

/-- A buffer of a size class, from its free list if that has one. -/
def acquireOfClass (sys : SystemAllocator) (m : BufferMemory) (i : Fin classCount) :
    Option (BufferHandle × BufferMemory) :=
  match (m.pool.freeLists i).getLast? with
  | some buffer =>
    some (⟨true, buffer, sizeClasses i, UInt32.ofNat i⟩, { m with pool :=
      { m.pool with
        freeLists := Function.update m.pool.freeLists i (m.pool.freeLists i).dropLast
        poolHits := m.pool.poolHits + 1 } })
  | none => m.allocateBuffer sys (sizeClasses i) (UInt32.ofNat i)

/-- Source: BufferPool::Acquire. It throws where the system allocator fails. -/
def acquire (sys : SystemAllocator) (m : BufferMemory) (minCapacity : UInt64) :
    Option (BufferHandle × BufferMemory) :=
  if m.pool.mode = .direct then m.allocateDirect sys minCapacity
  else
    match classOf minCapacity with
    | some i => m.acquireOfClass sys i
    | none => m.allocateDirect sys minCapacity

/-- `operator delete` of a buffer; of one that is not live it is undefined. -/
def freeBuffer (m : BufferMemory) (data : ℕ) : Option BufferMemory :=
  (m.heap.free data).map fun heap =>
    ⟨{ m.pool with systemDeallocations := m.pool.systemDeallocations + 1 }, heap⟩

/-- Source: BufferPool::Release. The index of a free list that there is none of is undefined. -/
def release (m : BufferMemory) (data : ℕ) (sizeClass : UInt32) : Option BufferMemory :=
  if data = 0 then some m
  else if sizeClass = directClass then m.freeBuffer data
  else if hlt : sizeClass.toNat < classCount then
    let i : Fin classCount := ⟨sizeClass.toNat, hlt⟩
    if (m.pool.freeLists i).length < m.pool.maxCachedPerClass.toNat then
      some { m with pool :=
        { m.pool with
          freeLists := Function.update m.pool.freeLists i (m.pool.freeLists i ++ [data])
          poolReturns := m.pool.poolReturns + 1 } }
    else m.freeBuffer data
  else none

end BufferMemory

namespace BufferHandle

/-- Source: BufferHandle::Reset, also ~BufferHandle. A release through a null pool is undefined. -/
def reset (h : BufferHandle) (m : BufferMemory) : Option (BufferHandle × BufferMemory) :=
  if h.data ≠ 0 then
    if h.pool then (m.release h.data h.sizeClass).map fun m' => (empty, m') else none
  else some (empty, m)

/-- Source: operator=(BufferHandle&&), where the two are different handles: what is in them after it. -/
def moveAssign (h other : BufferHandle) (m : BufferMemory) : Option (BufferHandle × BufferHandle × BufferMemory) :=
  (h.reset m).map fun r => (other, empty, r.2)

end BufferHandle

/-! ## Ownership -/

namespace BufferMemory

/-- The buffers of one free list. -/
def cachedOf (i : Fin classCount) (buffers : List ℕ) : Multiset Allocation :=
  (buffers : Multiset ℕ).map fun addr => ⟨addr, (sizeClasses i).toNat⟩

/-- The buffers of all free lists. -/
def cachedIn (freeLists : Fin classCount → List ℕ) : Multiset Allocation := ∑ i, cachedOf i (freeLists i)

/-- One more cached buffer. -/
theorem cachedOf_concat (i : Fin classCount) (buffers : List ℕ) (data : ℕ) :
    cachedOf i (buffers ++ [data]) = ⟨data, (sizeClasses i).toNat⟩ ::ₘ cachedOf i buffers := by
  have hperm : ((buffers ++ [data] : List ℕ) : Multiset ℕ) = data ::ₘ (buffers : Multiset ℕ) :=
    Multiset.coe_eq_coe.mpr (List.perm_append_singleton data buffers)
  rw [cachedOf, hperm, Multiset.map_cons, cachedOf]

/-- One free list, and the others. -/
theorem cachedIn_update (freeLists : Fin classCount → List ℕ) (i : Fin classCount) (buffers : List ℕ) :
    cachedIn (Function.update freeLists i buffers) =
      cachedOf i buffers + ∑ j ∈ Finset.univ \ {i}, cachedOf j (freeLists j) := by
  have hmap : (fun j => cachedOf j (Function.update freeLists i buffers j)) =
      Function.update (fun j => cachedOf j (freeLists j)) i (cachedOf i buffers) :=
    funext fun j => Function.apply_update (fun j => cachedOf j) freeLists i buffers j
  rw [cachedIn, hmap, Finset.sum_update_of_mem (Finset.mem_univ i)]

/-- A buffer that comes to the end of a free list. -/
theorem cachedIn_push (freeLists : Fin classCount → List ℕ) (i : Fin classCount) (data : ℕ) :
    cachedIn (Function.update freeLists i (freeLists i ++ [data])) =
      ⟨data, (sizeClasses i).toNat⟩ ::ₘ cachedIn freeLists := by
  rw [cachedIn_update, cachedOf_concat, Multiset.cons_add, ← cachedIn_update, Function.update_eq_self]

/-- A buffer that goes from there. -/
theorem cachedIn_pop {freeLists : Fin classCount → List ℕ} {i : Fin classCount} {rest : List ℕ} {data : ℕ}
    (h : freeLists i = rest ++ [data]) :
    cachedIn freeLists = ⟨data, (sizeClasses i).toNat⟩ ::ₘ cachedIn (Function.update freeLists i rest) := by
  rw [cachedIn_update, ← Multiset.cons_add, ← cachedOf_concat, ← h, ← cachedIn_update, Function.update_eq_self]

/-- What is cached. -/
theorem mem_cachedIn {freeLists : Fin classCount → List ℕ} {b : Allocation} :
    b ∈ cachedIn freeLists ↔ ∃ i, ∃ addr ∈ freeLists i, b = ⟨addr, (sizeClasses i).toNat⟩ := by
  simp only [cachedIn, Multiset.mem_sum, Finset.mem_univ, true_and, cachedOf, Multiset.mem_map, Multiset.mem_coe]
  exact exists_congr fun i => exists_congr fun addr => and_congr_right fun _ => eq_comm

/-- A buffer of a size class, or of none. -/
def ClassFits (h : BufferHandle) : Prop :=
  h.sizeClass = directClass ∨ ∃ i : Fin classCount, h.sizeClass = UInt32.ofNat i ∧ h.capacity = sizeClasses i

/-- The allocations of the pool: those of the outstanding handles, and the cached ones. -/
def buffers (m : BufferMemory) (outstanding : Multiset BufferHandle) : Multiset Allocation :=
  outstanding.map BufferHandle.allocation + cachedIn m.pool.freeLists

/-- The ledger of a pool has each of its buffers once. -/
structure Owns (m : BufferMemory) (outstanding : Multiset BufferHandle) : Prop where
  ledger : Ledger m.heap m.pool.systemAllocations m.pool.systemDeallocations (m.buffers outstanding)
  pool : ∀ h ∈ outstanding, h.pool = true
  sizeClass : ∀ h ∈ outstanding, ClassFits h

/-- A new pool owns nothing. -/
theorem owns_new (maxCachedPerClass : UInt64) (mode : BufferPoolMode) :
    (new maxCachedPerClass mode).Owns 0 := by
  refine ⟨?_, by simp, by simp⟩
  have hnone : (new maxCachedPerClass mode).buffers 0 = 0 := by simp [buffers, new, cachedIn, cachedOf]
  rw [hnone]
  exact Ledger.empty

variable {sys : SystemAllocator} {m m' : BufferMemory} {outstanding : Multiset BufferHandle}
  {h : BufferHandle} {n : UInt64}

/-! ## Acquire -/

/-- A buffer that was allocated is outstanding. -/
theorem allocateBuffer_owns {capacity : UInt64} {sizeClass : UInt32} (ho : m.Owns outstanding)
    (hres : m.allocateBuffer sys capacity sizeClass = some (h, m'))
    (hclass : sizeClass = directClass ∨
      ∃ i : Fin classCount, sizeClass = UInt32.ofNat i ∧ capacity = sizeClasses i) :
    m'.Owns (h ::ₘ outstanding) ∧ h.capacity = capacity := by
  obtain ⟨⟨addr, heap⟩, hnew, heq⟩ := Option.map_eq_some_iff.mp hres
  simp only [Prod.mk.injEq] at heq
  obtain ⟨rfl, rfl⟩ := heq
  refine ⟨⟨?_, ?_, ?_⟩, rfl⟩
  · rw [buffers, Multiset.map_cons, Multiset.cons_add]
    exact ho.ledger.allocate hnew
  · exact Multiset.forall_mem_cons.mpr ⟨rfl, ho.pool⟩
  · exact Multiset.forall_mem_cons.mpr ⟨hclass, ho.sizeClass⟩

/-- A buffer of a size class is outstanding, and no longer in the free list. -/
theorem acquireOfClass_owns {i : Fin classCount} (ho : m.Owns outstanding)
    (hres : m.acquireOfClass sys i = some (h, m')) :
    m'.Owns (h ::ₘ outstanding) ∧ h.capacity = sizeClasses i := by
  unfold acquireOfClass at hres
  split at hres
  · rename_i buffer hlast
    have hfree := (List.dropLast_append_getLast? _ hlast).symm
    simp only [Option.some.injEq, Prod.mk.injEq] at hres
    obtain ⟨rfl, rfl⟩ := hres
    refine ⟨⟨?_, ?_, ?_⟩, rfl⟩
    · have hledger := ho.ledger
      rw [buffers, cachedIn_pop hfree, Multiset.add_cons] at hledger
      rw [buffers, Multiset.map_cons, Multiset.cons_add]
      exact hledger
    · exact Multiset.forall_mem_cons.mpr ⟨rfl, ho.pool⟩
    · exact Multiset.forall_mem_cons.mpr ⟨Or.inr ⟨i, rfl, rfl⟩, ho.sizeClass⟩
  · exact allocateBuffer_owns ho hres (Or.inr ⟨i, rfl, rfl⟩)

/-- A buffer from the system is owned by its user. -/
theorem allocateDirect_owns (ho : m.Owns outstanding) (hres : m.allocateDirect sys n = some (h, m')) :
    m'.Owns (h ::ₘ outstanding) ∧ h.capacity = alignUp n defaultAlignment :=
  allocateBuffer_owns ho hres (Or.inl rfl)

/-- A class is large enough. -/
theorem le_sizeClasses_of_classOf {i : Fin classCount} (hi : classOf n = some i) : n ≤ sizeClasses i := by
  have hfound := List.find?_some (p := fun i => decide (n ≤ sizeClasses i)) hi
  exact of_decide_eq_true hfound

/-- The capacity of what is acquired: that of a class with room, or the request rounded up. -/
theorem acquire_spec (ho : m.Owns outstanding) (hres : m.acquire sys n = some (h, m')) :
    m'.Owns (h ::ₘ outstanding) ∧
      ((∃ i, n ≤ sizeClasses i ∧ h.capacity = sizeClasses i) ∨ h.capacity = alignUp n defaultAlignment) := by
  unfold acquire at hres
  split at hres
  · have hspec := allocateDirect_owns ho hres
    exact ⟨hspec.1, Or.inr hspec.2⟩
  · split at hres
    · rename_i i hi
      have hspec := acquireOfClass_owns ho hres
      exact ⟨hspec.1, Or.inl ⟨i, le_sizeClasses_of_classOf hi, hspec.2⟩⟩
    · have hspec := allocateDirect_owns ho hres
      exact ⟨hspec.1, Or.inr hspec.2⟩

/-- **An acquired buffer is outstanding, and nothing else changes hands.** -/
theorem acquire_owns (ho : m.Owns outstanding) (hres : m.acquire sys n = some (h, m')) :
    m'.Owns (h ::ₘ outstanding) :=
  (acquire_spec ho hres).1

/-- **A buffer has the capacity that was asked for**, where rounding it up does not wrap. -/
theorem le_capacity_of_acquire (ho : m.Owns outstanding) (hres : m.acquire sys n = some (h, m'))
    (hn : n.toNat + defaultAlignment.toNat ≤ 2 ^ 64) : n ≤ h.capacity := by
  rcases (acquire_spec ho hres).2 with ⟨i, hle, hcap⟩ | hcap
  · rw [hcap]
    exact hle
  · rw [hcap, UInt64.le_iff_toNat_le]
    exact (alignUp_bounds (by decide) hn).1

/-! ## Release -/

/-- A buffer that is freed is nobody's. -/
theorem freeBuffer_owns (ho : m.Owns (h ::ₘ outstanding)) :
    ∃ m', m.freeBuffer h.data = some m' ∧ m'.Owns outstanding := by
  have hledger := ho.ledger
  rw [buffers, Multiset.map_cons, Multiset.cons_add] at hledger
  obtain ⟨heap, hfree, hledger'⟩ := hledger.free
  have hheap : m.heap.free h.data = some heap := hfree
  have hres : m.freeBuffer h.data =
      some ⟨{ m.pool with systemDeallocations := m.pool.systemDeallocations + 1 }, heap⟩ := by
    rw [freeBuffer, hheap]
    rfl
  refine ⟨_, hres, hledger', ?_, ?_⟩
  · exact fun c hc => ho.pool c (Multiset.mem_cons_of_mem hc)
  · exact fun c hc => ho.sizeClass c (Multiset.mem_cons_of_mem hc)

/-- The number of a class is not wrapped. -/
theorem toNat_ofNat_class (i : Fin classCount) : (UInt32.ofNat i).toNat = i := by
  have hlt : (i : ℕ) < 5 := i.isLt
  rw [UInt32.toNat_ofNat', Nat.mod_eq_of_lt (by omega)]

/-- No class is the direct one. -/
theorem ofNat_class_ne_directClass (i : Fin classCount) : UInt32.ofNat i ≠ directClass := by
  intro heq
  have hval := congrArg UInt32.toNat heq
  rw [toNat_ofNat_class] at hval
  have hdirect : directClass.toNat = 4294967295 := rfl
  have hlt : (i : ℕ) < 5 := i.isLt
  omega

/-- A buffer that comes back to the free list of its class. -/
theorem push_owns {i : Fin classCount} (ho : m.Owns (h ::ₘ outstanding)) (hcap : h.capacity = sizeClasses i) :
    Owns { m with pool :=
      { m.pool with
        freeLists := Function.update m.pool.freeLists i (m.pool.freeLists i ++ [h.data])
        poolReturns := m.pool.poolReturns + 1 } } outstanding := by
  have hallocation : h.allocation = ⟨h.data, (sizeClasses i).toNat⟩ := by rw [BufferHandle.allocation, hcap]
  refine ⟨?_, ?_, ?_⟩
  · have hledger := ho.ledger
    rw [buffers, Multiset.map_cons, Multiset.cons_add, hallocation, ← Multiset.add_cons, ← cachedIn_push] at hledger
    exact hledger
  · exact fun c hc => ho.pool c (Multiset.mem_cons_of_mem hc)
  · exact fun c hc => ho.sizeClass c (Multiset.mem_cons_of_mem hc)

/-- **The release of an outstanding buffer is defined, and takes it back.** -/
theorem release_owns (ho : m.Owns (h ::ₘ outstanding)) :
    ∃ m', m.release h.data h.sizeClass = some m' ∧ m'.Owns outstanding := by
  have hnull : h.data ≠ 0 :=
    ho.ledger.addr_ne_zero (b := h.allocation) (by simp [buffers])
  unfold release
  rw [if_neg hnull]
  rcases ho.sizeClass h (Multiset.mem_cons_self h outstanding) with hdirect | ⟨i, hclass, hcap⟩
  · rw [if_pos hdirect]
    exact freeBuffer_owns ho
  · have hlt : h.sizeClass.toNat < classCount := by
      rw [hclass, toNat_ofNat_class]
      exact i.isLt
    have hi : (⟨h.sizeClass.toNat, hlt⟩ : Fin classCount) = i :=
      Fin.ext (by simp only [hclass, toNat_ofNat_class])
    rw [if_neg (hclass ▸ ofNat_class_ne_directClass i), dif_pos hlt]
    simp only [hi]
    split
    · exact ⟨_, rfl, push_owns ho hcap⟩
    · exact freeBuffer_owns ho

/-- **The reset of a handle is defined and gives its buffer back**, if it has one. -/
theorem reset_owns (ho : m.Owns (if h.Holds then h ::ₘ outstanding else outstanding)) :
    ∃ m', h.reset m = some (.empty, m') ∧ m'.Owns outstanding := by
  unfold BufferHandle.reset
  by_cases hholds : h.data ≠ 0
  · rw [if_pos (show h.Holds from hholds)] at ho
    obtain ⟨m', hres, ho'⟩ := release_owns ho
    rw [if_pos hholds, if_pos (ho.pool h (Multiset.mem_cons_self h outstanding)), hres]
    exact ⟨m', rfl, ho'⟩
  · rw [if_neg (show ¬ h.Holds from hholds)] at ho
    rw [if_neg hholds]
    exact ⟨m, rfl, ho⟩

end BufferMemory

end SimpleOlap
