import Mathlib.Algebra.BigOperators.Group.Finset.Basic
import Mathlib.Algebra.Order.BigOperators.Group.Finset
import Mathlib.Data.Finset.Lattice.Fold
import Mathlib.Data.List.Perm.Basic
import Mathlib.Data.UInt
import Mathlib.Order.Interval.Finset.Nat
import Mathlib.Order.Lattice.Nat

/-!
# Live allocations and their owners

* `Allocation.Clear`, `Within`: two ranges of addresses with no byte in common, and one inside another.
* `Heap`: what the system allocator has given out and not got back. Two live allocations have
  different addresses and no byte in common: other heaps cannot be built.
* `Allocator`: what a system allocator may answer. An allocation is apart from the live ones, or fails.
* `Heap.free_of_mem`: a live allocation can be freed; `Heap.card_lt`, `Heap.sum_size_lt`: there are fewer live
  allocations, and fewer bytes in them, than addresses.
* `Ledger`: the live allocations are those of a list, and two counters of `uint64_t` differ by their number.
* `held`: what the owners in a list of variables hold. A move from one variable to another keeps it.
-/

namespace SimpleOlap.Lib

/-! ## Allocations -/

/-- An address and a number of bytes from there on. -/
structure Allocation where
  addr : ℕ
  size : ℕ
  deriving DecidableEq, Repr

namespace Allocation

/-- No byte in common. -/
def Clear (b c : Allocation) : Prop := b.addr + b.size ≤ c.addr ∨ c.addr + c.size ≤ b.addr

/-- All bytes of the one are bytes of the other. -/
structure Within (b c : Allocation) : Prop where
  start_le : c.addr ≤ b.addr
  end_le : b.addr + b.size ≤ c.addr + c.size

/-- What is within a part is within the whole. -/
theorem Within.trans {b c d : Allocation} (hbc : b.Within c) (hcd : c.Within d) : b.Within d :=
  ⟨hcd.start_le.trans hbc.start_le, hbc.end_le.trans hcd.end_le⟩

/-- Clear on both sides. -/
theorem Clear.symm {b c : Allocation} (h : b.Clear c) : c.Clear b := Or.symm h

/-- Parts of clear allocations are clear. -/
theorem Clear.mono {b c b' c' : Allocation} (h : b.Clear c) (hb : b'.Within b) (hc : c'.Within c) :
    b'.Clear c' := by
  rcases h with h | h
  · exact Or.inl ((hb.end_le.trans h).trans hc.start_le)
  · exact Or.inr ((hc.end_le.trans h).trans hb.start_le)

/-- Different addresses, and no byte in common. -/
structure Apart (b c : Allocation) : Prop where
  addr_ne : b.addr ≠ c.addr
  clear : b.Clear c

/-- Apart on both sides. -/
theorem Apart.symm {b c : Allocation} (h : b.Apart c) : c.Apart b := ⟨h.addr_ne.symm, h.clear.symm⟩

/-- Inside an address space, and not at the null address. -/
structure InSpace (limit : ℕ) (b : Allocation) : Prop where
  addr_pos : 0 < b.addr
  addr_lt : b.addr < limit
  end_le : b.addr + b.size ≤ limit

/-- The addresses of its bytes. -/
def cells (b : Allocation) : Finset ℕ := Finset.Ico b.addr (b.addr + b.size)

/-- An allocation has as many cells as its size. -/
theorem card_cells (b : Allocation) : b.cells.card = b.size := by
  simp [cells]

/-- Clear allocations share no cell. -/
theorem Clear.disjoint_cells {b c : Allocation} (h : b.Clear c) : Disjoint b.cells c.cells := by
  rw [Finset.disjoint_left]
  intro x hb hc
  simp only [cells, Finset.mem_Ico] at hb hc
  rcases h with h | h
  · omega
  · omega

end Allocation

/-! ## Heaps -/

/-- The live allocations of an address space. -/
structure Heap (limit : ℕ) where
  live : Finset Allocation
  inSpace : ∀ b ∈ live, b.InSpace limit
  apart : ∀ b ∈ live, ∀ c ∈ live, b ≠ c → b.Apart c

namespace Heap

variable {limit : ℕ}

/-- Nothing is allocated. -/
def empty : Heap limit := ⟨∅, by simp, by simp⟩

/-- An allocation that the system can make next. -/
structure Fresh (h : Heap limit) (b : Allocation) : Prop where
  inSpace : b.InSpace limit
  apart : ∀ c ∈ h.live, b.Apart c

/-- What is fresh is not allocated. -/
theorem Fresh.notMem {h : Heap limit} {b : Allocation} (hb : h.Fresh b) : b ∉ h.live :=
  fun hmem => (hb.apart b hmem).addr_ne rfl

/-- The heap with one more allocation. -/
def allocate (h : Heap limit) (b : Allocation) (hb : h.Fresh b) : Heap limit where
  live := insert b h.live
  inSpace := by
    intro c hc
    rcases Finset.mem_insert.mp hc with rfl | hc
    · exact hb.inSpace
    · exact h.inSpace c hc
  apart := by
    intro c hc d hd hne
    rcases Finset.mem_insert.mp hc with hcb | hcl <;> rcases Finset.mem_insert.mp hd with hdb | hdl
    · exact absurd (hcb.trans hdb.symm) hne
    · exact hcb ▸ hb.apart d hdl
    · exact hdb ▸ (hb.apart c hcl).symm
    · exact h.apart c hcl d hdl hne

/-- The heap without the allocation at an address. There must be one: to free another address is undefined. -/
def free (h : Heap limit) (addr : ℕ) : Option (Heap limit) :=
  if ∃ b ∈ h.live, b.addr = addr then
    some ⟨h.live.filter (·.addr ≠ addr), fun b hb => h.inSpace b (Finset.mem_filter.mp hb).1,
      fun b hb c hc => h.apart b (Finset.mem_filter.mp hb).1 c (Finset.mem_filter.mp hc).1⟩
  else none

/-- One more allocation. -/
theorem live_allocate (h : Heap limit) {b : Allocation} (hb : h.Fresh b) :
    (h.allocate b hb).live.val = b ::ₘ h.live.val :=
  Finset.insert_val_of_notMem hb.notMem

/-- Two live allocations at one address are one. -/
theorem eq_of_addr_eq (h : Heap limit) {b c : Allocation} (hb : b ∈ h.live) (hc : c ∈ h.live)
    (haddr : b.addr = c.addr) : b = c := by
  by_contra hne
  exact (h.apart b hb c hc hne).addr_ne haddr

/-- **A live allocation can be freed**, and no other one goes. -/
theorem free_of_mem (h : Heap limit) {b : Allocation} (hb : b ∈ h.live) :
    ∃ h', h.free b.addr = some h' ∧ h'.live.val = h.live.val.erase b := by
  refine ⟨_, if_pos ⟨b, hb, rfl⟩, ?_⟩
  have herase : h.live.filter (·.addr ≠ b.addr) = h.live.erase b := by
    ext c
    simp only [Finset.mem_filter, Finset.mem_erase]
    constructor
    · rintro ⟨hc, hne⟩
      exact ⟨fun heq => hne (heq ▸ rfl), hc⟩
    · rintro ⟨hne, hc⟩
      exact ⟨hc, fun haddr => hne (h.eq_of_addr_eq hc hb haddr)⟩
  exact congrArg Finset.val herase

/-- **There are fewer live allocations than addresses**: the null address is none of theirs. -/
theorem card_lt (h : Heap limit) (hlimit : 0 < limit) : h.live.card < limit := by
  have hmaps : ∀ b ∈ h.live, b.addr ∈ Finset.Ico 1 limit := fun b hb =>
    Finset.mem_Ico.mpr ⟨(h.inSpace b hb).addr_pos, (h.inSpace b hb).addr_lt⟩
  have hinj : ∀ b ∈ h.live, ∀ c ∈ h.live, b.addr = c.addr → b = c := fun b hb c hc => h.eq_of_addr_eq hb hc
  have hcard := Finset.card_le_card_of_injOn Allocation.addr hmaps hinj
  rw [Nat.card_Ico] at hcard
  omega

/-- **The live allocations have fewer bytes than there are addresses.** -/
theorem sum_size_lt (h : Heap limit) (hlimit : 0 < limit) : ∑ b ∈ h.live, b.size < limit := by
  have hcells : (h.live.biUnion Allocation.cells).card = ∑ b ∈ h.live, b.size := by
    rw [Finset.card_biUnion (fun b hb c hc hne => (h.apart b hb c hc hne).clear.disjoint_cells)]
    exact Finset.sum_congr rfl fun b _ => b.card_cells
  have hsubset : h.live.biUnion Allocation.cells ⊆ Finset.Ico 1 limit := by
    intro x hx
    obtain ⟨b, hb, hxb⟩ := Finset.mem_biUnion.mp hx
    simp only [Allocation.cells, Finset.mem_Ico] at hxb ⊢
    have hpos := (h.inSpace b hb).addr_pos
    have hend := (h.inSpace b hb).end_le
    omega
  have hcard := Finset.card_le_card hsubset
  rw [hcells, Nat.card_Ico] at hcard
  omega

end Heap

/-! ## Allocators -/

/-- A system allocator: what it answers to a request, if it does not fail. Of its policy nothing is known but
that an allocation is apart from the live ones and aligned. -/
structure Allocator (limit alignment : ℕ) where
  new : Heap limit → ℕ → Option ℕ
  fresh : ∀ {h size addr}, new h size = some addr → h.Fresh ⟨addr, size⟩
  aligned : ∀ {h size addr}, new h size = some addr → alignment ∣ addr

namespace Allocator

variable {limit alignment : ℕ}

/-- An allocation: its address, and the heap with it. -/
def allocate (sys : Allocator limit alignment) (h : Heap limit) (size : ℕ) : Option (ℕ × Heap limit) :=
  match hnew : sys.new h size with
  | some addr => some (addr, h.allocate ⟨addr, size⟩ (sys.fresh hnew))
  | none => none

/-- What an allocator hands out is fresh and aligned. -/
theorem allocate_spec {sys : Allocator limit alignment} {h h' : Heap limit} {size addr : ℕ}
    (hres : sys.allocate h size = some (addr, h')) :
    alignment ∣ addr ∧ h.Fresh ⟨addr, size⟩ ∧ h'.live.val = ⟨addr, size⟩ ::ₘ h.live.val := by
  unfold allocate at hres
  split at hres
  · rename_i a hnew
    simp only [Option.some.injEq, Prod.mk.injEq] at hres
    obtain ⟨rfl, rfl⟩ := hres
    exact ⟨sys.aligned hnew, sys.fresh hnew, h.live_allocate _⟩
  · exact absurd hres (by simp)

/-- An address that is chosen can be handed out. -/
theorem exists_allocate {sys : Allocator limit alignment} {h : Heap limit} {size addr : ℕ}
    (hnew : sys.new h size = some addr) : ∃ h', sys.allocate h size = some (addr, h') := by
  unfold allocate
  split
  · rename_i addr' hnew'
    obtain rfl := Option.some.inj (hnew.symm.trans hnew')
    exact ⟨_, rfl⟩
  · rename_i hnone
    exact absurd (hnew.symm.trans hnone) (by simp)

/-- The end of the last live allocation. -/
def top (h : Heap limit) : ℕ := h.live.sup fun b => b.addr + b.size

/-- An allocator that allocates behind all that is live. -/
def bump (halign : 0 < alignment) : Allocator limit alignment where
  new h size :=
    let addr := alignment * (top h / alignment + 1)
    if addr < limit ∧ addr + size ≤ limit then some addr else none
  fresh := by
    intro h size addr hnew
    simp only [Option.ite_none_right_eq_some, Option.some.injEq] at hnew
    obtain ⟨⟨hlt, hend⟩, rfl⟩ := hnew
    have htop : top h < alignment * (top h / alignment + 1) := Nat.lt_mul_div_succ _ halign
    refine ⟨⟨Nat.zero_lt_of_lt htop, hlt, hend⟩, fun c hc => ?_⟩
    have hbelow : c.addr + c.size ≤ top h := Finset.le_sup (f := fun b => b.addr + b.size) hc
    exact ⟨by simp only; omega, Or.inr (by simp only; omega)⟩
  aligned := by
    intro h size addr hnew
    simp only [Option.ite_none_right_eq_some, Option.some.injEq] at hnew
    exact ⟨_, hnew.2.symm⟩

/-- The first allocation of this allocator. -/
theorem exists_allocate_bump (halign : 0 < alignment) {size : ℕ} (hlt : alignment < limit)
    (hend : alignment + size ≤ limit) :
    ∃ h', (bump halign : Allocator limit alignment).allocate Heap.empty size = some (alignment, h') := by
  apply exists_allocate
  have htop : top (Heap.empty : Heap limit) = 0 := rfl
  simp only [bump, htop, Nat.zero_div, zero_add, mul_one]
  exact if_pos ⟨hlt, hend⟩

end Allocator

/-! ## Ledgers -/

/-- The live allocations are `blocks`, each once, and the counters of allocations and deallocations differ by
their number. -/
structure Ledger {limit : ℕ} (h : Heap limit) (allocs frees : UInt64) (blocks : Multiset Allocation) : Prop where
  live : h.live.val = blocks
  balance : allocs - frees = UInt64.ofNat blocks.card

namespace Ledger

variable {limit alignment : ℕ} {h h' : Heap limit} {allocs frees : UInt64} {blocks : Multiset Allocation}
  {b : Allocation}

/-- Nothing allocated, nothing freed. -/
theorem empty : Ledger (Heap.empty : Heap limit) 0 0 0 := ⟨rfl, rfl⟩

/-- What is allocated and not freed. -/
theorem mem_live (hl : Ledger h allocs frees blocks) : b ∈ blocks ↔ b ∈ h.live := by
  rw [← Finset.mem_val, hl.live]

/-- No block is at the null address. -/
theorem addr_ne_zero (hl : Ledger h allocs frees blocks) (hb : b ∈ blocks) : b.addr ≠ 0 :=
  Nat.pos_iff_ne_zero.mp (h.inSpace b (hl.mem_live.mp hb)).addr_pos

/-- One more allocation. -/
theorem allocate {sys : Allocator limit alignment} {size addr : ℕ} (hl : Ledger h allocs frees blocks)
    (hnew : sys.allocate h size = some (addr, h')) : Ledger h' (allocs + 1) frees (⟨addr, size⟩ ::ₘ blocks) := by
  obtain ⟨-, -, hlive⟩ := Allocator.allocate_spec hnew
  refine ⟨by rw [hlive, hl.live], ?_⟩
  rw [Multiset.card_cons, UInt64.ofNat_add, ← hl.balance]
  exact add_sub_right_comm _ _ _

/-- One less: to free an allocation of the ledger is defined. -/
theorem free (hl : Ledger h allocs frees (b ::ₘ blocks)) :
    ∃ h', h.free b.addr = some h' ∧ Ledger h' allocs (frees + 1) blocks := by
  obtain ⟨h', hfree, hlive⟩ := h.free_of_mem (hl.mem_live.mp (Multiset.mem_cons_self b blocks))
  refine ⟨h', hfree, by rw [hlive, hl.live, Multiset.erase_cons_head], ?_⟩
  have hbalance := hl.balance
  rw [Multiset.card_cons, UInt64.ofNat_add] at hbalance
  rw [sub_add_eq_sub_sub, hbalance]
  exact add_sub_cancel_right _ _

/-- **No address is in a ledger twice.** -/
theorem nodup_addr (hl : Ledger h allocs frees blocks) : (blocks.map Allocation.addr).Nodup := by
  refine Multiset.Nodup.map_on (fun b hb c hc => ?_) (hl.live ▸ h.live.nodup)
  exact h.eq_of_addr_eq (hl.mem_live.mp hb) (hl.mem_live.mp hc)

/-- **The counters differ by the number of allocations**: their difference does not wrap. -/
theorem count (hl : Ledger h allocs frees blocks) (hpos : 0 < limit) (hlimit : limit ≤ 2 ^ 64) :
    (allocs - frees).toNat = blocks.card := by
  have hcard : blocks.card < limit := by
    rw [← hl.live]
    exact h.card_lt hpos
  rw [hl.balance, UInt64.toNat_ofNat']
  exact Nat.mod_eq_of_lt (by omega)

end Ledger

/-! ## What variables hold -/

section Held

variable {α : Type*} (owns : α → Prop) [DecidablePred owns]

/-- The values in a list of variables that own something. -/
def held (vars : List α) : Multiset α := (vars : Multiset α).filter owns

/-- Nothing is held by no variable. -/
@[simp] theorem held_nil : held owns ([] : List α) = 0 := rfl

/-- What one more variable holds. -/
theorem held_append (vars : List α) (x : α) :
    held owns (vars ++ [x]) = if owns x then x ::ₘ held owns vars else held owns vars := by
  have hperm : ((vars ++ [x] : List α) : Multiset α) = x ::ₘ (vars : Multiset α) :=
    Multiset.coe_eq_coe.mpr (List.perm_append_singleton x vars)
  simp only [held, hperm, Multiset.filter_cons]
  split <;> simp

variable {vars : List α} {i : ℕ} {x : α}

/-- A variable, and the others. -/
theorem held_of_getElem? (hx : vars[i]? = some x) :
    held owns vars = if owns x then x ::ₘ held owns (vars.eraseIdx i) else held owns (vars.eraseIdx i) := by
  obtain ⟨hlt, rfl⟩ := List.getElem?_eq_some_iff.mp hx
  have hperm : (vars : Multiset α) = vars[i] ::ₘ (vars.eraseIdx i : Multiset α) :=
    Multiset.coe_eq_coe.mpr (List.getElem_cons_eraseIdx_perm hlt).symm
  rw [held, hperm, Multiset.filter_cons]
  split <;> simp [held]

/-- A variable that is given a value, and the others. -/
theorem held_set (hlt : i < vars.length) (y : α) :
    held owns (vars.set i y) =
      if owns y then y ::ₘ held owns (vars.eraseIdx i) else held owns (vars.eraseIdx i) := by
  have hperm : (vars.set i y : Multiset α) = y ::ₘ (vars.eraseIdx i : Multiset α) :=
    Multiset.coe_eq_coe.mpr (List.set_perm_cons_eraseIdx hlt y)
  rw [held, hperm, Multiset.filter_cons]
  split <;> simp [held]

/-- A variable that is moved from: its value goes into a variable that was given up. -/
theorem held_move {null : α} {j : ℕ} (hlt : i < vars.length) (hx : vars[j]? = some x) (hne : i ≠ j)
    (hnull : ¬ owns null) : held owns ((vars.set i x).set j null) = held owns (vars.eraseIdx i) := by
  have hxj : (vars.set i x)[j]? = some x := by rw [List.getElem?_set_ne hne, hx]
  have hfrom := held_of_getElem? owns hxj
  rw [held_set owns hlt x] at hfrom
  have hjlt : j < (vars.set i x).length := (List.getElem?_eq_some_iff.mp hxj).1
  rw [held_set owns hjlt null, if_neg hnull]
  split at hfrom
  · exact ((Multiset.cons_inj_right x).mp hfrom).symm
  · exact hfrom.symm

end Held

end SimpleOlap.Lib
