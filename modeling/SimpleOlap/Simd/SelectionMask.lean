import SimpleOlap.Storage.Datastructs

/-!
# Selection masks

A `SelectionMask` is a bitmap of 16 words of 64 bits (`kWordCount`, `kWordBits`) over the rows of a batch,
with the number of rows it is about. Source: `selection_mask.h`, `selection_mask.cpp`.

* `SelectionMask.bit`: row `r`'s bit. Every operation is described by the bits of its result
  (`bit_setAll`, `bit_and`, ...).
* `SelectionMask.WF`: at most a batch of rows, and no bit at or behind the row count. All operations
  keep it.
* `count_eq`, `isAll_iff`, `isEmpty_iff`: the three observers in terms of the bits.
-/

namespace SimpleOlap

/-- A bit for each of at most 1024 rows. Source: `selection_mask.h` SelectionMask. -/
structure SelectionMask where
  words : Vector (BitVec 64) 16
  rowCount : ℕ
  deriving DecidableEq

namespace SelectionMask

/-- Word `i`, zero past the end. -/
def word (m : SelectionMask) (i : ℕ) : BitVec 64 := m.words[i]?.getD 0

/-- The bit of row `r`. -/
def bit (m : SelectionMask) (r : ℕ) : Bool := (m.word (r / 64)).getLsbD (r % 64)

/-- A mask given word by word. -/
def ofWords (rowCount : ℕ) (f : ℕ → BitVec 64) : SelectionMask :=
  ⟨Vector.ofFn fun i => f i, rowCount⟩

/-- The rows of a mask that is built word by word. -/
@[simp] theorem rowCount_ofWords (n : ℕ) (f : ℕ → BitVec 64) : (ofWords n f).rowCount = n := rfl

/-- The words of a mask that is built word by word. -/
theorem word_ofWords (n : ℕ) (f : ℕ → BitVec 64) (i : ℕ) :
    (ofWords n f).word i = if i < 16 then f i else 0 := by
  simp only [word, ofWords]
  by_cases h : i < 16
  · simp [h]
  · simp [h]

/-- Behind the words there are zeros. -/
theorem word_eq_zero_of_le (m : SelectionMask) {i : ℕ} (h : 16 ≤ i) : m.word i = 0 := by
  simp [word, Nat.not_lt.mpr h]

/-- Behind the words no bit is set. -/
theorem bit_eq_false_of_le (m : SelectionMask) {r : ℕ} (h : kVectorBatchSize ≤ r) :
    m.bit r = false := by
  have : 16 ≤ r / 64 := by
    simp only [kVectorBatchSize] at *
    omega
  simp [bit, m.word_eq_zero_of_le this]

/-! ## Operations -/

/-- The word with its first `rem` bits set. -/
def lowMask (rem : ℕ) : BitVec 64 := (1#64 <<< rem) - 1#64

/-- The lowest bits are set. -/
theorem getLsbD_lowMask {rem : ℕ} (h : rem < 64) (i : ℕ) :
    (lowMask rem).getLsbD i = decide (i < rem) := by
  have hlt : 2 ^ rem < 2 ^ 64 := Nat.pow_lt_pow_right (by decide) h
  have hnat : (lowMask rem).toNat = 2 ^ rem - 1 := by
    have hpos := Nat.two_pow_pos rem
    simp only [lowMask, BitVec.toNat_sub, BitVec.toNat_shiftLeft, BitVec.toNat_ofNat,
      Nat.shiftLeft_eq]
    omega
  rw [← BitVec.testBit_toNat, hnat, Nat.testBit_two_pow_sub_one]

/-- Zero the bits at and behind the row count. -/
def clearUnusedBits (m : SelectionMask) : SelectionMask :=
  if m.rowCount = 0 then ofWords m.rowCount fun _ => 0
  else
    let usedWords := (m.rowCount + 64 - 1) / 64
    let rem := m.rowCount % 64
    let trimmed := ofWords m.rowCount fun i => if usedWords ≤ i then 0 else m.word i
    if rem ≠ 0 ∧ usedWords > 0 then
      ofWords m.rowCount fun i =>
        if i = usedWords - 1 then trimmed.word i &&& lowMask rem else trimmed.word i
    else trimmed

/-- Source: SetAll. -/
def setAll (rowCount : ℕ) : SelectionMask :=
  clearUnusedBits (ofWords (min rowCount kVectorBatchSize) fun _ => BitVec.allOnes 64)

/-- Source: SetNone. -/
def setNone (rowCount : ℕ) : SelectionMask := ofWords (min rowCount kVectorBatchSize) fun _ => 0

/-- Source: And. -/
def and (m rhs : SelectionMask) : SelectionMask :=
  clearUnusedBits (ofWords (min m.rowCount rhs.rowCount) fun i => m.word i &&& rhs.word i)

/-- Source: Or. -/
def or (m rhs : SelectionMask) : SelectionMask :=
  clearUnusedBits (ofWords (max m.rowCount rhs.rowCount) fun i => m.word i ||| rhs.word i)

/-- Source: AndNot. -/
def andNot (m rhs : SelectionMask) : SelectionMask :=
  clearUnusedBits (ofWords m.rowCount fun i => m.word i &&& ~~~rhs.word i)

/-- The kernels' write of one row: `words[i >> 6] |= 1 << (i & 63)`. -/
def setBit (m : SelectionMask) (r : ℕ) : SelectionMask :=
  ofWords m.rowCount fun i =>
    if i = r / 64 then m.word i ||| (1#64 <<< (r % 64)) else m.word i

/-- Source: Empty. -/
def isEmpty (m : SelectionMask) : Bool := (List.range 16).all fun i => m.word i == 0

/-- Source: IsAll. -/
def isAll (m : SelectionMask) : Bool :=
  if m.rowCount = 0 then true
  else
    let usedWords := (m.rowCount + 64 - 1) / 64
    let rem := m.rowCount % 64
    let lastMask := if rem = 0 then BitVec.allOnes 64 else lowMask rem
    ((List.range (usedWords - 1)).all fun i => m.word i == BitVec.allOnes 64) &&
      (m.word (usedWords - 1) &&& lastMask) == lastMask

/-- The number of set bits of a word. -/
def popcount (w : BitVec 64) : ℕ := (List.range 64).countP fun i => w.getLsbD i

/-- Source: Count. -/
def count (m : SelectionMask) : ℕ :=
  ((List.range ((m.rowCount + 64 - 1) / 64)).map fun i => popcount (m.word i)).sum

/-- The set bits of a word, lowest first. -/
def bitsOf (w : BitVec 64) : List ℕ := (List.range 64).filter fun i => w.getLsbD i

/-- Source: ForEachSetBit: the rows that are visited, in order. -/
def setBits (m : SelectionMask) : List ℕ :=
  (List.range ((m.rowCount + 64 - 1) / 64)).flatMap fun i => (bitsOf (m.word i)).map (i * 64 + ·)

/-- Source: Test. -/
def test (m : SelectionMask) (r : ℕ) : Bool := if m.rowCount ≤ r then false else m.bit r

/-- At most a batch of rows, and no bit behind them. -/
structure WF (m : SelectionMask) : Prop where
  rowCount_le : m.rowCount ≤ kVectorBatchSize
  unused : ∀ r, m.rowCount ≤ r → m.bit r = false

/-! ## The bits of the results -/

/-- The bits of a mask that is built word by word. -/
theorem bit_ofWords (n : ℕ) (f : ℕ → BitVec 64) {r : ℕ} (h : r < kVectorBatchSize) :
    (ofWords n f).bit r = (f (r / 64)).getLsbD (r % 64) := by
  have : r / 64 < 16 := by
    simp only [kVectorBatchSize] at *
    omega
  rw [bit, word_ofWords, if_pos this]

/-- Clearing changes no row count. -/
@[simp] theorem rowCount_clearUnusedBits (m : SelectionMask) :
    m.clearUnusedBits.rowCount = m.rowCount := by
  unfold clearUnusedBits
  simp only
  split_ifs <;> rfl

/-- Clearing keeps exactly the bits before the row count. -/
theorem bit_clearUnusedBits (m : SelectionMask) (r : ℕ) :
    m.clearUnusedBits.bit r = (decide (r < m.rowCount) && m.bit r) := by
  by_cases hr : r < kVectorBatchSize
  swap
  · rw [bit_eq_false_of_le _ (Nat.not_lt.mp hr), bit_eq_false_of_le _ (Nat.not_lt.mp hr),
      Bool.and_false]
  have hword : r / 64 < 16 := by
    simp only [kVectorBatchSize] at *
    omega
  have hmod : r % 64 < 64 := Nat.mod_lt _ (by decide)
  unfold clearUnusedBits
  simp only
  split_ifs with h0 h1
  · simp [bit_ofWords _ _ hr, h0]
  · -- the last used word is masked
    have hrem : m.rowCount % 64 < 64 := Nat.mod_lt _ (by decide)
    rw [bit_ofWords _ _ hr, word_ofWords, if_pos hword]
    by_cases h2 : (m.rowCount + 64 - 1) / 64 ≤ r / 64
    · have hne : r / 64 ≠ (m.rowCount + 64 - 1) / 64 - 1 := by omega
      have hge : ¬ r < m.rowCount := by omega
      rw [if_neg hne, if_pos h2]
      simp [hge]
    · by_cases h3 : r / 64 = (m.rowCount + 64 - 1) / 64 - 1
      · have hiff : r % 64 < m.rowCount % 64 ↔ r < m.rowCount := by omega
        rw [if_pos h3, if_neg h2, BitVec.getLsbD_and, getLsbD_lowMask hrem, bit, Bool.and_comm,
          decide_eq_decide.mpr hiff]
      · have hlt : r < m.rowCount := by omega
        rw [if_neg h3, if_neg h2]
        simp [hlt, bit]
  · rw [bit_ofWords _ _ hr]
    by_cases h2 : (m.rowCount + 64 - 1) / 64 ≤ r / 64
    · have hge : ¬ r < m.rowCount := by omega
      rw [if_pos h2]
      simp [hge]
    · have hlt : r < m.rowCount := by omega
      rw [if_neg h2]
      simp [hlt, bit]

/-- A mask whose unused bits are cleared is well formed. -/
theorem WF.clearUnusedBits {m : SelectionMask} (h : m.rowCount ≤ kVectorBatchSize) :
    m.clearUnusedBits.WF where
  rowCount_le := by rwa [rowCount_clearUnusedBits]
  unused r hr := by
    rw [rowCount_clearUnusedBits] at hr
    simp [bit_clearUnusedBits, Nat.not_lt.mpr hr]

/-- The row count of a full mask. -/
@[simp] theorem rowCount_setAll (n : ℕ) : (setAll n).rowCount = min n kVectorBatchSize := by
  simp [setAll]

/-- The row count of an empty mask. -/
@[simp] theorem rowCount_setNone (n : ℕ) : (setNone n).rowCount = min n kVectorBatchSize := rfl

/-- The row count of an intersection. -/
@[simp] theorem rowCount_and (m rhs : SelectionMask) :
    (m.and rhs).rowCount = min m.rowCount rhs.rowCount := by simp [and]

/-- Setting a bit changes no row count. -/
@[simp] theorem rowCount_setBit (m : SelectionMask) (r : ℕ) : (m.setBit r).rowCount = m.rowCount :=
  rfl

/-- A full mask is well formed. -/
theorem WF.setAll (n : ℕ) : (setAll n).WF := WF.clearUnusedBits (Nat.min_le_right _ _)

/-- A full mask has the bits of its rows. -/
theorem bit_setAll (n r : ℕ) : (setAll n).bit r = decide (r < min n kVectorBatchSize) := by
  rw [SelectionMask.setAll, bit_clearUnusedBits, rowCount_ofWords]
  by_cases h : r < min n kVectorBatchSize
  · have hr : r < kVectorBatchSize := lt_of_lt_of_le h (Nat.min_le_right _ _)
    have hmod : r % 64 < 64 := Nat.mod_lt _ (by decide)
    rw [bit_ofWords _ _ hr, BitVec.getLsbD_allOnes]
    simp [hmod]
  · simp [h]

/-- An empty mask has no bit. -/
theorem bit_setNone (n r : ℕ) : (setNone n).bit r = false := by
  by_cases h : r < kVectorBatchSize
  · rw [setNone, bit_ofWords _ _ h]
    simp
  · exact bit_eq_false_of_le _ (Nat.not_lt.mp h)

/-- An empty mask is well formed. -/
theorem WF.setNone (n : ℕ) : (setNone n).WF := ⟨Nat.min_le_right _ _, fun _ _ => bit_setNone n _⟩

/-- An intersection is well formed. -/
theorem WF.and {m rhs : SelectionMask} (h : m.WF) : (m.and rhs).WF :=
  WF.clearUnusedBits (le_trans (Nat.min_le_left _ _) h.rowCount_le)

/-- **Intersection**, over the smaller row count. -/
theorem bit_and {m rhs : SelectionMask} (h : m.WF) (h' : rhs.WF) (r : ℕ) :
    (m.and rhs).bit r = (m.bit r && rhs.bit r) := by
  have hle := le_trans (Nat.min_le_left m.rowCount rhs.rowCount) h.rowCount_le
  rw [SelectionMask.and, bit_clearUnusedBits, rowCount_ofWords]
  by_cases hr : r < min m.rowCount rhs.rowCount
  · rw [bit_ofWords _ _ (lt_of_lt_of_le hr hle), BitVec.getLsbD_and]
    simp [hr, bit]
  · rcases (by omega : m.rowCount ≤ r ∨ rhs.rowCount ≤ r) with h1 | h1
    · simp [hr, h.unused r h1]
    · simp [hr, h'.unused r h1]

/-- The row count of a union. -/
@[simp] theorem rowCount_or (m rhs : SelectionMask) :
    (m.or rhs).rowCount = max m.rowCount rhs.rowCount := by simp [or]

/-- A union is well formed. -/
theorem WF.or {m rhs : SelectionMask} (h : m.WF) (h' : rhs.WF) : (m.or rhs).WF :=
  WF.clearUnusedBits (max_le h.rowCount_le h'.rowCount_le)

/-- **Union**, over the greater row count. -/
theorem bit_or {m rhs : SelectionMask} (h : m.WF) (h' : rhs.WF) (r : ℕ) :
    (m.or rhs).bit r = (m.bit r || rhs.bit r) := by
  have hle := max_le h.rowCount_le h'.rowCount_le
  rw [SelectionMask.or, bit_clearUnusedBits, rowCount_ofWords]
  by_cases hr : r < max m.rowCount rhs.rowCount
  · rw [bit_ofWords _ _ (lt_of_lt_of_le hr hle), BitVec.getLsbD_or, decide_eq_true hr]
    rfl
  · have hr' := Nat.not_lt.mp hr
    rw [h.unused r (le_trans (Nat.le_max_left _ _) hr'),
      h'.unused r (le_trans (Nat.le_max_right _ _) hr'), decide_eq_false hr]
    rfl

/-- The row count of a difference. -/
@[simp] theorem rowCount_andNot (m rhs : SelectionMask) : (m.andNot rhs).rowCount = m.rowCount := by
  simp [andNot]

/-- A difference is well formed. -/
theorem WF.andNot {m rhs : SelectionMask} (h : m.WF) : (m.andNot rhs).WF :=
  WF.clearUnusedBits h.rowCount_le

/-- **Difference.** -/
theorem bit_andNot {m rhs : SelectionMask} (h : m.WF) (r : ℕ) :
    (m.andNot rhs).bit r = (m.bit r && !rhs.bit r) := by
  rw [SelectionMask.andNot, bit_clearUnusedBits, rowCount_ofWords]
  by_cases hr : r < m.rowCount
  · have hmod : r % 64 < 64 := Nat.mod_lt _ (by decide)
    rw [bit_ofWords _ _ (lt_of_lt_of_le hr h.rowCount_le), BitVec.getLsbD_and, BitVec.getLsbD_not]
    simp [hr, hmod, bit]
  · simp [hr, h.unused r (Nat.not_lt.mp hr)]

/-- Setting a row's bit sets that bit only. -/
theorem bit_setBit {m : SelectionMask} {r : ℕ} (hr : r < kVectorBatchSize) (q : ℕ) :
    (m.setBit r).bit q = (decide (q = r) || m.bit q) := by
  by_cases hq : q < kVectorBatchSize
  swap
  · have hne : q ≠ r := by omega
    simp [bit_eq_false_of_le _ (Nat.not_lt.mp hq), hne]
  have hmod : r % 64 < 64 := Nat.mod_lt _ (by decide)
  rw [setBit, bit_ofWords _ _ hq]
  by_cases hw : q / 64 = r / 64
  · have hiff : (q % 64 = r % 64) ↔ q = r := by omega
    rw [if_pos hw, BitVec.getLsbD_or, Bool.or_comm, BitVec.getLsbD_shiftLeft, ← bit]
    congr 1
    by_cases hqr : q = r
    · subst hqr
      simp [hmod]
    · have hne : q % 64 ≠ r % 64 := fun h => hqr (hiff.mp h)
      rcases Nat.lt_or_gt_of_ne hne with hlt | hgt
      · simp [hlt, hqr]
      · have hsub : q % 64 - r % 64 ≠ 0 := by omega
        simp [hqr, BitVec.getLsbD_one, hsub]
  · have hne : q ≠ r := fun h => hw (by rw [h])
    rw [if_neg hw, ← bit]
    simp [hne]

/-- Setting the bit of a row keeps the rest unused. -/
theorem WF.setBit {m : SelectionMask} (h : m.WF) {r : ℕ} (hr : r < m.rowCount) : (m.setBit r).WF where
  rowCount_le := h.rowCount_le
  unused q hq := by
    rw [bit_setBit (lt_of_lt_of_le hr h.rowCount_le)]
    have hq' : m.rowCount ≤ q := hq
    have hne : q ≠ r := by omega
    simp [h.unused q hq', hne]

/-! ## Observers -/

/-- A mask is empty where it has no bit. -/
theorem isEmpty_iff (m : SelectionMask) : m.isEmpty = true ↔ ∀ r, m.bit r = false := by
  simp only [isEmpty, List.all_eq_true, List.mem_range, beq_iff_eq]
  constructor
  · intro h r
    rcases Nat.lt_or_ge (r / 64) 16 with hr | hr
    · rw [bit, h _ hr]
      simp
    · rw [bit, m.word_eq_zero_of_le hr]
      simp
  · intro h i _
    apply BitVec.eq_of_getLsbD_eq
    intro j hj
    have := h (i * 64 + j)
    rw [bit, show (i * 64 + j) / 64 = i by omega, show (i * 64 + j) % 64 = j by omega] at this
    simp [this]

/-- All bits of a prefix of the rows are set when the words say so. -/
theorem isAll_iff (m : SelectionMask) : m.isAll = true ↔ ∀ r < m.rowCount, m.bit r = true := by
  by_cases h0 : m.rowCount = 0
  · simp [isAll, h0]
  have hrem : m.rowCount % 64 < 64 := Nat.mod_lt _ (by decide)
  have hlast : ∀ j < 64, (if m.rowCount % 64 = 0 then BitVec.allOnes 64
      else lowMask (m.rowCount % 64)).getLsbD j =
      decide (((m.rowCount + 64 - 1) / 64 - 1) * 64 + j < m.rowCount) := by
    intro j hj
    split_ifs with h1
    · rw [BitVec.getLsbD_allOnes, decide_eq_decide]
      omega
    · rw [getLsbD_lowMask hrem, decide_eq_decide]
      omega
  rw [isAll, if_neg h0]
  simp only [Bool.and_eq_true, List.all_eq_true, List.mem_range, beq_iff_eq]
  constructor
  · rintro ⟨hfull, hend⟩ r hr
    have hmod : r % 64 < 64 := Nat.mod_lt _ (by decide)
    rcases Nat.lt_or_ge (r / 64) ((m.rowCount + 64 - 1) / 64 - 1) with hlt | hge
    · rw [bit, hfull _ hlt, BitVec.getLsbD_allOnes]
      simp [hmod]
    · have heq : r / 64 = (m.rowCount + 64 - 1) / 64 - 1 := by omega
      have hb := congrArg (fun w => w.getLsbD (r % 64)) hend
      simp only [BitVec.getLsbD_and, hlast _ hmod] at hb
      have hin : ((m.rowCount + 64 - 1) / 64 - 1) * 64 + r % 64 < m.rowCount := by omega
      rw [decide_eq_true hin, Bool.and_true] at hb
      rw [bit, heq, hb]
  · intro hall
    constructor
    · intro i hi
      apply BitVec.eq_of_getLsbD_eq
      intro j hj
      have := hall (i * 64 + j) (by omega)
      rw [bit, show (i * 64 + j) / 64 = i by omega, show (i * 64 + j) % 64 = j by omega] at this
      rw [this, BitVec.getLsbD_allOnes]
      simp [hj]
    · apply BitVec.eq_of_getLsbD_eq
      intro j hj
      rw [BitVec.getLsbD_and, hlast j hj]
      by_cases hin : ((m.rowCount + 64 - 1) / 64 - 1) * 64 + j < m.rowCount
      · have := hall _ hin
        rw [bit, show (((m.rowCount + 64 - 1) / 64 - 1) * 64 + j) / 64 =
          (m.rowCount + 64 - 1) / 64 - 1 by omega,
          show (((m.rowCount + 64 - 1) / 64 - 1) * 64 + j) % 64 = j by omega] at this
        rw [this, Bool.true_and]
      · rw [decide_eq_false hin, Bool.and_false]

/-- Counting word by word. -/
theorem countP_range_mul (p : ℕ → Bool) (k : ℕ) :
    (List.range (k * 64)).countP p =
      ((List.range k).map fun i => (List.range 64).countP fun j => p (i * 64 + j)).sum := by
  induction k with
  | zero => rfl
  | succ k ih =>
    rw [Nat.succ_mul, List.range_add, List.countP_append, ih, List.countP_map, @List.range_succ k,
      List.map_append, List.sum_append]
    simp [Function.comp_def]

/-- **The count is the number of set rows.** -/
theorem count_eq {m : SelectionMask} (h : m.WF) :
    m.count = (List.range m.rowCount).countP m.bit := by
  have hword : ∀ i, popcount (m.word i) = (List.range 64).countP fun j => m.bit (i * 64 + j) := by
    intro i
    apply List.countP_congr
    intro j hj
    have hj' : j < 64 := List.mem_range.mp hj
    rw [bit, show (i * 64 + j) / 64 = i by omega, show (i * 64 + j) % 64 = j by omega]
  rw [count, List.map_congr_left fun i _ => hword i, ← countP_range_mul]
  obtain ⟨d, hd⟩ : ∃ d, (m.rowCount + 64 - 1) / 64 * 64 = m.rowCount + d :=
    ⟨(m.rowCount + 64 - 1) / 64 * 64 - m.rowCount, by omega⟩
  rw [hd, List.range_add, List.countP_append, List.countP_map]
  simp [Function.comp_def, h.unused]

/-- Listing word by word. -/
theorem filter_range_mul (p : ℕ → Bool) (k : ℕ) :
    (List.range (k * 64)).filter p =
      (List.range k).flatMap fun i => ((List.range 64).filter fun j => p (i * 64 + j)).map (i * 64 + ·) := by
  induction k with
  | zero => rfl
  | succ k ih =>
    rw [Nat.succ_mul, List.range_add, List.filter_append, ih, List.filter_map, @List.range_succ k,
      List.flatMap_append]
    simp [Function.comp_def]

/-- **The visited rows are the set rows.** -/
theorem setBits_eq {m : SelectionMask} (h : m.WF) :
    m.setBits = (List.range m.rowCount).filter m.bit := by
  have hword : ∀ i, bitsOf (m.word i) = (List.range 64).filter fun j => m.bit (i * 64 + j) := by
    intro i
    apply List.filter_congr
    intro j hj
    have hj' : j < 64 := List.mem_range.mp hj
    rw [bit, show (i * 64 + j) / 64 = i by omega, show (i * 64 + j) % 64 = j by omega]
  rw [setBits]
  simp only [hword]
  rw [← filter_range_mul]
  obtain ⟨d, hd⟩ : ∃ d, (m.rowCount + 64 - 1) / 64 * 64 = m.rowCount + d :=
    ⟨(m.rowCount + 64 - 1) / 64 * 64 - m.rowCount, by omega⟩
  rw [hd, List.range_add, List.filter_append, List.filter_map]
  simp [Function.comp_def, h.unused]

end SelectionMask

end SimpleOlap
