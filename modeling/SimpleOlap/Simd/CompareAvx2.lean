import SimpleOlap.Simd.Arithmetic

/-!
# Vector compare kernels

The kernels of `compare_avx2.cpp` compare a register of elements at once. The result has all bits of a lane set
where the comparison holds; the sign bits of the lanes are taken out by a movemask, and go into the words of
the mask: 64 rows at a time as long as there are as many, then a register at a time, then row by row.

* `cmpeq`, `cmpgt`, `cmpFp`, `movemask`: the instructions, lane by lane; `cmpInt` and `cmpFloat` make the six
  operators of them.
* `assemble32`, `assemble64`: a word out of 8 or 16 masks; `Bits` says which bits a word has, `Bits.append`
  what a shift and an OR do.
* `VectorElement`: an element type with its comparison of registers; `compareLoops`: the three loops.
* `compareKernels_agree`: the kernels write what the scalar ones write.
-/

namespace SimpleOlap

open Lib

namespace Avx2

/-! ## Instructions -/

section

variable {n : ℕ} {α : Type}

/-- A lane of a comparison. -/
def laneMask (w : ℕ) (holds : Bool) : BitVec w := if holds then BitVec.allOnes w else 0

/-- `_mm256_cmpeq_epi32`, `_mm256_cmpeq_epi64`. -/
def cmpeq [DecidableEq α] (w : ℕ) (a b : Vector α n) : Vector (BitVec w) n :=
  Vector.zipWith (fun x y => laneMask w (decide (x = y))) a b

/-- `_mm256_cmpgt_epi32`, `_mm256_cmpgt_epi64`. -/
def cmpgt [LT α] [DecidableLT α] (w : ℕ) (a b : Vector α n) : Vector (BitVec w) n :=
  Vector.zipWith (fun x y => laneMask w (decide (y < x))) a b

/-- `_mm256_xor_si256`. -/
def xor {w : ℕ} (a b : Vector (BitVec w) n) : Vector (BitVec w) n := Vector.zipWith (· ^^^ ·) a b

/-- `_mm256_set1`, every lane the same. -/
def set1 (x : α) : Vector α n := Vector.replicate n x

/-- The predicates of the floating-point comparison: ordered ones are false on NaN, the unordered one is
true. -/
inductive CmpPredicate
  | eqOQ | neqUQ | gtOQ | geOQ | ltOQ | leOQ

/-- A predicate on two values. -/
def CmpPredicate.holds (predicate : CmpPredicate) (x y : Fp) : Bool :=
  let unordered := x.isNan || y.isNan
  match predicate with
  | eqOQ => !unordered && decide (x.key = y.key)
  | neqUQ => unordered || decide (x.key ≠ y.key)
  | gtOQ => !unordered && decide (y.key < x.key)
  | geOQ => !unordered && decide (y.key ≤ x.key)
  | ltOQ => !unordered && decide (x.key < y.key)
  | leOQ => !unordered && decide (x.key ≤ y.key)

/-- `_mm256_cmp_ps`, `_mm256_cmp_pd`. -/
def cmpFp [Numeric α] (w : ℕ) (a b : Vector α n) (predicate : CmpPredicate) : Vector (BitVec w) n :=
  Vector.zipWith (fun x y => laneMask w (predicate.holds (Numeric.value x) (Numeric.value y))) a b

/-- `_mm256_movemask_ps`, `_mm256_movemask_pd`: the sign bits of the lanes. -/
def movemask {w : ℕ} (cmp : Vector (BitVec w) n) : BitVec 64 :=
  (BitVec.ofBoolListLE (cmp.toList.map BitVec.msb)).setWidth 64

/-- The six operators on integers, out of two instructions. -/
def cmpInt [DecidableEq α] [LT α] [DecidableLT α] (w : ℕ) (a b : Vector α n) (op : CmpOp) :
    Vector (BitVec w) n :=
  match op with
  | .eq => cmpeq w a b
  | .ne => xor (cmpeq w a b) (set1 (BitVec.allOnes w))
  | .gt => cmpgt w a b
  | .lt => cmpgt w b a
  | .ge => xor (cmpgt w b a) (set1 (BitVec.allOnes w))
  | .le => xor (cmpgt w a b) (set1 (BitVec.allOnes w))

/-- The six operators on floating-point numbers. -/
def cmpFloat [Numeric α] (w : ℕ) (a b : Vector α n) (op : CmpOp) : Vector (BitVec w) n :=
  match op with
  | .eq => cmpFp w a b .eqOQ
  | .ne => cmpFp w a b .neqUQ
  | .gt => cmpFp w a b .gtOQ
  | .ge => cmpFp w a b .geOQ
  | .lt => cmpFp w a b .ltOQ
  | .le => cmpFp w a b .leOQ

end

/-- Source: CmpI32. -/
def cmpI32 : Vector Int32 8 → Vector Int32 8 → CmpOp → Vector (BitVec 32) 8 := cmpInt 32

/-- Source: CmpI64. -/
def cmpI64 : Vector Int64 4 → Vector Int64 4 → CmpOp → Vector (BitVec 64) 4 := cmpInt 64

/-- Source: CmpF32. -/
def cmpF32 : Vector Single 8 → Vector Single 8 → CmpOp → Vector (BitVec 32) 8 := cmpFloat 32

/-- Source: CmpF64. -/
def cmpF64 : Vector Double 4 → Vector Double 4 → CmpOp → Vector (BitVec 64) 4 := cmpFloat 64

/-! ## The sign bits of a comparison -/

section

variable {n w : ℕ} {α : Type}

/-- The sign bit of a lane. -/
theorem msb_laneMask (hw : 0 < w) (holds : Bool) : (laneMask w holds).msb = holds := by
  cases holds with
  | false => simp [laneMask]
  | true => exact BitVec.msb_allOnes hw

/-- The lanes say whether a test holds. -/
def Says (cmp : Vector (BitVec w) n) (test : ℕ → Bool) : Prop := ∀ i (h : i < n), cmp[i].msb = test i

/-- The complement of a comparison. -/
theorem Says.xor {cmp : Vector (BitVec w) n} {test : ℕ → Bool} (hw : 0 < w) (h : Says cmp test) :
    Says (Avx2.xor cmp (set1 (BitVec.allOnes w))) fun i => !test i := by
  intro i hi
  rw [Avx2.xor, Vector.getElem_zipWith, set1, Vector.getElem_replicate, BitVec.msb_xor,
    BitVec.msb_allOnes hw, h i hi, Bool.xor_true]

variable {a b : ℕ → α}

/-- A register with the elements of a row and those behind it. -/
def register (n : ℕ) (a : ℕ → α) : Vector α n := Vector.ofFn fun i => a i

/-- Lane by lane. -/
theorem says_zipWith {test : α → α → Bool} (hw : 0 < w) :
    Says (Vector.zipWith (fun x y => laneMask w (test x y)) (register n a) (register n b))
      fun i => test (a i) (b i) := by
  intro i hi
  rw [Vector.getElem_zipWith, msb_laneMask hw, register, register, Vector.getElem_ofFn, Vector.getElem_ofFn]

/-- Equality, lane by lane. -/
theorem says_cmpeq [DecidableEq α] (hw : 0 < w) :
    Says (cmpeq w (register n a) (register n b)) fun i => decide (a i = b i) := says_zipWith hw

/-- Order, lane by lane. -/
theorem says_cmpgt [LT α] [DecidableLT α] (hw : 0 < w) :
    Says (cmpgt w (register n a) (register n b)) fun i => decide (b i < a i) := says_zipWith hw

/-- A floating comparison, lane by lane. -/
theorem says_cmpFp [Numeric α] (hw : 0 < w) (predicate : CmpPredicate) :
    Says (cmpFp w (register n a) (register n b) predicate)
      fun i => predicate.holds (Numeric.value (a i)) (Numeric.value (b i)) := says_zipWith hw

/-- A movemask has the bits that the lanes say. -/
theorem getLsbD_movemask {cmp : Vector (BitVec w) n} {test : ℕ → Bool} (h : Says cmp test) (hn : n ≤ 64) (i : ℕ) :
    (movemask cmp).getLsbD i = (decide (i < n) && test i) := by
  rw [movemask, BitVec.getLsbD_setWidth, BitVec.getLsbD_ofBoolListLE]
  by_cases hi : i < n
  · have hlen : i < (cmp.toList.map BitVec.msb).length := by simpa using hi
    rw [List.getD_eq_getElem?_getD, List.getElem?_eq_getElem hlen, Option.getD_some, List.getElem_map,
      Vector.getElem_toList, h i hi, decide_eq_true hi, decide_eq_true (hi.trans_le hn)]
  · have hlen : (cmp.toList.map BitVec.msb).length ≤ i := by simpa using hi
    rw [List.getD_eq_getElem?_getD, List.getElem?_eq_none hlen, Option.getD_none, decide_eq_false hi,
      Bool.and_false, Bool.false_and]

end

/-! ## Words out of masks -/

/-- A word has the bits that a test says below `n`, and no others. -/
def Bits (word : BitVec 64) (n : ℕ) (test : ℕ → Bool) : Prop :=
  ∀ i, word.getLsbD i = (decide (i < n) && test i)

variable {test : ℕ → Bool}

/-- Bits put behind others. -/
theorem Bits.append {a b : BitVec 64} {n k : ℕ} (ha : Bits a n test) (hb : Bits b k fun i => test (n + i))
    (hnk : n + k ≤ 64) : Bits (a ||| (b <<< n)) (n + k) test := by
  intro i
  rw [BitVec.getLsbD_or, BitVec.getLsbD_shiftLeft, ha i, hb]
  by_cases hi : i < n
  · have hboth : i < n + k := by omega
    rw [decide_eq_true hi, decide_eq_true hboth, Bool.not_true, Bool.and_false, Bool.false_and, Bool.or_false]
  · have hsum : n + (i - n) = i := by omega
    have hiff : i - n < k ↔ i < n + k := by omega
    simp only [decide_eq_false hi, Bool.false_and, Bool.false_or, hsum, decide_eq_decide.mpr hiff, Bool.not_false,
      Bool.and_true]
    by_cases hboth : i < n + k
    · rw [decide_eq_true hboth, decide_eq_true (hboth.trans_le hnk), Bool.true_and]
    · rw [decide_eq_false hboth, Bool.false_and, Bool.and_false]

/-- Four times as many bits. -/
theorem bits_four {a b c d : BitVec 64} {n : ℕ} (ha : Bits a n test) (hb : Bits b n fun i => test (n + i))
    (hc : Bits c n fun i => test (2 * n + i)) (hd : Bits d n fun i => test (3 * n + i)) (hn : 4 * n ≤ 64) :
    Bits (a ||| (b <<< n) ||| (c <<< (2 * n)) ||| (d <<< (3 * n))) (4 * n) test := by
  have h2 : Bits (a ||| (b <<< n)) (2 * n) test := by
    rw [Nat.two_mul]
    exact ha.append hb (by omega)
  have h3 : Bits (a ||| (b <<< n) ||| (c <<< (2 * n))) (3 * n) test := by
    rw [Nat.succ_mul 2]
    exact h2.append hc (by omega)
  rw [Nat.succ_mul 3]
  exact h3.append hd (by omega)

/-- A word out of 8 masks of 8 rows, in two chains. -/
def assemble32 (m : ℕ → BitVec 64) : BitVec 64 :=
  let low := m 0 ||| (m 1 <<< 8) ||| (m 2 <<< 16) ||| (m 3 <<< 24)
  let high := m 4 ||| (m 5 <<< 8) ||| (m 6 <<< 16) ||| (m 7 <<< 24)
  low ||| (high <<< 32)

/-- A word out of 16 masks of 4 rows, in four chains. -/
def assemble64 (m : ℕ → BitVec 64) : BitVec 64 :=
  let q0 := m 0 ||| (m 1 <<< 4) ||| (m 2 <<< 8) ||| (m 3 <<< 12)
  let q1 := m 4 ||| (m 5 <<< 4) ||| (m 6 <<< 8) ||| (m 7 <<< 12)
  let q2 := m 8 ||| (m 9 <<< 4) ||| (m 10 <<< 8) ||| (m 11 <<< 12)
  let q3 := m 12 ||| (m 13 <<< 4) ||| (m 14 <<< 8) ||| (m 15 <<< 12)
  q0 ||| (q1 <<< 16) ||| (q2 <<< 32) ||| (q3 <<< 48)

/-- Four masks in a row. -/
theorem bits_chain {m : ℕ → BitVec 64} {n : ℕ} (h : ∀ k, Bits (m k) n fun i => test (k * n + i)) (hn : 4 * n ≤ 64)
    (k : ℕ) : Bits (m k ||| (m (k + 1) <<< n) ||| (m (k + 2) <<< (2 * n)) ||| (m (k + 3) <<< (3 * n))) (4 * n)
      fun i => test (k * n + i) := by
  have hnext : ∀ j, Bits (m (k + j)) n fun i => test (k * n + (j * n + i)) := by
    intro j
    have hj := h (k + j)
    simpa only [Nat.add_mul, Nat.add_assoc] using hj
  exact bits_four (h k) (by simpa using hnext 1) (hnext 2) (hnext 3) hn

/-- Eight masks of eight lanes make a word. -/
theorem bits_assemble32 {m : ℕ → BitVec 64} (h : ∀ k, Bits (m k) 8 fun i => test (k * 8 + i)) :
    Bits (assemble32 m) 64 test := by
  have hlow := bits_chain h (by decide) 0
  simp only [Nat.zero_mul, Nat.zero_add] at hlow
  exact hlow.append (bits_chain h (by decide) 4) (by decide)

/-- Sixteen masks of four lanes make a word. -/
theorem bits_assemble64 {m : ℕ → BitVec 64} (h : ∀ k, Bits (m k) 4 fun i => test (k * 4 + i)) :
    Bits (assemble64 m) 64 test := by
  have hlow := bits_chain h (by decide) 0
  simp only [Nat.zero_mul, Nat.zero_add] at hlow
  exact bits_four hlow (bits_chain h (by decide) 4) (bits_chain h (by decide) 8) (bits_chain h (by decide) 12)
    (by decide)

end Avx2

/-! ## Element types -/

/-- An element type of the vector kernels: the number of lanes of a register, the comparison of two registers,
and how a word is put together. -/
class VectorElement (α : Type) extends Numeric α where
  lanes : ℕ
  laneBits : ℕ
  cmp : Vector α lanes → Vector α lanes → CmpOp → Vector (BitVec laneBits) lanes
  assemble : (ℕ → BitVec 64) → BitVec 64
  lanes_pos : 0 < lanes
  lanes_dvd : lanes ∣ 64
  says_cmp : ∀ (a b : ℕ → α) (op : CmpOp),
    Avx2.Says (cmp (Avx2.register lanes a) (Avx2.register lanes b) op) fun i => compareTypedValue (a i) op (b i)
  bits_assemble : ∀ {m : ℕ → BitVec 64} {test : ℕ → Bool},
    (∀ k, Avx2.Bits (m k) lanes fun i => test (k * lanes + i)) → Avx2.Bits (assemble m) 64 test

namespace Avx2

section

variable {α : Type} {w : ℕ} {a b : ℕ → α}

/-- The operators on integers: what an order compares. -/
theorem says_cmpInt [Numeric α] [DecidableEq α] [LT α] [DecidableLT α] (hw : 0 < w)
    (heq : ∀ x y : α, Numeric.eq x y = decide (x = y)) (hlt : ∀ x y : α, Numeric.lt x y = decide (x < y))
    (hle : ∀ x y : α, Numeric.le x y = !decide (y < x)) (n : ℕ) (op : CmpOp) :
    Says (cmpInt w (register n a) (register n b) op) fun i => compareTypedValue (a i) op (b i) := by
  cases op with
  | eq => simpa only [cmpInt, compareTypedValue, heq] using says_cmpeq hw
  | ne => simpa only [cmpInt, compareTypedValue, heq] using (says_cmpeq hw).xor hw
  | gt => simpa only [cmpInt, compareTypedValue, hlt] using says_cmpgt hw
  | lt => simpa only [cmpInt, compareTypedValue, hlt] using says_cmpgt hw
  | ge => simpa only [cmpInt, compareTypedValue, hle] using (says_cmpgt hw).xor hw
  | le => simpa only [cmpInt, compareTypedValue, hle] using (says_cmpgt hw).xor hw

/-- A predicate is the comparison of the values, also of NaN. -/
theorem predicate_holds (x y : Fp) :
    CmpPredicate.eqOQ.holds x y = x.eq y ∧ CmpPredicate.neqUQ.holds x y = !x.eq y ∧
      CmpPredicate.gtOQ.holds x y = y.lt x ∧ CmpPredicate.geOQ.holds x y = y.le x ∧
      CmpPredicate.ltOQ.holds x y = x.lt y ∧ CmpPredicate.leOQ.holds x y = x.le y := by
  unfold CmpPredicate.holds Fp.eq Fp.lt Fp.le
  cases x.isNan <;> cases y.isNan <;> simp

/-- The comparison of floating lanes is that of the scalar kernel. -/
theorem says_cmpFloat [Numeric α] (hw : 0 < w) (n : ℕ) (op : CmpOp) :
    Says (cmpFloat w (register n a) (register n b) op) fun i => compareTypedValue (a i) op (b i) := by
  have hholds := fun i => predicate_holds (Numeric.value (a i)) (Numeric.value (b i))
  have hsays (predicate : CmpPredicate) : Says (cmpFp w (register n a) (register n b) predicate)
      fun i => predicate.holds (Numeric.value (a i)) (Numeric.value (b i)) := says_cmpFp hw predicate
  cases op with
  | eq => simpa only [cmpFloat, compareTypedValue, Numeric.eq_value, hholds] using hsays .eqOQ
  | ne => simpa only [cmpFloat, compareTypedValue, Numeric.eq_value, hholds] using hsays .neqUQ
  | gt => simpa only [cmpFloat, compareTypedValue, Numeric.lt_value, hholds] using hsays .gtOQ
  | ge => simpa only [cmpFloat, compareTypedValue, Numeric.le_value, hholds] using hsays .geOQ
  | lt => simpa only [cmpFloat, compareTypedValue, Numeric.lt_value, hholds] using hsays .ltOQ
  | le => simpa only [cmpFloat, compareTypedValue, Numeric.le_value, hholds] using hsays .leOQ

end

end Avx2

open Avx2

/-- Lanes of INT32. Source: `compare_avx2.cpp`. -/
instance : VectorElement Int32 where
  lanes := 8
  laneBits := 32
  cmp := cmpI32
  assemble := assemble32
  lanes_pos := by decide
  lanes_dvd := by decide
  says_cmp a b op := by
    refine says_cmpInt (by decide) (fun _ _ => rfl) (fun _ _ => rfl) (fun x y => ?_) 8 op
    rw [← decide_not]
    exact decide_eq_decide.mpr Int32.not_lt.symm
  bits_assemble := bits_assemble32

/-- Lanes of INT64. Source: `compare_avx2.cpp`. -/
instance : VectorElement Int64 where
  lanes := 4
  laneBits := 64
  cmp := cmpI64
  assemble := assemble64
  lanes_pos := by decide
  lanes_dvd := by decide
  says_cmp a b op := by
    refine says_cmpInt (by decide) (fun _ _ => rfl) (fun _ _ => rfl) (fun x y => ?_) 4 op
    rw [← decide_not]
    exact decide_eq_decide.mpr Int64.not_lt.symm
  bits_assemble := bits_assemble64

/-- Lanes of FLOAT. Source: `compare_avx2.cpp`. -/
instance : VectorElement Single where
  lanes := 8
  laneBits := 32
  cmp := cmpF32
  assemble := assemble32
  lanes_pos := by decide
  lanes_dvd := by decide
  says_cmp _ _ op := says_cmpFloat (by decide) 8 op
  bits_assemble := bits_assemble32

/-- Lanes of DOUBLE. Source: `compare_avx2.cpp`. -/
instance : VectorElement Double where
  lanes := 4
  laneBits := 64
  cmp := cmpF64
  assemble := assemble64
  lanes_pos := by decide
  lanes_dvd := by decide
  says_cmp _ _ op := says_cmpFloat (by decide) 4 op
  bits_assemble := bits_assemble64

/-! ## Kernels -/

/-- `words[w] = bits`. -/
def SelectionMask.setWord (m : SelectionMask) (w : ℕ) (bits : BitVec 64) : SelectionMask :=
  ofWords m.rowCount fun i => if i = w then bits else m.word i

/-- `words[base >> 6] |= mask << (base & 63)`. Source: StoreBitsI32, StoreBitsF32, StoreBitsI64, StoreBitsF64. -/
def storeBits (words : SelectionMask) (base : ℕ) (mask : BitVec 64) : SelectionMask :=
  words.setWord (base / 64) (words.word (base / 64) ||| (mask <<< (base % 64)))

section

variable (α : Type) [VectorElement α]

/-- The three loops of a kernel: whole words, registers, rows. -/
def compareLoops (maskAt : ℕ → BitVec 64) (rowAt : ℕ → Bool) (count : ℕ) : SelectionMask :=
  let lanes := VectorElement.lanes α
  let word i := VectorElement.assemble α fun k => maskAt (i + k * lanes)
  let words := stepLoop 64 count (fun i m => m.setWord (i / 64) (word i)) 0 (SelectionMask.setNone count)
  let registers := stepLoop lanes count (fun i m => storeBits m i (maskAt i)) words.1 words.2
  (stepLoop 1 count (fun i m => if rowAt i then m.setBit i else m) registers.1 registers.2).2

/-- `_mm256_loadu`: the elements from row `i` on. -/
def load (data : Bytes) (i : ℕ) : Vector α (VectorElement.lanes α) :=
  register _ fun j => readElement α data (i + j)

variable {α}

/-- Column against constant. -/
def compareConstAvx2 (data : Bytes) (count : ℕ) (op : CmpOp) (rhs : α) : SelectionMask :=
  compareLoops α (fun i => movemask (VectorElement.cmp (load α data i) (set1 rhs) op))
    (fun i => compareTypedValue (readElement α data i) op rhs) count

variable (α)

/-- Column against column. -/
def compareColumnAvx2 (lhs rhs : Bytes) (count : ℕ) (op : CmpOp) : SelectionMask :=
  compareLoops α (fun i => movemask (VectorElement.cmp (load α lhs i) (load α rhs i) op))
    (fun i => compareTypedValue (readElement α lhs i) op (readElement α rhs i)) count

end

/-! ### What the loops write -/

/-- The rows below `n` have their results, and no other bit is set. -/
structure Upto (count : ℕ) (test : ℕ → Bool) (n : ℕ) (m : SelectionMask) : Prop where
  rowCount : m.rowCount = count
  bit : ∀ r, m.bit r = (decide (r < n) && test r)

section

variable {count : ℕ} {test : ℕ → Bool} {m : SelectionMask} {i : ℕ}

/-- The bits after a word is stored. -/
theorem bit_setWord (m : SelectionMask) (w : ℕ) (bits : BitVec 64) {r : ℕ} (hr : r < kVectorBatchSize) :
    (m.setWord w bits).bit r = if r / 64 = w then bits.getLsbD (r % 64) else m.bit r := by
  rw [SelectionMask.setWord, SelectionMask.bit_ofWords _ _ hr]
  split_ifs with h
  · rfl
  · rfl

/-- A word of 64 rows. -/
theorem Upto.setWord (h : Upto count test i m) (hcount : count ≤ kVectorBatchSize) (hi : i + 64 ≤ count)
    (hdvd : 64 ∣ i) {word : BitVec 64} (hword : Bits word 64 fun j => test (i + j)) :
    Upto count test (i + 64) (m.setWord (i / 64) word) where
  rowCount := h.rowCount
  bit r := by
    by_cases hr : r < kVectorBatchSize
    · rw [bit_setWord m _ word hr]
      split_ifs with hw
      · have hrow : i + r % 64 = r := by omega
        have hlt : r < i + 64 := by omega
        have hmod : r % 64 < 64 := Nat.mod_lt _ (by decide)
        rw [hword, decide_eq_true hmod, decide_eq_true hlt]
        simp only [hrow]
      · have hiff : r < i ↔ r < i + 64 := by omega
        rw [h.bit, decide_eq_decide.mpr hiff]
    · have hout : ¬ r < i + 64 := by omega
      rw [SelectionMask.bit_eq_false_of_le _ (Nat.not_lt.mp hr), decide_eq_false hout, Bool.false_and]

/-- A register of rows, which lie in one word. -/
theorem Upto.storeBits (h : Upto count test i m) (hcount : count ≤ kVectorBatchSize) {lanes : ℕ}
    (hi : i + lanes ≤ count) (hfit : i % 64 + lanes ≤ 64) {mask : BitVec 64}
    (hmask : Bits mask lanes fun j => test (i + j)) :
    Upto count test (i + lanes) (storeBits m i mask) where
  rowCount := h.rowCount
  bit r := by
    by_cases hr : r < kVectorBatchSize
    · rw [SimpleOlap.storeBits, bit_setWord m _ _ hr]
      split_ifs with hw
      · have hbefore : (m.word (i / 64)).getLsbD (r % 64) = (decide (r < i) && test r) := hw ▸ h.bit r
        have hmod : r % 64 < 64 := Nat.mod_lt _ (by decide)
        rw [BitVec.getLsbD_or, BitVec.getLsbD_shiftLeft, hbefore, hmask, decide_eq_true hmod]
        by_cases hlt : r < i
        · have hshift : r % 64 < i % 64 := by omega
          have hboth : r < i + lanes := by omega
          simp [hlt, hshift, hboth]
        · have hshift : ¬ r % 64 < i % 64 := by omega
          have hsub : r % 64 - i % 64 = r - i := by omega
          have hrow : i + (r - i) = r := by omega
          have hiff : r - i < lanes ↔ r < i + lanes := by omega
          simp only [hlt, hshift, hsub, hrow, hiff, decide_false, Bool.not_false, Bool.and_self, Bool.true_and,
            Bool.false_and, Bool.false_or]
      · have hiff : r < i ↔ r < i + lanes := by omega
        rw [h.bit, decide_eq_decide.mpr hiff]
    · have hout : ¬ r < i + lanes := by omega
      rw [SelectionMask.bit_eq_false_of_le _ (Nat.not_lt.mp hr), decide_eq_false hout, Bool.false_and]

/-- One row. -/
theorem Upto.row (h : Upto count test i m) (hcount : count ≤ kVectorBatchSize) (hi : i + 1 ≤ count) :
    Upto count test (i + 1) (if test i then m.setBit i else m) := by
  split_ifs with htest
  · refine ⟨h.rowCount, fun r => ?_⟩
    rw [SelectionMask.bit_setBit (by omega), h.bit]
    by_cases hr : r = i
    · simp [hr, htest]
    · have hiff : r < i ↔ r < i + 1 := by omega
      rw [decide_eq_false hr, Bool.false_or, decide_eq_decide.mpr hiff]
  · refine ⟨h.rowCount, fun r => ?_⟩
    rw [h.bit]
    by_cases hr : r = i
    · simp [hr, htest]
    · have hiff : r < i ↔ r < i + 1 := by omega
      rw [decide_eq_decide.mpr hiff]

/-- Before the first row. -/
theorem upto_setNone (hcount : count ≤ kVectorBatchSize) : Upto count test 0 (SelectionMask.setNone count) where
  rowCount := (SelectionMask.rowCount_setNone count).trans (Nat.min_eq_left hcount)
  bit r := by rw [SelectionMask.bit_setNone, decide_eq_false (Nat.not_lt_zero r), Bool.false_and]

/-- A register that starts at a multiple of its lanes ends in the word where it starts. -/
theorem mod_add_lanes_le {lanes : ℕ} (hdvd : lanes ∣ 64) (hi : lanes ∣ i) : i % 64 + lanes ≤ 64 := by
  have hmod : i % 64 < 64 := Nat.mod_lt _ (by decide)
  obtain ⟨q, hq⟩ := (Nat.dvd_mod_iff hdvd).mpr hi
  obtain ⟨k, hk⟩ := hdvd
  rw [hq, hk] at hmod
  have hlt : q < k := Nat.lt_of_mul_lt_mul_left hmod
  calc i % 64 + lanes = lanes * (q + 1) := by rw [hq, Nat.mul_succ]
    _ ≤ lanes * k := Nat.mul_le_mul_left _ hlt
    _ = 64 := hk.symm

variable (hcount : count ≤ kVectorBatchSize)
include hcount

/-- The loop over whole words ends at a multiple of 64. -/
theorem upto_words {word : ℕ → BitVec 64} (hword : ∀ i, Bits (word i) 64 fun j => test (i + j)) :
    let final := stepLoop 64 count (fun i m => m.setWord (i / 64) (word i)) 0 (SelectionMask.setNone count)
    (64 ∣ final.1 ∧ Upto count test final.1 final.2) ∧ final.1 ≤ count ∧ count < final.1 + 64 := by
  refine stepLoop_invariant (fun i m => 64 ∣ i ∧ Upto count test i m) (by decide) ?_ (Nat.zero_le count)
    ⟨Nat.dvd_zero 64, upto_setNone hcount⟩
  intro i m hi h
  exact ⟨Nat.dvd_add h.1 (Nat.dvd_refl 64), h.2.setWord hcount hi h.1 (hword i)⟩

/-- The loop over registers goes on from there. -/
theorem upto_registers {lanes : ℕ} (hpos : 0 < lanes) (hdvd : lanes ∣ 64) {maskAt : ℕ → BitVec 64}
    (hmask : ∀ i, Bits (maskAt i) lanes fun j => test (i + j)) (hi : lanes ∣ i) (hle : i ≤ count)
    (h : Upto count test i m) :
    let final := stepLoop lanes count (fun i m => storeBits m i (maskAt i)) i m
    (lanes ∣ final.1 ∧ Upto count test final.1 final.2) ∧ final.1 ≤ count ∧ count < final.1 + lanes := by
  refine stepLoop_invariant (fun i m => lanes ∣ i ∧ Upto count test i m) hpos ?_ hle ⟨hi, h⟩
  intro i m hi h
  exact ⟨Nat.dvd_add h.1 (Nat.dvd_refl lanes), h.2.storeBits hcount hi (mod_add_lanes_le hdvd h.1) (hmask i)⟩

/-- The loop over rows goes on to the end. -/
theorem upto_rows (hle : i ≤ count) (h : Upto count test i m) :
    Upto count test count (stepLoop 1 count (fun i m => if test i then m.setBit i else m) i m).2 := by
  obtain ⟨hfinal, hbefore, hafter⟩ := stepLoop_invariant (Upto count test) Nat.one_pos
    (fun i m hi h => h.row hcount hi) hle h
  rwa [Nat.le_antisymm hbefore (Nat.lt_succ_iff.mp hafter)] at hfinal

/-- **The three loops give every row its result.** -/
theorem upto_compareLoops (α : Type) [VectorElement α] {maskAt : ℕ → BitVec 64}
    (hmask : ∀ i, Bits (maskAt i) (VectorElement.lanes α) fun j => test (i + j)) :
    Upto count test count (compareLoops α maskAt test count) := by
  have hword : ∀ i, Bits (VectorElement.assemble α fun k => maskAt (i + k * VectorElement.lanes α)) 64
      fun j => test (i + j) := by
    intro i
    refine VectorElement.bits_assemble fun k => ?_
    simpa only [Nat.add_assoc] using hmask (i + k * VectorElement.lanes α)
  obtain ⟨⟨hdvd, hwords⟩, hwords_le, -⟩ := upto_words hcount hword
  obtain ⟨⟨-, hregisters⟩, hregisters_le, -⟩ := upto_registers hcount VectorElement.lanes_pos
    VectorElement.lanes_dvd hmask (VectorElement.lanes_dvd.trans hdvd) hwords_le hwords
  exact upto_rows hcount hregisters_le hregisters

end

/-! ### The kernels -/

/-- The bits tell masks of one row count apart. -/
theorem SelectionMask.ext_bit {m m' : SelectionMask} (hcount : m.rowCount = m'.rowCount)
    (hbit : ∀ r, m.bit r = m'.bit r) : m = m' := by
  have hword : ∀ i < 16, m.word i = m'.word i := by
    intro i _
    apply BitVec.eq_of_getLsbD_eq
    intro j hj
    have h := hbit (i * 64 + j)
    have hdiv : (i * 64 + j) / 64 = i := by omega
    have hmod : (i * 64 + j) % 64 = j := by omega
    rwa [bit, bit, hdiv, hmod] at h
  cases m with
  | mk words n =>
    cases m' with
    | mk words' n' =>
      cases hcount
      congr 1
      apply Vector.ext
      intro i hi
      simpa [word, hi] using hword i hi

section

variable {α : Type} [VectorElement α] {count : ℕ}

omit [VectorElement α] in
/-- A register of one value. -/
theorem register_const (n : ℕ) (x : α) : register n (fun _ => x) = set1 x := by
  apply Vector.ext
  intro i hi
  rw [register, set1, Vector.getElem_ofFn, Vector.getElem_replicate]

/-- A register fits in a word. -/
theorem lanes_le : VectorElement.lanes α ≤ 64 := Nat.le_of_dvd (by decide) VectorElement.lanes_dvd

/-- The mask of one comparison. -/
theorem bits_cmp (a b : ℕ → α) (op : CmpOp) :
    Bits (movemask (VectorElement.cmp (register _ a) (register _ b) op)) (VectorElement.lanes α)
      fun j => compareTypedValue (a j) op (b j) :=
  fun i => getLsbD_movemask (VectorElement.says_cmp a b op) lanes_le i

/-- The vector loop and its tail, against a constant. -/
theorem upto_compareConstAvx2 (data : Bytes) (hcount : count ≤ kVectorBatchSize) (op : CmpOp) (rhs : α) :
    Upto count (fun i => compareTypedValue (readElement α data i) op rhs) count
      (compareConstAvx2 data count op rhs) := by
  refine upto_compareLoops hcount α fun i => ?_
  rw [← register_const]
  exact bits_cmp (fun j => readElement α data (i + j)) (fun _ => rhs) op

/-- The vector loop and its tail, of two columns. -/
theorem upto_compareColumnAvx2 (lhs rhs : Bytes) (hcount : count ≤ kVectorBatchSize) (op : CmpOp) :
    Upto count (fun i => compareTypedValue (readElement α lhs i) op (readElement α rhs i)) count
      (compareColumnAvx2 α lhs rhs count op) :=
  upto_compareLoops hcount α fun i =>
    bits_cmp (fun j => readElement α lhs (i + j)) (fun j => readElement α rhs (i + j)) op

/-- A kernel writes the mask of another one: below the count the results of the rows, and nothing else. -/
def Writes (count : ℕ) (test : ℕ → Bool) (mask other : SelectionMask) : Prop :=
  mask = other ∧ ∀ i, mask.bit i = (decide (i < count) && test i)

/-- The kernels write the same mask, against a constant. -/
theorem writes_const (data : Bytes) (hcount : count ≤ kVectorBatchSize) (op : CmpOp) (rhs : α) :
    Writes count (fun i => compareTypedValue (readElement α data i) op rhs) (compareConstAvx2 data count op rhs)
      (compareConst data count op rhs) := by
  have h := upto_compareConstAvx2 data hcount op rhs
  refine ⟨SelectionMask.ext_bit ?_ fun r => ?_, h.bit⟩
  · rw [h.rowCount, rowCount_compareConst data hcount]
  · rw [h.bit, bit_compareConst data hcount]

/-- The kernels write the same mask, of two columns. -/
theorem writes_column (α : Type) [VectorElement α] (lhs rhs : Bytes) (hcount : count ≤ kVectorBatchSize) (op : CmpOp) :
    Writes count (fun i => compareTypedValue (readElement α lhs i) op (readElement α rhs i))
      (compareColumnAvx2 α lhs rhs count op) (compareColumn α lhs rhs count op) := by
  have h := @upto_compareColumnAvx2 α _ count lhs rhs hcount op
  refine ⟨SelectionMask.ext_bit ?_ fun r => ?_, h.bit⟩
  · rw [h.rowCount, rowCount_compareColumn lhs rhs hcount]
  · rw [h.bit, bit_compareColumn lhs rhs hcount]

end

/-! ## The table of kernels -/

/-- Source: `compare_kernel.h` CompareKernels. -/
structure CompareKernels where
  i32Const : Bytes → ℕ → CmpOp → Int32 → SelectionMask
  i64Const : Bytes → ℕ → CmpOp → Int64 → SelectionMask
  f32Const : Bytes → ℕ → CmpOp → Single → SelectionMask
  f64Const : Bytes → ℕ → CmpOp → Double → SelectionMask
  i32Column : Bytes → Bytes → ℕ → CmpOp → SelectionMask
  i64Column : Bytes → Bytes → ℕ → CmpOp → SelectionMask
  f32Column : Bytes → Bytes → ℕ → CmpOp → SelectionMask
  f64Column : Bytes → Bytes → ℕ → CmpOp → SelectionMask

/-- The kernels of a backend. Source: InstallScalarCompareKernels, InstallAvx2CompareKernels. -/
def compareKernels : Backend → CompareKernels
  | .scalar =>
    { i32Const := compareConst
      i64Const := compareConst
      f32Const := compareConst
      f64Const := compareConst
      i32Column := compareColumn Int32
      i64Column := compareColumn Int64
      f32Column := compareColumn Single
      f64Column := compareColumn Double }
  | .avx2 =>
    { i32Const := compareConstAvx2
      i64Const := compareConstAvx2
      f32Const := compareConstAvx2
      f64Const := compareConstAvx2
      i32Column := compareColumnAvx2 Int32
      i64Column := compareColumnAvx2 Int64
      f32Column := compareColumnAvx2 Single
      f64Column := compareColumnAvx2 Double }

/-- **The vector kernels write what the scalar ones write.** Bit `i` of the mask is the comparison of element
`i` for the rows below the count, and no bit at or behind the count is set. -/
theorem compareKernels_agree {count : ℕ} (hcount : count ≤ kVectorBatchSize) (op : CmpOp) :
    (∀ data rhs, Writes count (fun i => compareTypedValue (readElement Int32 data i) op rhs)
      ((compareKernels .avx2).i32Const data count op rhs) ((compareKernels .scalar).i32Const data count op rhs)) ∧
    (∀ data rhs, Writes count (fun i => compareTypedValue (readElement Int64 data i) op rhs)
      ((compareKernels .avx2).i64Const data count op rhs) ((compareKernels .scalar).i64Const data count op rhs)) ∧
    (∀ data rhs, Writes count (fun i => compareTypedValue (readElement Single data i) op rhs)
      ((compareKernels .avx2).f32Const data count op rhs) ((compareKernels .scalar).f32Const data count op rhs)) ∧
    (∀ data rhs, Writes count (fun i => compareTypedValue (readElement Double data i) op rhs)
      ((compareKernels .avx2).f64Const data count op rhs) ((compareKernels .scalar).f64Const data count op rhs)) ∧
    (∀ lhs rhs, Writes count
      (fun i => compareTypedValue (readElement Int32 lhs i) op (readElement Int32 rhs i))
      ((compareKernels .avx2).i32Column lhs rhs count op) ((compareKernels .scalar).i32Column lhs rhs count op)) ∧
    (∀ lhs rhs, Writes count
      (fun i => compareTypedValue (readElement Int64 lhs i) op (readElement Int64 rhs i))
      ((compareKernels .avx2).i64Column lhs rhs count op) ((compareKernels .scalar).i64Column lhs rhs count op)) ∧
    (∀ lhs rhs, Writes count
      (fun i => compareTypedValue (readElement Single lhs i) op (readElement Single rhs i))
      ((compareKernels .avx2).f32Column lhs rhs count op) ((compareKernels .scalar).f32Column lhs rhs count op)) ∧
    ∀ lhs rhs, Writes count
      (fun i => compareTypedValue (readElement Double lhs i) op (readElement Double rhs i))
      ((compareKernels .avx2).f64Column lhs rhs count op) ((compareKernels .scalar).f64Column lhs rhs count op) :=
  ⟨fun data rhs => writes_const data hcount op rhs, fun data rhs => writes_const data hcount op rhs,
    fun data rhs => writes_const data hcount op rhs, fun data rhs => writes_const data hcount op rhs,
    fun lhs rhs => writes_column Int32 lhs rhs hcount op, fun lhs rhs => writes_column Int64 lhs rhs hcount op,
    fun lhs rhs => writes_column Single lhs rhs hcount op, fun lhs rhs => writes_column Double lhs rhs hcount op⟩

/-- The integers 0 to 9, as bytes. -/
def tenIntegers : List UInt8 := (List.range 10).flatMap fun i => [i.toUInt8, 0, 0, 0]

/-- A vector of eight integers, two more, and a constant. -/
theorem compareKernels_agree_ten :
    ((compareKernels .avx2).i32Const tenIntegers 10 .gt 6).setBits = [7, 8, 9] := by
  have h := (compareKernels_agree (by decide : 10 ≤ kVectorBatchSize) .gt).1 tenIntegers 6
  rw [h.1]
  decide +kernel

end SimpleOlap
