import SimpleOlap.Simd.SelectionMask

/-!
# Walking over a mask

The set rows of a mask are visited word by word, and in a word from its lowest set bit up: `ctz` finds the
bit, `bits & (bits - 1)` takes it out. `SelectionMask::ForEachSetBit` does so in one go, a `SelectionCursor`
one row or one block of rows at a time. Source: `selection_mask.h`, `selection_mask.cpp`.

* `SelectionMask.forEachSetBit`: the loop; `forEachSetBit_eq`: it visits the set rows (`setBits`).
* `SelectionCursor`: the state between two calls; `next`, `nextBlock`, `Call`, `run`.
* `SelectionCursor.pending`: the rows that are still to come. A call returns the first of them
  (`run_call`), and so a run of calls returns a first part of all of them.
* `SelectionCursor.enumerates`: any interleaving of calls enumerates the mask.
-/

namespace SimpleOlap

/-! ## The lowest set bit -/

/-- `bits & (bits - 1)`. -/
def clearLowest (bits : BitVec 64) : BitVec 64 := bits &&& (bits - 1#64)

namespace SelectionMask

variable {bits : BitVec 64}

/-- Up to and with the lowest set bit, a word is that bit only. -/
theorem toNat_mod_ctz (h : bits ≠ 0) :
    bits.toNat % 2 ^ (bits.ctz.toNat + 1) = 2 ^ bits.ctz.toNat := by
  apply Nat.eq_of_testBit_eq
  intro i
  rw [Nat.testBit_mod_two_pow, Nat.testBit_two_pow, BitVec.testBit_toNat]
  rcases Nat.lt_trichotomy i bits.ctz.toNat with hlt | heq | hgt
  · rw [BitVec.getLsbD_false_of_lt_ctz hlt, Bool.and_false, decide_eq_false (by omega)]
  · rw [heq, BitVec.getLsbD_true_ctz_of_ne_zero h]
    simp
  · rw [decide_eq_false (by omega), Bool.false_and, decide_eq_false (by omega)]

/-- **The lowest set bit is taken out, and nothing else.** -/
theorem getLsbD_clearLowest (h : bits ≠ 0) (i : ℕ) :
    (clearLowest bits).getLsbD i = (decide (i ≠ bits.ctz.toNat) && bits.getLsbD i) := by
  set k := bits.ctz.toNat with hk
  have hmod := toNat_mod_ctz h
  rw [← hk] at hmod
  set q := bits.toNat / 2 ^ (k + 1) with hq
  have hbits : bits.toNat = 2 ^ (k + 1) * q + 2 ^ k := by
    rw [hq, ← hmod]
    exact (Nat.div_add_mod _ _).symm
  have hpos := Nat.two_pow_pos k
  have hlt : 2 ^ k < 2 ^ (k + 1) := Nat.pow_lt_pow_right (by decide) (Nat.lt_succ_self k)
  have hpred : (bits - 1#64).toNat = 2 ^ (k + 1) * q + (2 ^ k - 1) := by
    have hbound := bits.isLt
    rw [BitVec.toNat_sub, BitVec.toNat_ofNat]
    omega
  rw [clearLowest, BitVec.getLsbD_and, ← BitVec.testBit_toNat, ← BitVec.testBit_toNat, hpred, hbits,
    Nat.testBit_two_pow_mul_add _ hlt, Nat.testBit_two_pow_mul_add _ (by omega)]
  by_cases hi : i < k + 1
  · rw [if_pos hi, if_pos hi, Nat.testBit_two_pow, Nat.testBit_two_pow_sub_one]
    by_cases heq : i = k
    · simp [heq]
    · have hne : ¬ k = i := fun h => heq h.symm
      simp [heq, hne]
  · have hne : i ≠ k := by omega
    rw [if_neg hi, if_neg hi, Bool.and_self, decide_eq_true hne, Bool.true_and]

theorem ctz_lt (h : bits ≠ 0) : bits.ctz.toNat < 64 := by
  have hlt := BitVec.ctz_lt_iff_ne_zero.mpr h
  simpa [BitVec.lt_def] using hlt

/-- The numbers that satisfy a test, from the first one. -/
theorem filter_range_eq_cons {p : ℕ → Bool} {n k : ℕ} (hk : k < n) (hp : p k = true)
    (hlow : ∀ i < k, p i = false) :
    (List.range n).filter p = k :: (List.range n).filter fun i => decide (i ≠ k) && p i := by
  obtain ⟨d, rfl⟩ : ∃ d, n = k + (d + 1) := ⟨n - k - 1, by omega⟩
  have hnone : ∀ q : ℕ → Bool, (∀ i < k, q i = false) → (List.range k).filter q = [] := by
    intro q hq
    rw [List.filter_eq_nil_iff]
    intro i hi
    rw [hq i (List.mem_range.mp hi)]
    exact Bool.false_ne_true
  rw [List.range_add, List.filter_append, List.filter_append, hnone p hlow,
    hnone _ fun i hi => by rw [hlow i hi, Bool.and_false], List.nil_append, List.nil_append,
    List.range_succ_eq_map, List.map_cons, List.filter_cons_of_pos (by simpa using hp),
    List.filter_cons_of_neg (by simp), Nat.add_zero]
  congr 1
  apply List.filter_congr
  intro i hi
  obtain ⟨j, hj, rfl⟩ := List.mem_map.mp hi
  obtain ⟨j', -, rfl⟩ := List.mem_map.mp hj
  have hne : k + j'.succ ≠ k := by omega
  rw [decide_eq_true hne, Bool.true_and]

/-- The set bits of a word: the lowest, and those that are left without it. -/
theorem bitsOf_eq_cons (h : bits ≠ 0) : bitsOf bits = bits.ctz.toNat :: bitsOf (clearLowest bits) := by
  rw [bitsOf, filter_range_eq_cons (ctz_lt h) (BitVec.getLsbD_true_ctz_of_ne_zero h)
    fun i hi => BitVec.getLsbD_false_of_lt_ctz hi, bitsOf]
  simp only [getLsbD_clearLowest h]

@[simp] theorem bitsOf_zero : bitsOf 0 = [] := by decide

/-! ## ForEachSetBit -/

/-- The rows that the inner loop visits in word `w`; no word has more bits than the fuel. -/
def visitWord (w : ℕ) : ℕ → BitVec 64 → List ℕ
  | 0, _ => []
  | fuel + 1, bits =>
    if bits ≠ 0 then (w * 64 + bits.ctz.toNat) :: visitWord w fuel (clearLowest bits) else []

/-- The number of words that hold rows. -/
def wordCount (m : SelectionMask) : ℕ := (m.rowCount + 64 - 1) / 64

/-- Source: ForEachSetBit: the rows that it hands to the function, in order. -/
def forEachSetBit (m : SelectionMask) : List ℕ :=
  (List.range m.wordCount).flatMap fun w => visitWord w 64 (m.word w)

theorem visitWord_eq (w : ℕ) {fuel : ℕ} (h : (bitsOf bits).length ≤ fuel) :
    visitWord w fuel bits = (bitsOf bits).map (w * 64 + ·) := by
  induction fuel generalizing bits with
  | zero =>
    rw [List.length_eq_zero_iff.mp (Nat.le_zero.mp h)]
    rfl
  | succ fuel ih =>
    rw [visitWord]
    split_ifs with hbits
    · rw [bitsOf_eq_cons hbits, List.length_cons] at h
      rw [bitsOf_eq_cons hbits, List.map_cons, ih (Nat.le_of_succ_le_succ h)]
    · rw [not_ne_iff.mp hbits, bitsOf_zero, List.map_nil]

theorem length_bitsOf_le (bits : BitVec 64) : (bitsOf bits).length ≤ 64 :=
  (List.length_filter_le _ _).trans_eq List.length_range

/-- The loop visits the set rows. -/
theorem forEachSetBit_eq (m : SelectionMask) : m.forEachSetBit = m.setBits := by
  unfold forEachSetBit
  simp only [visitWord_eq _ (length_bitsOf_le _)]
  rfl

end SelectionMask

/-! ## The cursor -/

/-- Source: SelectionCursor. `remainingBits` is what is left of word `remainingWord`; the words from
`nextWord` on have not been looked at. -/
structure SelectionCursor where
  mask : SelectionMask
  nextWord : ℕ
  remainingWord : ℕ
  remainingBits : BitVec 64

/-- Source: MakeCursor. -/
def SelectionMask.makeCursor (m : SelectionMask) : SelectionCursor := ⟨m, 0, 0, 0⟩

namespace SelectionCursor

/-- The loop of EnsureBits, over the words that are left. -/
def findBits : ℕ → SelectionCursor → SelectionCursor × Bool
  | 0, c => (c, false)
  | left + 1, c =>
    let bits := c.mask.word c.nextWord
    let c := { c with nextWord := c.nextWord + 1 }
    if bits ≠ 0 then ({ c with remainingBits := bits, remainingWord := c.nextWord - 1 }, true)
    else findBits left c

/-- Source: EnsureBits. -/
def ensureBits (c : SelectionCursor) : SelectionCursor × Bool :=
  if c.remainingBits ≠ 0 then (c, true) else findBits (c.mask.wordCount - c.nextWord) c

/-- The row of the lowest remaining bit. -/
def row (c : SelectionCursor) : ℕ := c.remainingWord * 64 + c.remainingBits.ctz.toNat

/-- The cursor without its lowest remaining bit. -/
def drop (c : SelectionCursor) : SelectionCursor :=
  { c with remainingBits := clearLowest c.remainingBits }

/-- Source: Next: the row, or none where it returns false. -/
def next (c : SelectionCursor) : SelectionCursor × Option ℕ :=
  match c.ensureBits with
  | (c, false) => (c, none)
  | (c, true) => (c.drop, some c.row)

/-- Source: NextBlock: the rows that are written; their number is returned. -/
def nextBlock : ℕ → SelectionCursor → SelectionCursor × List ℕ
  | 0, c => (c, [])
  | capacity + 1, c =>
    match c.ensureBits with
    | (c, false) => (c, [])
    | (c, true) =>
      let block := nextBlock capacity c.drop
      (block.1, c.row :: block.2)

/-! ## The rows that are still to come -/

/-- The set rows of word `w`. -/
def wordRows (m : SelectionMask) (w : ℕ) : List ℕ :=
  (SelectionMask.bitsOf (m.word w)).map (w * 64 + ·)

/-- What is left of the current word, then the words that have not been looked at. -/
def pending (c : SelectionCursor) : List ℕ :=
  (SelectionMask.bitsOf c.remainingBits).map (c.remainingWord * 64 + ·) ++
    (List.range' c.nextWord (c.mask.wordCount - c.nextWord)).flatMap (wordRows c.mask)

/-- At first, all rows are. -/
theorem pending_makeCursor (m : SelectionMask) : m.makeCursor.pending = m.setBits := by
  rw [pending, SelectionMask.makeCursor, SelectionMask.bitsOf_zero, List.map_nil, List.nil_append, Nat.sub_zero,
    ← List.range_eq_range']
  rfl

variable {c c' : SelectionCursor}

/-- What the search of the next word says: a word with rows is at hand, or no rows are to come. -/
structure Found (c c' : SelectionCursor) (found : Bool) : Prop where
  keeps : c'.pending = c.pending
  bits : found = true → c'.remainingBits ≠ 0
  none : found = false → c'.pending = []

theorem found_findBits {left : ℕ} (hbits : c.remainingBits = 0)
    (hleft : left = c.mask.wordCount - c.nextWord) :
    Found c (findBits left c).1 (findBits left c).2 := by
  induction left generalizing c with
  | zero =>
    refine ⟨rfl, Bool.noConfusion, fun _ => ?_⟩
    rw [findBits, pending, hbits, ← hleft]
    rfl
  | succ left ih =>
    have hrest : left = c.mask.wordCount - (c.nextWord + 1) := by omega
    have hpending : c.pending = wordRows c.mask c.nextWord ++
        (List.range' (c.nextWord + 1) left).flatMap (wordRows c.mask) := by
      rw [pending, hbits, SelectionMask.bitsOf_zero, List.map_nil, List.nil_append, ← hleft, List.range'_succ,
        List.flatMap_cons]
    simp only [findBits]
    split_ifs with hword
    · refine ⟨?_, fun _ => hword, Bool.noConfusion⟩
      rw [hpending, pending, ← hrest, Nat.add_sub_cancel]
      rfl
    · have hnext : ({ c with nextWord := c.nextWord + 1 } : SelectionCursor).pending = c.pending := by
        rw [hpending, pending, hbits, wordRows, not_ne_iff.mp hword, ← hrest, SelectionMask.bitsOf_zero]
        rfl
      have hfound := @ih { c with nextWord := c.nextWord + 1 } hbits hrest
      exact ⟨hfound.keeps.trans hnext, hfound.bits, hfound.none⟩

theorem found_ensureBits (c : SelectionCursor) : Found c c.ensureBits.1 c.ensureBits.2 := by
  unfold ensureBits
  split_ifs with h
  · exact ⟨rfl, fun _ => h, Bool.noConfusion⟩
  · exact found_findBits (not_ne_iff.mp h) rfl

theorem pending_eq_cons (h : c.remainingBits ≠ 0) : c.pending = c.row :: c.drop.pending := by
  rw [pending, SelectionMask.bitsOf_eq_cons h, List.map_cons, List.cons_append]
  rfl

/-! ## Calls -/

/-- A call on a cursor. -/
inductive Call
  | next
  | nextBlock (capacity : ℕ)

/-- The number of rows that a call asks for. -/
def Call.capacity : Call → ℕ
  | next => 1
  | nextBlock capacity => capacity

/-- A call: the cursor after it, and the rows that it returns. -/
def Call.apply (call : Call) (c : SelectionCursor) : SelectionCursor × List ℕ :=
  match call with
  | next => (c.next.1, c.next.2.toList)
  | nextBlock capacity => c.nextBlock capacity

/-- A run of calls: the cursor after it, and what each call returned. -/
def run : List Call → SelectionCursor → SelectionCursor × List (List ℕ)
  | [], c => (c, [])
  | call :: calls, c =>
    let first := call.apply c
    let rest := run calls first.1
    (rest.1, first.2 :: rest.2)

theorem nextBlock_eq (capacity : ℕ) (c : SelectionCursor) :
    (c.nextBlock capacity).2 = c.pending.take capacity ∧
      (c.nextBlock capacity).1.pending = c.pending.drop capacity := by
  induction capacity generalizing c with
  | zero => exact ⟨rfl, rfl⟩
  | succ capacity ih =>
    obtain ⟨hkeeps, hfound, hnone⟩ := found_ensureBits c
    rw [nextBlock]
    rcases hensure : c.ensureBits with ⟨c', found⟩
    rw [hensure] at hkeeps hfound hnone
    cases found with
    | false =>
      have hnil : c.pending = [] := hkeeps.symm.trans (hnone rfl)
      exact ⟨by rw [hnil, List.take_nil], by rw [hnil, List.drop_nil]; exact hnone rfl⟩
    | true =>
      have hcons : c.pending = c'.row :: c'.drop.pending := hkeeps.symm.trans (pending_eq_cons (hfound rfl))
      rw [hcons, List.take_succ_cons, List.drop_succ_cons, ← (ih c'.drop).1]
      exact ⟨rfl, (ih c'.drop).2⟩

/-- Next is a block of one row. -/
theorem next_eq (c : SelectionCursor) : (c.next.1, c.next.2.toList) = c.nextBlock 1 := by
  rw [next, nextBlock]
  rcases c.ensureBits with ⟨c', _ | _⟩ <;> rfl

/-- **A call returns the first rows that are to come**, as many as it asks for. -/
theorem call_eq (call : Call) (c : SelectionCursor) :
    (call.apply c).2 = c.pending.take call.capacity ∧
      (call.apply c).1.pending = c.pending.drop call.capacity := by
  cases call with
  | next =>
    rw [Call.apply, next_eq]
    exact nextBlock_eq 1 c
  | nextBlock capacity => exact nextBlock_eq capacity c

/-- The rows asked for by a list of calls. -/
def asked (calls : List Call) : ℕ := (calls.map Call.capacity).sum

/-- **A run returns the first rows that are to come.** -/
theorem run_eq (calls : List Call) (c : SelectionCursor) :
    (run calls c).2.flatten = c.pending.take (asked calls) ∧
      (run calls c).1.pending = c.pending.drop (asked calls) := by
  induction calls generalizing c with
  | nil => exact ⟨rfl, rfl⟩
  | cons call calls ih =>
    obtain ⟨hrows, hrest⟩ := call_eq call c
    obtain ⟨ihrows, ihrest⟩ := ih (call.apply c).1
    rw [hrest] at ihrows ihrest
    have hasked : asked (call :: calls) = call.capacity + asked calls := by
      rw [asked, List.map_cons, List.sum_cons, asked]
    simp only [run, List.flatten_cons]
    rw [ihrows, ihrest, hrows, hasked, List.take_add, List.drop_drop]
    exact ⟨rfl, rfl⟩

/-- When no rows are to come, no call returns one. -/
theorem run_of_pending_eq_nil (h : c.pending = []) (calls : List Call) :
    ∀ rows ∈ (run calls c).2, rows = [] := by
  have hflat := (run_eq calls c).1
  rw [h, List.take_nil] at hflat
  exact List.flatten_eq_nil_iff.mp hflat

/-- A call that returns fewer rows than it asks for returns all that are to come. -/
theorem call_of_short {call : Call} (h : (call.apply c).2.length < call.capacity) :
    (call.apply c).2 = c.pending := by
  have hrows := (call_eq call c).1
  rw [hrows, List.length_take] at h
  rw [hrows, List.take_of_length_le (by omega)]

/-! ## The cursor of a mask -/

/-- **A cursor enumerates its mask.** Under any interleaving of calls the returned rows, one call after the
other, are the first of the rows that ForEachSetBit visits, as many as were asked for. These are the set rows,
ascending. When they have all been returned, no call returns another one; a call that returns fewer rows than
it asks for has returned the last. -/
theorem enumerates {m : SelectionMask} (h : m.WF) (calls : List Call) :
    m.forEachSetBit.Pairwise (· < ·) ∧
      (∀ r, r ∈ m.forEachSetBit ↔ r < m.rowCount ∧ m.bit r = true) ∧
      (run calls m.makeCursor).2.flatten = m.forEachSetBit.take (asked calls) ∧
      ((run calls m.makeCursor).2.flatten = m.forEachSetBit →
        ∀ later : List Call, ∀ rows ∈ (run later (run calls m.makeCursor).1).2, rows = []) ∧
      ∀ call : Call, (call.apply (run calls m.makeCursor).1).2.length < call.capacity →
        (run calls m.makeCursor).2.flatten ++ (call.apply (run calls m.makeCursor).1).2 = m.forEachSetBit := by
  obtain ⟨hrows, hrest⟩ := run_eq calls m.makeCursor
  rw [pending_makeCursor] at hrows hrest
  rw [SelectionMask.forEachSetBit_eq]
  refine ⟨?_, fun r => ?_, hrows, fun hall => ?_, fun call hshort => ?_⟩
  · rw [SelectionMask.setBits_eq h]
    exact List.pairwise_lt_range.filter _
  · rw [SelectionMask.setBits_eq h, List.mem_filter, List.mem_range]
  · have hlen := congrArg List.length hall
    rw [hrows, List.length_take] at hlen
    exact run_of_pending_eq_nil (hrest.trans (List.drop_eq_nil_iff.mpr (by omega)))
  · rw [hrows, call_of_short hshort, hrest, List.take_append_drop]

/-- One row, and then a block of up to eight. -/
theorem enumerates_three :
    (run [.next, .nextBlock 8] (SelectionMask.setAll 3).makeCursor).2.flatten = [0, 1, 2] :=
  (enumerates (SelectionMask.WF.setAll 3) [.next, .nextBlock 8]).2.2.1.trans (by decide +kernel)

end SelectionCursor

end SimpleOlap
