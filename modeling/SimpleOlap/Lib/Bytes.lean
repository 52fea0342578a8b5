import Mathlib.Data.List.Basic
import Mathlib.Tactic.Ring

/-!
# Byte sequences: little-endian numbers and fixed-width cells

* `leBytes k n` is the `k`-byte little-endian form of `n` and `leNat` reads one back. The two are
  inverse on `k`-byte sequences and on numbers below `256 ^ k` (`leNat_leBytes`, `leBytes_leNat`).
* A buffer of fixed-width elements is a byte list; `cell w i bs` is its `i`-th element of `w` bytes
  and `cells w n bs` the first `n` of them. The lemmas say how cells read through the views a
  column store takes of its buffers: `drop` by whole elements, `take` of whole elements, and
  concatenation (`cell_drop_mul`, `cell_take_mul`, `cell_append_left`, `cell_append_right`).
-/

namespace SimpleOlap.Lib

/-- A byte sequence. -/
abbrev Bytes := List UInt8

/-- Sequences are compared byte by byte. -/
instance : LawfulBEq Bytes := inferInstance

/-! ## Little-endian numbers -/

/-- The `k`-byte little-endian form of `n` (the value modulo `256 ^ k`). -/
def leBytes : ℕ → ℕ → Bytes
  | 0, _ => []
  | k + 1, n => UInt8.ofNat (n % 256) :: leBytes k (n / 256)

/-- The number a little-endian byte sequence denotes. -/
def leNat : Bytes → ℕ
  | [] => 0
  | b :: bs => b.toNat + 256 * leNat bs

/-- A number is written as so many bytes. -/
@[simp] theorem length_leBytes (k n : ℕ) : (leBytes k n).length = k := by
  induction k generalizing n with
  | zero => rfl
  | succ k ih => simp [leBytes, ih]

/-- Reading back what was written: the value modulo `256 ^ k`. -/
theorem leNat_leBytes_mod (k n : ℕ) : leNat (leBytes k n) = n % 256 ^ k := by
  induction k generalizing n with
  | zero => simp [leBytes, leNat, Nat.mod_one]
  | succ k ih =>
    have hb : (UInt8.ofNat (n % 256)).toNat = n % 256 := by
      simp [UInt8.toNat_ofNat']
    rw [leBytes, leNat, ih, hb, pow_succ', Nat.mod_mul]

/-- A number is read back. -/
theorem leNat_leBytes {k n : ℕ} (h : n < 256 ^ k) : leNat (leBytes k n) = n := by
  rw [leNat_leBytes_mod, Nat.mod_eq_of_lt h]

/-- A number of so many bytes. -/
theorem leNat_lt (bs : Bytes) : leNat bs < 256 ^ bs.length := by
  induction bs with
  | nil => simp [leNat]
  | cons b bs ih =>
    have hb : b.toNat < 256 := b.toNat_lt
    simp only [leNat, List.length_cons, pow_succ]
    omega

/-- Writing back what was read: a byte sequence is the form of its own number. -/
theorem leBytes_leNat (bs : Bytes) : leBytes bs.length (leNat bs) = bs := by
  induction bs with
  | nil => rfl
  | cons b bs ih =>
    have hb : b.toNat < 256 := b.toNat_lt
    have hmod : (b.toNat + 256 * leNat bs) % 256 = b.toNat := by omega
    have hdiv : (b.toNat + 256 * leNat bs) / 256 = leNat bs := by omega
    simp [leBytes, leNat, hmod, hdiv, ih]

/-- Two byte sequences of one length with the same number are the same. -/
theorem leNat_inj {as bs : Bytes} (hlen : as.length = bs.length) (h : leNat as = leNat bs) :
    as = bs := by
  rw [← leBytes_leNat as, ← leBytes_leNat bs, hlen, h]

/-! ## Cells of a fixed-width buffer -/

/-- The `i`-th element of a buffer of `w`-byte elements. -/
def cell (w i : ℕ) (bs : Bytes) : Bytes := (bs.drop (i * w)).take w

/-- The first `n` elements of a buffer of `w`-byte elements. -/
def cells (w n : ℕ) (bs : Bytes) : List Bytes := (List.range n).map fun i => cell w i bs

/-- So many cells. -/
@[simp] theorem length_cells (w n : ℕ) (bs : Bytes) : (cells w n bs).length = n := by
  simp [cells]

/-- A cell inside has the width. -/
theorem length_cell {w i : ℕ} {bs : Bytes} (h : (i + 1) * w ≤ bs.length) :
    (cell w i bs).length = w := by
  have : (i + 1) * w = i * w + w := by ring
  simp only [cell, List.length_take, List.length_drop]
  omega

/-- A view that starts `s` elements in reads element `s + i` as its element `i`. -/
theorem cell_drop_mul (w s i : ℕ) (bs : Bytes) : cell w i (bs.drop (s * w)) = cell w (s + i) bs := by
  have : s * w + i * w = (s + i) * w := by ring
  simp only [cell, List.drop_drop, this]

/-- A view of the first `n` elements reads them all unchanged. -/
theorem cell_take_mul {w n i : ℕ} (h : i < n) (bs : Bytes) :
    cell w i (bs.take (n * w)) = cell w i bs := by
  have hle : i * w + w ≤ n * w := by
    have : (i + 1) * w ≤ n * w := Nat.mul_le_mul_right w h
    have : (i + 1) * w = i * w + w := by ring
    omega
  simp only [cell, List.drop_take, List.take_take]
  congr 1
  omega

/-- A cell of the front. -/
theorem cell_append_left {w i : ℕ} {as : Bytes} (bs : Bytes) (h : (i + 1) * w ≤ as.length) :
    cell w i (as ++ bs) = cell w i as := by
  have hw : (i + 1) * w = i * w + w := by ring
  have h1 : i * w ≤ as.length := by omega
  have h2 : w ≤ (as.drop (i * w)).length := by simp only [List.length_drop]; omega
  simp only [cell, List.drop_append_of_le_length h1, List.take_append_of_le_length h2]

/-- A cell of the back. -/
theorem cell_append_right {w n i : ℕ} {as : Bytes} (bs : Bytes) (h : as.length = n * w) :
    cell w (n + i) (as ++ bs) = cell w i bs := by
  have hpos : (n + i) * w = as.length + i * w := by rw [h]; ring
  have hnil : as.drop (as.length + i * w) = [] := List.drop_eq_nil_of_le (by omega)
  simp only [cell, hpos, List.drop_append, hnil, List.nil_append, Nat.add_sub_cancel_left]

/-- Appending whole elements to whole elements appends the cells. -/
theorem cells_append {w n m : ℕ} {as : Bytes} (bs : Bytes) (h : as.length = n * w) :
    cells w (n + m) (as ++ bs) = cells w n as ++ cells w m bs := by
  simp only [cells, List.range_add, List.map_append, List.map_map]
  congr 1
  · apply List.map_congr_left
    intro i hi
    have hi' : i < n := List.mem_range.mp hi
    exact cell_append_left bs (h ▸ Nat.mul_le_mul_right w hi')
  · apply List.map_congr_left
    intro i _
    exact cell_append_right bs h

/-- Cells need the bytes of their rows only. -/
theorem cells_take_mul (w n : ℕ) (bs : Bytes) : cells w n (bs.take (n * w)) = cells w n bs := by
  apply List.map_congr_left
  intro i hi
  exact cell_take_mul (List.mem_range.mp hi) bs

/-- A buffer built from `w`-byte elements has them as its cells. -/
theorem cell_flatMap {α : Type} {w : ℕ} (f : α → Bytes) :
    ∀ (xs : List α) (_ : ∀ a ∈ xs, (f a).length = w) {i : ℕ} (h : i < xs.length),
      cell w i (xs.flatMap f) = f xs[i]
  | [], _, _, h => absurd h (Nat.not_lt_zero _)
  | x :: xs, hf, 0, _ => by
    simp [cell, List.flatMap_cons, ← hf x List.mem_cons_self]
  | x :: xs, hf, i + 1, h => by
    have hx : (f x).length = 1 * w := by rw [hf x List.mem_cons_self, one_mul]
    have hi : i < xs.length := Nat.lt_of_succ_lt_succ h
    have hshift := cell_append_right (i := i) (xs.flatMap f) hx
    rw [Nat.add_comm 1 i] at hshift
    rw [List.flatMap_cons, hshift, List.getElem_cons_succ]
    exact cell_flatMap f xs (fun a ha => hf a (List.mem_cons_of_mem x ha)) hi

/-- Pieces of one length. -/
theorem length_flatMap_of_mem {α : Type} {w : ℕ} {f : α → Bytes} {xs : List α}
    (hf : ∀ a ∈ xs, (f a).length = w) : (xs.flatMap f).length = xs.length * w := by
  induction xs with
  | nil => simp
  | cons x xs ih =>
    have hxs := ih fun a ha => hf a (List.mem_cons_of_mem x ha)
    rw [List.flatMap_cons, List.length_append, hf x List.mem_cons_self, hxs, List.length_cons]
    ring

/-- Pieces of one length. -/
theorem length_flatMap_const {α : Type} {w : ℕ} (f : α → Bytes) (hf : ∀ a, (f a).length = w)
    (xs : List α) : (xs.flatMap f).length = xs.length * w :=
  length_flatMap_of_mem fun a _ => hf a

/-- Pieces of at most one length. -/
theorem length_flatMap_le {α : Type} {w : ℕ} (f : α → Bytes) (xs : List α)
    (hf : ∀ a ∈ xs, (f a).length ≤ w) : (xs.flatMap f).length ≤ xs.length * w := by
  induction xs with
  | nil => simp
  | cons x xs ih =>
    have hx := hf x List.mem_cons_self
    have hxs := ih fun a ha => hf a (List.mem_cons_of_mem x ha)
    rw [List.flatMap_cons, List.length_append, List.length_cons, Nat.succ_mul]
    omega

end SimpleOlap.Lib
