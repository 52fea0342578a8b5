import SimpleOlap.Storage.Segment.ColumnChunk
import SimpleOlap.Storage.Segment.Reader

/-!
# What the statistics of a column say

The bounds of a column chunk are folded with `std::min` and `std::max`, which let a NaN argument pass
unnoticed, and a NaN that comes first stays.

* `counted`: the values of a column that its bounds are about.
* `Statistics m ws`: the metadata are those of the values `ws`; every appended value keeps this
  (`Statistics.noteValue`), so it holds of every builder (`ColumnBuilder.WF.statistics`).
* `evaluateByStats_eq_skip_iff`, `evaluateByStats_eq_allMatch_iff`: when a predicate is decided, in
  terms of the values and not of the bounds.
-/

namespace SimpleOlap

open Lib

/-- The values the bounds are about: those that are numbers, and none when the first is not. -/
def counted (ws : List Fp) : List Fp :=
  if ws.head? = some .nan then [] else ws.filter fun w => !w.isNan

@[simp] theorem counted_nil : counted [] = [] := rfl

theorem mem_counted_of_ne_nan {ws : List Fp} {w : Fp} (hhead : ws.head? ≠ some .nan) (h : w ∈ ws)
    (hw : w ≠ .nan) : w ∈ counted ws := by
  rw [counted, if_neg hhead]
  exact List.mem_filter.mpr ⟨h, by simpa [Fp.isNan_eq_false_iff] using hw⟩

/-- Behind a number, another number is counted and NaN is not. -/
theorem counted_snoc {ws : List Fp} (hne : ws ≠ []) (hhead : ws.head? ≠ some .nan) (v : Fp) :
    counted (ws ++ [v]) = if v = .nan then counted ws else counted ws ++ [v] := by
  have hhead' : (ws ++ [v]).head? ≠ some .nan := by
    obtain ⟨w, ws, rfl⟩ := List.exists_cons_of_ne_nil hne
    simpa using hhead
  rw [counted, if_neg hhead', counted, if_neg hhead, List.filter_append]
  by_cases hv : v = .nan
  · simp [hv, Fp.isNan]
  · simp [hv, Fp.isNan_eq_false_iff.mpr hv]

/-- Among values that start with a number, there is one. -/
theorem counted_ne_nil_iff {ws : List Fp} :
    counted ws ≠ [] ↔ ws ≠ [] ∧ ws.head? ≠ some .nan := by
  constructor
  · intro h
    refine ⟨?_, fun hhead => h (if_pos hhead)⟩
    rintro rfl
    exact h rfl
  · rintro ⟨hne, hhead⟩
    obtain ⟨w, ws, rfl⟩ := List.exists_cons_of_ne_nil hne
    exact List.ne_nil_of_mem
      (mem_counted_of_ne_nan hhead List.mem_cons_self (by simpa using hhead))

/-! ## The bounds -/

/-- The metadata of a column with the values `ws`. -/
structure Statistics (m : ColumnChunkMeta) (ws : List Fp) : Prop where
  hasStats : m.hasStats = decide (ws ≠ [])
  nan : ws.head? = some .nan → m.minValue.val = .nan ∧ m.maxValue.val = .nan
  bounds : counted ws ≠ [] → m.minValue.val ≠ .nan ∧ m.maxValue.val ≠ .nan ∧
    Bounds m.minValue.val.key m.maxValue.val.key ((counted ws).map Fp.key)

/-- NaN does not change the minimum, and stays if it is one. -/
theorem stdMin_of_nan {a b : Double} (h : a.val = .nan ∨ b.val = .nan) : stdMin a b = a := by
  unfold stdMin
  rcases h with h | h <;> simp [h]

theorem stdMax_of_nan {a b : Double} (h : a.val = .nan ∨ b.val = .nan) : stdMax a b = a := by
  unfold stdMax
  rcases h with h | h <;> simp [h]

theorem key_stdMin {a b : Double} (ha : a.val ≠ .nan) (hb : b.val ≠ .nan) :
    (stdMin a b).val ≠ .nan ∧ (stdMin a b).val.key = min a.val.key b.val.key := by
  unfold stdMin
  by_cases h : b.val.lt a.val = true
  · rw [if_pos h]
    exact ⟨hb, (min_eq_right ((Fp.lt_iff hb ha).mp h).le).symm⟩
  · rw [if_neg h]
    exact ⟨ha, (min_eq_left (not_lt.mp fun hlt => h ((Fp.lt_iff hb ha).mpr hlt))).symm⟩

theorem key_stdMax {a b : Double} (ha : a.val ≠ .nan) (hb : b.val ≠ .nan) :
    (stdMax a b).val ≠ .nan ∧ (stdMax a b).val.key = max a.val.key b.val.key := by
  unfold stdMax
  by_cases h : a.val.lt b.val = true
  · rw [if_pos h]
    exact ⟨hb, (max_eq_right ((Fp.lt_iff ha hb).mp h).le).symm⟩
  · rw [if_neg h]
    exact ⟨ha, (max_eq_left (not_lt.mp fun hlt => h ((Fp.lt_iff ha hb).mpr hlt))).symm⟩

namespace Statistics

variable {m : ColumnChunkMeta} {ws : List Fp}

/-- A column without values has no statistics. -/
theorem empty (h : m.hasStats = false) : Statistics m [] :=
  ⟨h, fun hnan => by simp at hnan, fun hne => absurd rfl hne⟩

/-- The first value is both bounds. -/
theorem first (v : Double) :
    Statistics { m with minValue := v, maxValue := v, hasStats := true } [v.val] where
  hasStats := rfl
  nan h := by simpa using h
  bounds h := by
    have hv : v.val ≠ .nan := by simpa using (counted_ne_nil_iff.mp h).2
    have hcounted : counted [v.val] = [v.val] := by
      simp [counted, hv, Fp.isNan_eq_false_iff.mpr hv]
    rw [hcounted]
    exact ⟨hv, hv, Bounds.single _⟩

/-- **One more value.** -/
theorem noteValue (h : Statistics m ws) (v : Double) :
    Statistics (m.noteValue v) (ws ++ [v.val]) := by
  unfold ColumnChunkMeta.noteValue
  by_cases hnil : ws = []
  · subst hnil
    rw [if_neg (by simp [h.hasStats])]
    exact first v
  have hhead : (ws ++ [v.val]).head? = ws.head? := by
    obtain ⟨w, ws, rfl⟩ := List.exists_cons_of_ne_nil hnil
    rfl
  rw [if_pos (by simp [h.hasStats, hnil])]
  refine ⟨by simp [h.hasStats, hnil], fun hnan => ?_, fun hne => ?_⟩
  · -- a NaN in front stays both bounds
    obtain ⟨hmin, hmax⟩ := h.nan (hhead ▸ hnan)
    simp only [stdMin_of_nan (.inl hmin), stdMax_of_nan (.inl hmax)]
    exact ⟨hmin, hmax⟩
  · have hnum : ws.head? ≠ some .nan := hhead ▸ (counted_ne_nil_iff.mp hne).2
    obtain ⟨hmin, hmax, hb⟩ := h.bounds (counted_ne_nil_iff.mpr ⟨hnil, hnum⟩)
    rw [counted_snoc hnil hnum]
    by_cases hv : v.val = .nan
    · simp only [if_pos hv, stdMin_of_nan (.inr hv), stdMax_of_nan (.inr hv)]
      exact ⟨hmin, hmax, hb⟩
    · obtain ⟨hmin', hkmin⟩ := key_stdMin hmin hv
      obtain ⟨hmax', hkmax⟩ := key_stdMax hmax hv
      simp only [if_neg hv, List.map_append, List.map_cons, List.map_nil, hkmin, hkmax]
      exact ⟨hmin', hmax', hb.snoc _⟩

/-- A whole list of elements of a numeric column. -/
theorem noteCells (hm : m.type.IsNumeric) (h : Statistics m ws) (ptrs : List Bytes) :
    Statistics (m.noteCells ptrs) (ws ++ ptrs.map fun ptr => (statValue m.type ptr).val) := by
  induction ptrs generalizing m ws with
  | nil => simpa using h
  | cons ptr ptrs ih =>
    have hstep : Statistics (m.noteCell ptr) (ws ++ [(statValue m.type ptr).val]) := by
      rw [ColumnChunkMeta.noteCell, if_pos hm]
      exact h.noteValue _
    have hrest := ih (by rwa [ColumnChunkMeta.type_noteCell]) hstep
    rw [ColumnChunkMeta.type_noteCell, List.append_assoc] at hrest
    exact hrest

end Statistics

/-- **The statistics of a builder are those of its cells**, however they were appended. -/
theorem ColumnBuilder.WF.statistics {columnId : ColumnId} {type : DataType} {b : ColumnBuilder}
    (h : b.WF columnId type) (htype : type.IsNumeric) :
    Statistics b.metadata (b.cells.map fun c => (statValue type c).val) := by
  have hnew : Statistics (ColumnBuilder.new columnId type).metadata [] := .empty rfl
  have hcells := hnew.noteCells htype b.cells
  rw [← h.metadata, List.nil_append] at hcells
  exact hcells

/-! ## The decision on one predicate -/

open SegmentReader

/-- Against numbers the switch decides as a zone map does. -/
theorem compareStats_eq_verdict {op : CmpOp} {min max value : Double} (hmin : min.val ≠ .nan)
    (hmax : max.val ≠ .nan) (hvalue : value.val ≠ .nan) :
    compareStats op min max value = verdict op min.val.key max.val.key value.val.key := by
  cases op <;>
    simp only [compareStats, verdict, Bool.or_eq_true, Bool.and_eq_true, Fp.lt_iff, Fp.le_iff,
      Fp.eq_iff, hmin, hmax, hvalue, ne_eq, not_false_eq_true]

/-- A constant that is NaN, or bounds that are, decide nothing. -/
theorem compareStats_of_nan {op : CmpOp} {min max value : Double}
    (h : value.val = .nan ∨ min.val = .nan ∧ max.val = .nan) :
    compareStats op min max value = .needFilter := by
  rcases h with h | ⟨hmin, hmax⟩
  · cases op <;> simp [compareStats, h]
  · cases op <;> simp [compareStats, hmin, hmax]

section Decision

variable {m : ColumnChunkMeta} {ws : List Fp} {cond : Condition} {value : Double}

/-- The decision is that of the zone map of the counted values, if there are any. -/
theorem evaluateByStats_eq (h : Statistics m ws) (hvalue : condValueAsDouble cond.value = some value) :
    (counted ws ≠ [] ∧ value.val ≠ .nan ∧ evaluateByStats m cond =
      verdict cond.op m.minValue.val.key m.maxValue.val.key value.val.key) ∨
    (¬ (counted ws ≠ [] ∧ value.val ≠ .nan) ∧ evaluateByStats m cond = .needFilter) := by
  unfold evaluateByStats
  rw [hvalue]
  by_cases hnil : ws = []
  · subst hnil
    exact .inr ⟨by simp, if_pos h.hasStats⟩
  rw [if_neg (by simp [h.hasStats, hnil])]
  by_cases hhead : ws.head? = some .nan
  · exact .inr ⟨fun hc => (counted_ne_nil_iff.mp hc.1).2 hhead, compareStats_of_nan (.inr (h.nan hhead))⟩
  have hne : counted ws ≠ [] := counted_ne_nil_iff.mpr ⟨hnil, hhead⟩
  by_cases hnan : value.val = .nan
  · exact .inr ⟨fun hc => hc.2 hnan, compareStats_of_nan (.inl hnan)⟩
  · obtain ⟨hmin, hmax, -⟩ := h.bounds hne
    exact .inl ⟨hne, hnan, compareStats_eq_verdict hmin hmax hnan⟩

/-- **When a predicate skips the segment.** -/
theorem evaluateByStats_eq_skip_iff (h : Statistics m ws)
    (hvalue : condValueAsDouble cond.value = some value) :
    evaluateByStats m cond = .skip ↔ counted ws ≠ [] ∧ value.val ≠ .nan ∧
      Outside cond.op value.val.key ((counted ws).map Fp.key) := by
  rcases evaluateByStats_eq h hvalue with ⟨hne, hnan, heq⟩ | ⟨hnot, heq⟩
  · rw [heq, verdict_eq_skip_iff (h.bounds hne).2.2]
    exact ⟨fun hout => ⟨hne, hnan, hout⟩, fun hout => hout.2.2⟩
  · rw [heq]
    exact ⟨fun hc => by simp at hc, fun hc => absurd ⟨hc.1, hc.2.1⟩ hnot⟩

/-- **When a predicate is not evaluated row by row.** -/
theorem evaluateByStats_eq_allMatch_iff (h : Statistics m ws)
    (hvalue : condValueAsDouble cond.value = some value) :
    evaluateByStats m cond = .allMatch ↔ counted ws ≠ [] ∧ value.val ≠ .nan ∧
      Inside cond.op value.val.key ((counted ws).map Fp.key) := by
  rcases evaluateByStats_eq h hvalue with ⟨hne, hnan, heq⟩ | ⟨hnot, heq⟩
  · rw [heq, verdict_eq_allMatch_iff (h.bounds hne).2.2]
    exact ⟨fun hin => ⟨hne, hnan, hin⟩, fun hin => hin.2.2⟩
  · rw [heq]
    exact ⟨fun hc => by simp at hc, fun hc => absurd ⟨hc.1, hc.2.1⟩ hnot⟩

end Decision

end SimpleOlap
