import SimpleOlap.Execution.Expression.VectorPredicate

/-!
# A compiled predicate is its expression, row by row

* `Agrees`: a result for an input mask is what a test of its rows says, errors included.
* `agrees_evaluate`: that holds of every compiled expression, by induction on the expression.
* `compiled_eq_rowwise`: the statement in terms of `evaluate`.
* `compiledComparison_agrees_iff`: with NaN, a compiled comparison and the generic one agree on `<` and `>`
  only.
-/

namespace SimpleOlap

open Lib

/-- The row-wise test of a predicate: `Eval`, then `ExecValueAsBool`. -/
def ExecExpression.rowHolds (expr : ExecExpression) (batch : VectorBatch) (row : ℕ) :
    Except String Bool := do
  (← expr.eval batch row).asBool

/-- The exact number in an element of a numeric column. -/
def ColumnData.numberAt (column : ColumnData) (row : ℕ) : Fp :=
  match column.type with
  | .int32 => Numeric.value (Numeric.read (column.cellAt row) : Int32)
  | .int64 => Numeric.value (Numeric.read (column.cellAt row) : Int64)
  | .float => Numeric.value (Numeric.read (column.cellAt row) : Single)
  | .double => Numeric.value (Numeric.read (column.cellAt row) : Double)
  | _ => .ofInt unit 0

/-- The batch has the slots and column types that the expression refers to, and there is no NaN in the
columns or the literals. -/
def ExecExpression.Fits (batch : VectorBatch) : ExecExpression → Prop
  | .columnRef slot type => ∃ column, batch.columns[slot]? = some column ∧ column.type = type ∧
      ∀ row < column.count, column.numberAt row ≠ .nan
  | .literal value _ => value.asNumber ≠ .ok .nan
  | .binary _ left right _ => left.Fits batch ∧ right.Fits batch

/-- The batch has, for `count` rows, the columns that the expression reads. -/
def ExecExpression.Reads (batch : VectorBatch) (count : ℕ) : ExecExpression → Prop
  | .columnRef slot type =>
    ∃ column, batch.columns[slot]? = some column ∧ column.type = type ∧ count ≤ column.count
  | .literal _ _ => True
  | .binary _ left right _ => left.Reads batch count ∧ right.Reads batch count

/-! ## Results that agree with a test -/

/-- A result for an input mask is what the test of its rows says: an error where a row of the input has
one, and otherwise the rows of the input that pass. -/
def Agrees (test : ℕ → Except String Bool) (input : SelectionMask) :
    Except String SelectionMask → Prop
  | .error _ => ∃ row, input.bit row = true ∧ ∃ e, test row = .error e
  | .ok output => output.WF ∧ output.rowCount = input.rowCount ∧
      (∀ row, output.bit row = true → input.bit row = true) ∧
      ∀ row, input.bit row = true → test row = .ok (output.bit row)

section

variable {test testL testR : ℕ → Except String Bool} {input output : SelectionMask} {n : ℕ}

/-- The row count of the mask without rows. -/
theorem rowCount_setNone_of_wf (hwf : input.WF) (hn : input.rowCount = n) :
    (SelectionMask.setNone n).rowCount = input.rowCount := by
  rw [SelectionMask.rowCount_setNone, ← hn, Nat.min_eq_left hwf.rowCount_le]

/-- Without rows there is nothing to test. -/
theorem agrees_of_isEmpty (hwf : input.WF) (hn : input.rowCount = n) (h : input.isEmpty = true) :
    Agrees test input (.ok (SelectionMask.setNone n)) := by
  have hbits := (SelectionMask.isEmpty_iff input).mp h
  refine ⟨SelectionMask.WF.setNone n, rowCount_setNone_of_wf hwf hn, ?_, ?_⟩
  · intro row hrow
    simp [SelectionMask.bit_setNone] at hrow
  · intro row hrow
    simp [hbits row] at hrow

/-- One row after the other. -/
theorem scalar_loop (rows : List ℕ) (hrows : ∀ row ∈ rows, row < kVectorBatchSize)
    (start : SelectionMask) :
    match rows.foldlM (fun (output : SelectionMask) row => do
        if ← test row then return output.setBit row else return output) start with
    | .error _ => ∃ row ∈ rows, ∃ e, test row = .error e
    | .ok output => output.rowCount = start.rowCount ∧ (∀ row ∈ rows, ∃ b, test row = .ok b) ∧
        ∀ row, output.bit row = true ↔ start.bit row = true ∨ row ∈ rows ∧ test row = .ok true := by
  induction rows generalizing start with
  | nil => exact ⟨rfl, by simp, by simp⟩
  | cons row rows ih =>
    have hrow := hrows row List.mem_cons_self
    have hrest := fun r hr => hrows r (List.mem_cons_of_mem row hr)
    rw [List.foldlM_cons]
    cases htest : test row with
    | error e => exact ⟨row, List.mem_cons_self, e, htest⟩
    | ok b =>
      have hstart : ∀ r, (if b then start.setBit row else start).bit r = true ↔
          start.bit r = true ∨ r = row ∧ test row = .ok true := by
        intro r
        cases b with
        | true => simp [SelectionMask.bit_setBit hrow, htest, or_comm]
        | false => simp [htest]
      have hcount : (if b then start.setBit row else start).rowCount = start.rowCount := by
        cases b <;> rfl
      have hnext := ih hrest (if b then start.setBit row else start)
      have hbind : (do
          let s ← (do if ← Except.ok b then return start.setBit row else return start : Except String _)
          rows.foldlM (fun (output : SelectionMask) row => do
            if ← test row then return output.setBit row else return output) s) =
          rows.foldlM (fun (output : SelectionMask) row => do
            if ← test row then return output.setBit row else return output)
            (if b then start.setBit row else start) := by
        cases b <;> rfl
      rw [hbind]
      cases hfold : rows.foldlM (fun (output : SelectionMask) row => do
          if ← test row then return output.setBit row else return output)
          (if b then start.setBit row else start) with
      | error e =>
        rw [hfold] at hnext
        obtain ⟨r, hr, herr⟩ := hnext
        exact ⟨r, List.mem_cons_of_mem row hr, herr⟩
      | ok output =>
        rw [hfold] at hnext
        obtain ⟨hcount', hall, hbits⟩ := hnext
        refine ⟨hcount'.trans hcount, ?_, ?_⟩
        · intro r hr
          rcases List.mem_cons.mp hr with rfl | hr
          · exact ⟨b, htest⟩
          · exact hall r hr
        · intro r
          rw [hbits, hstart, List.mem_cons]
          constructor
          · rintro ((h | ⟨rfl, h⟩) | ⟨h, h'⟩)
            · exact .inl h
            · exact .inr ⟨.inl rfl, h⟩
            · exact .inr ⟨.inr h, h'⟩
          · rintro (h | ⟨rfl | h, h'⟩)
            · exact .inl (.inl h)
            · exact .inl (.inr ⟨rfl, h'⟩)
            · exact .inr ⟨h, h'⟩

/-- The row-wise loop is the test of each row. -/
theorem agrees_scalar (hwf : input.WF) (hn : input.rowCount = n) :
    Agrees test input (input.setBits.foldlM (fun (output : SelectionMask) row => do
      if ← test row then return output.setBit row else return output) (SelectionMask.setNone n)) := by
  have hmem : ∀ row, row ∈ input.setBits ↔ input.bit row = true := by
    intro row
    rw [SelectionMask.setBits_eq hwf, List.mem_filter, List.mem_range, and_iff_right_iff_imp]
    intro hrow
    by_contra hge
    rw [hwf.unused row (Nat.not_lt.mp hge)] at hrow
    cases hrow
  have hlt : ∀ row, input.bit row = true → row < input.rowCount := by
    intro row hrow
    by_contra hge
    rw [hwf.unused row (Nat.not_lt.mp hge)] at hrow
    cases hrow
  have hloop := @scalar_loop test input.setBits
    (fun row hrow => lt_of_lt_of_le (hlt row ((hmem row).mp hrow)) hwf.rowCount_le)
    (SelectionMask.setNone n)
  have hcount := rowCount_setNone_of_wf hwf hn
  cases hfold : input.setBits.foldlM (fun (output : SelectionMask) row => do
      if ← test row then return output.setBit row else return output) (SelectionMask.setNone n) with
  | error e =>
    rw [hfold] at hloop
    obtain ⟨row, hrow, herr⟩ := hloop
    exact ⟨row, (hmem row).mp hrow, herr⟩
  | ok output =>
    rw [hfold] at hloop
    obtain ⟨hcount', hall, hbits⟩ := hloop
    simp only [SelectionMask.bit_setNone, Bool.false_eq_true, false_or, hmem] at hbits
    refine ⟨⟨?_, ?_⟩, hcount'.trans hcount, fun row hrow => ((hbits row).mp hrow).1, ?_⟩
    · rw [hcount', hcount]
      exact hwf.rowCount_le
    · intro row hrow
      rw [hcount', hcount] at hrow
      rw [Bool.eq_false_iff]
      exact fun hbit => Nat.not_lt.mpr hrow (hlt row ((hbits row).mp hbit).1)
    · intro row hrow
      obtain ⟨b, hb⟩ := hall row ((hmem row).mpr hrow)
      rw [hb]
      congr 1
      rw [Bool.eq_iff_iff, hbits, hb]
      simp [hrow]

/-- AND: the right side on the rows that the left side leaves. -/
theorem agrees_logicalAnd {left : SelectionMask → Except String SelectionMask}
    {right : SelectionMask → Except String SelectionMask} (hL : Agrees testL input (left input))
    (hR : ∀ mask : SelectionMask, mask.WF → mask.rowCount = input.rowCount →
      Agrees testR mask (right mask)) :
    Agrees (fun row => do if ← testL row then testR row else return false) input (do
      let output ← left input
      if output.isEmpty then return output
      else return output.and (← right output)) := by
  cases hleft : left input with
  | error e =>
    rw [hleft] at hL
    obtain ⟨row, hrow, e', he'⟩ := hL
    exact ⟨row, hrow, e', by simp only [he']; rfl⟩
  | ok output =>
    rw [hleft] at hL
    obtain ⟨hwf, hcount, hsub, htest⟩ := hL
    -- on a row of the input the left side is the bit of its result
    have hand : ∀ row, input.bit row = true → (do if ← testL row then testR row else return false) =
        if output.bit row then testR row else .ok false := by
      intro row hrow
      rw [htest row hrow]
      cases output.bit row <;> rfl
    show Agrees _ input (if output.isEmpty then .ok output else _)
    split_ifs with hempty
    · have hbits := (SelectionMask.isEmpty_iff output).mp hempty
      refine ⟨hwf, hcount, hsub, fun row hrow => ?_⟩
      simp only [hand row hrow, hbits row]
      rfl
    · have hRout := hR output hwf hcount
      cases hright : right output with
      | error e =>
        rw [hright] at hRout
        obtain ⟨row, hrow, e', he'⟩ := hRout
        refine ⟨row, hsub row hrow, e', ?_⟩
        simp only [hand row (hsub row hrow), hrow, if_true]
        exact he'
      | ok mask =>
        rw [hright] at hRout
        obtain ⟨hwf', hcount', hsub', htest'⟩ := hRout
        refine ⟨hwf.and, ?_, ?_, ?_⟩
        · rw [SelectionMask.rowCount_and, hcount', Nat.min_self, hcount]
        · intro row hrow
          rw [SelectionMask.bit_and hwf hwf', Bool.and_eq_true] at hrow
          exact hsub row hrow.1
        · intro row hrow
          simp only [hand row hrow, SelectionMask.bit_and hwf hwf']
          cases hout : output.bit row with
          | false => rfl
          | true => exact htest' row hout

/-- A subset with as many rows is everything. -/
theorem bit_of_count_le {mask : SelectionMask} (hwf : mask.WF) (hwf' : input.WF)
    (hcount : mask.rowCount = input.rowCount) (hsub : ∀ row, mask.bit row = true → input.bit row = true)
    (hle : input.count ≤ mask.count) (row : ℕ) (hrow : input.bit row = true) : mask.bit row = true := by
  rw [SelectionMask.count_eq hwf, SelectionMask.count_eq hwf', hcount,
    List.countP_eq_length_filter, List.countP_eq_length_filter] at hle
  have hsublist : ((List.range input.rowCount).filter mask.bit).Sublist
      ((List.range input.rowCount).filter input.bit) := by
    have hfilter : (List.range input.rowCount).filter mask.bit =
        ((List.range input.rowCount).filter input.bit).filter mask.bit := by
      rw [List.filter_filter]
      apply List.filter_congr
      intro r _
      cases hm : mask.bit r with
      | false => rfl
      | true => rw [hsub r hm]; rfl
    rw [hfilter]
    exact List.filter_sublist
  have hlt : row < input.rowCount := by
    by_contra hge
    rw [hwf'.unused row (Nat.not_lt.mp hge)] at hrow
    cases hrow
  have hmem : row ∈ (List.range input.rowCount).filter input.bit :=
    List.mem_filter.mpr ⟨List.mem_range.mpr hlt, hrow⟩
  rw [← hsublist.eq_of_length_le hle] at hmem
  exact (List.mem_filter.mp hmem).2

/-- OR: the right side on the rows that the left side leaves open. -/
theorem agrees_logicalOr {left : SelectionMask → Except String SelectionMask}
    {right : SelectionMask → Except String SelectionMask} (hinput : input.WF)
    (hL : Agrees testL input (left input))
    (hR : ∀ mask : SelectionMask, mask.WF → mask.rowCount = input.rowCount →
      Agrees testR mask (right mask)) :
    Agrees (fun row => do if ← testL row then return true else testR row) input (do
      let output ← left input
      if input.count ≤ output.count then return output
      else return output.or (← right (input.andNot output))) := by
  cases hleft : left input with
  | error e =>
    rw [hleft] at hL
    obtain ⟨row, hrow, e', he'⟩ := hL
    exact ⟨row, hrow, e', by simp only [he']; rfl⟩
  | ok output =>
    rw [hleft] at hL
    obtain ⟨hwf, hcount, hsub, htest⟩ := hL
    have hor : ∀ row, input.bit row = true → (do if ← testL row then return true else testR row) =
        if output.bit row then .ok true else testR row := by
      intro row hrow
      rw [htest row hrow]
      cases output.bit row <;> rfl
    show Agrees _ input (if input.count ≤ output.count then .ok output else _)
    split_ifs with hall
    · refine ⟨hwf, hcount, hsub, fun row hrow => ?_⟩
      simp only [hor row hrow, bit_of_count_le hwf hinput hcount hsub hall row hrow, if_true]
    · have hopen : ∀ row, (input.andNot output).bit row = (input.bit row && !output.bit row) :=
        SelectionMask.bit_andNot hinput
      have hRout := hR (input.andNot output) hinput.andNot (SelectionMask.rowCount_andNot _ _)
      cases hright : right (input.andNot output) with
      | error e =>
        rw [hright] at hRout
        obtain ⟨row, hrow, e', he'⟩ := hRout
        rw [hopen, Bool.and_eq_true, Bool.not_eq_true'] at hrow
        refine ⟨row, hrow.1, e', ?_⟩
        simp only [hor row hrow.1, hrow.2, Bool.false_eq_true, if_false]
        exact he'
      | ok mask =>
        rw [hright] at hRout
        obtain ⟨hwf', hcount', hsub', htest'⟩ := hRout
        rw [SelectionMask.rowCount_andNot] at hcount'
        refine ⟨hwf.or hwf', ?_, ?_, ?_⟩
        · rw [SelectionMask.rowCount_or, hcount, hcount', Nat.max_self]
        · intro row hrow
          rw [SelectionMask.bit_or hwf hwf', Bool.or_eq_true] at hrow
          rcases hrow with hrow | hrow
          · exact hsub row hrow
          · have hin := hsub' row hrow
            rw [hopen, Bool.and_eq_true] at hin
            exact hin.1
        · intro row hrow
          simp only [hor row hrow, SelectionMask.bit_or hwf hwf']
          cases hout : output.bit row with
          | true => rfl
          | false =>
            have hin : (input.andNot output).bit row = true := by
              rw [hopen, hrow, hout]
              rfl
            exact htest' row hin

end

/-! ## Comparisons -/

section

variable {batch : VectorBatch} {column left right : ColumnData} {type : DataType} {op : CmpOp}
  {row n : ℕ}

/-- A cell of a numeric column is a number. -/
theorem readExecValue_of_isNumeric (h : column.type.IsNumeric) (hrow : row < column.count) :
    ∃ value, readExecValue column row = .ok value ∧ value.asNumber = .ok (column.numberAt row) := by
  rw [readExecValue, if_neg (Nat.not_le.mpr hrow), ColumnData.numberAt]
  rcases h with h | h | h | h <;> rw [h] <;> exact ⟨_, rfl, rfl⟩

/-- A mask with the comparison's answer for every row. -/
def Compares (mask : SelectionMask) (n : ℕ) (op : CmpOp) (x y : ℕ → Fp) : Prop :=
  mask.WF ∧ mask.rowCount = n ∧ ∀ row < n, mask.bit row = Fp.cmp op (x row) (y row)

/-- The kernel on two columns of one type. -/
theorem columnKernel_eq (op : CmpOp) (htype : type.IsNumeric) (hleft : left.type = type)
    (hright : right.type = type) (hn : n ≤ kVectorBatchSize) : ∃ mask,
      columnKernel type left.buffer right.buffer n op = some mask ∧
        Compares mask n op left.numberAt right.numberAt := by
  rcases htype with rfl | rfl | rfl | rfl <;>
  · refine ⟨_, rfl, SelectionMask.WF.compareColumn _ _ hn op, rowCount_compareColumn _ _ hn op, ?_⟩
    intro row hrow
    rw [bit_compareColumn _ _ hn, decide_eq_true hrow, Bool.true_and, compareTypedValue_eq]
    simp only [ColumnData.numberAt, ColumnData.cellAt, hleft, hright]
    rfl

/-- The kernel on a column and a constant of its type. -/
theorem constKernel_eq (op : CmpOp) (htype : type.IsNumeric) (hcolumn : column.type = type)
    {value : NumericConstant} (hvalue : value.dataType = type) (hn : n ≤ kVectorBatchSize) : ∃ mask,
      constKernel type column.buffer n op value = .ok (some mask) ∧
        Compares mask n op column.numberAt fun _ => value.value := by
  cases value <;> obtain rfl := hvalue <;>
  · refine ⟨_, rfl, SelectionMask.WF.compareConst _ hn op _, rowCount_compareConst _ hn op _, ?_⟩
    intro row hrow
    rw [bit_compareConst _ hn, decide_eq_true hrow, Bool.true_and, compareTypedValue_eq]
    simp only [ColumnData.numberAt, ColumnData.cellAt, hcolumn]
    rfl

/-- The operands of a comparison exchanged. -/
theorem cmp_reverseCmpOp (op : CmpOp) (x y : Fp) : Fp.cmp (reverseCmpOp op) x y = Fp.cmp op y x := by
  cases op with
  | eq =>
    rw [reverseCmpOp, Fp.cmp, Fp.cmp, Fp.eq, Fp.eq, Bool.and_comm (!x.isNan)]
    simp only [eq_comm]
  | ne =>
    rw [reverseCmpOp, Fp.cmp, Fp.cmp, Fp.eq, Fp.eq, Bool.and_comm (!x.isNan)]
    simp only [eq_comm]
  | gt => rfl
  | ge => rfl
  | lt => rfl
  | le => rfl

/-- Comparing with a value at the same place. -/
theorem cmp_congr {x y y' : Fp} (hx : x ≠ .nan) (hy : y ≠ .nan) (hy' : y' ≠ .nan)
    (h : y'.key = y.key) : Fp.cmp op x y' = Fp.cmp op x y ∧ Fp.cmp op y' x = Fp.cmp op y x := by
  constructor
  · rw [Bool.eq_iff_iff, Fp.cmp_iff hx hy', Fp.cmp_iff hx hy, h]
  · rw [Bool.eq_iff_iff, Fp.cmp_iff hy' hx, Fp.cmp_iff hy hx, h]

/-- A coerced literal stands for its value in comparisons, NaN included. -/
theorem cmp_of_coerced {value : ExecValue} {c : NumericConstant} {a : Fp}
    (hc : tryCoerceExact value type = some c) (ha : value.asNumber = .ok a) (hsame : SameNumber a c.value)
    (x : Fp) : Fp.cmp op x c.value = Fp.cmp op x a ∧ Fp.cmp op c.value x = Fp.cmp op a x := by
  by_cases hx : x = .nan
  · subst hx
    simp only [Fp.cmp_nan_left, Fp.cmp_nan_right, and_self]
  · by_cases hnan : a = .nan
    · rw [hnan, nan_of_tryCoerceExact hc (hnan ▸ ha)]
      exact ⟨rfl, rfl⟩
    · exact cmp_congr hx hnan (hsame hnan).1 (hsame hnan).2

/-- The mask answers for every other way to write the comparison. -/
theorem Compares.congr {mask : SelectionMask} {op' : CmpOp} {x y x' y' : ℕ → Fp}
    (h : Compares mask n op x y) (heq : ∀ row, Fp.cmp op (x row) (y row) = Fp.cmp op' (x' row) (y' row)) :
    Compares mask n op' x' y' :=
  ⟨h.1, h.2.1, fun row hrow => (h.2.2 row hrow).trans (heq row)⟩

/-- What `Evaluate` leaves of a kernel's mask. -/
theorem evaluated_spec {input mask : SelectionMask} {x y : ℕ → Fp} (hwf : input.WF)
    (hn : input.rowCount = n) (hmask : Compares mask n op x y) :
    (if input.isEmpty then SelectionMask.setNone n else mask.and input).WF ∧
      (if input.isEmpty then SelectionMask.setNone n else mask.and input).rowCount = input.rowCount ∧
      ∀ row, (if input.isEmpty then SelectionMask.setNone n else mask.and input).bit row =
        (input.bit row && Fp.cmp op (x row) (y row)) := by
  obtain ⟨hmwf, hmn, hbit⟩ := hmask
  split_ifs with hempty
  · refine ⟨SelectionMask.WF.setNone n, rowCount_setNone_of_wf hwf hn, fun row => ?_⟩
    rw [SelectionMask.bit_setNone, (SelectionMask.isEmpty_iff input).mp hempty row, Bool.false_and]
  · refine ⟨hmwf.and, by rw [SelectionMask.rowCount_and, hmn, hn, Nat.min_self], fun row => ?_⟩
    rw [SelectionMask.bit_and hmwf hwf, Bool.and_comm]
    by_cases hrow : row < n
    · rw [hbit row hrow]
    · rw [hwf.unused row (hn ▸ Nat.not_lt.mp hrow), Bool.false_and, Bool.false_and]

/-- The number of a value that was read is the element's. -/
theorem asNumber_of_readExecValue {value : ExecValue} {x : Fp} (hvalue : readExecValue column row = .ok value)
    (hnumber : value.asNumber = .ok x) : column.numberAt row = x := by
  unfold readExecValue at hvalue
  split_ifs at hvalue
  unfold ColumnData.numberAt
  split at hvalue
  all_goals
    rename_i htype
    rw [htype]
  any_goals
    obtain rfl := Except.ok.inj hvalue
    exact Except.ok.inj hnumber
  · obtain rfl := Except.ok.inj hvalue
    cases hnumber
  · cases hvalue

end

namespace ExecExpression

variable {batch : VectorBatch} {left right : ExecExpression} {op : PlanBinaryOp} {cmp : CmpOp}
  {type : DataType} {row : ℕ} {x y : Fp}

/-- The operand is a number at a row. -/
def NumberAt (expr : ExecExpression) (batch : VectorBatch) (row : ℕ) (x : Fp) : Prop :=
  ∃ value, expr.eval batch row = .ok value ∧ value.asNumber = .ok x

/-- The number is the only one. -/
theorem NumberAt.unique {expr : ExecExpression} (hx : expr.NumberAt batch row x)
    (hy : expr.NumberAt batch row y) : x = y := by
  obtain ⟨a, ha, hax⟩ := hx
  obtain ⟨b, hb, hby⟩ := hy
  obtain rfl := Except.ok.inj (ha.symm.trans hb)
  exact Except.ok.inj (hax.symm.trans hby)

/-- A comparison of two numbers, row by row, NaN included. -/
theorem rowHolds_compareNumbers (hop : op.toCmpOp? = some cmp) (hleft : left.NumberAt batch row x)
    (hright : right.NumberAt batch row y) : (binary op left right type).rowHolds batch row =
      .ok (signHolds cmp (ExecValue.compareNumbers x y)) := by
  obtain ⟨a, ha, hax⟩ := hleft
  obtain ⟨b, hb, hby⟩ := hright
  have heval : (binary op left right type).eval batch row = evalOperator op a b type := by
    rw [eval.eq_5 batch row op left right type (by rintro rfl; cases hop) (by rintro rfl; cases hop),
      ha, hb]
    rfl
  rw [rowHolds, heval, evalOperator, hop]
  simp only [ExecValue.compare_of_asNumber hax hby]
  rfl

/-- A comparison of two numbers, row by row. -/
theorem rowHolds_compare (hop : op.toCmpOp? = some cmp) (hx : x ≠ .nan) (hy : y ≠ .nan)
    (hleft : left.NumberAt batch row x) (hright : right.NumberAt batch row y) :
    (binary op left right type).rowHolds batch row = .ok (Fp.cmp cmp x y) := by
  rw [rowHolds_compareNumbers hop hleft hright, signHolds_compareNumbers cmp hx hy]

/-- The number of a column reference. -/
theorem numberAt_columnRef {slot : ℕ} {column : ColumnData} (hslot : batch.columns[slot]? = some column)
    (hnum : column.type.IsNumeric) (hrow : row < column.count) :
    (columnRef slot type).NumberAt batch row (column.numberAt row) := by
  obtain ⟨value, hvalue, hnumber⟩ := readExecValue_of_isNumeric hnum hrow
  exact ⟨value, by simp only [eval, hslot, hvalue], hnumber⟩

/-- **A compiled comparison compares the numbers of its operands**, NaN included, on the rows of the
input. -/
theorem evaluate_compare {p : VectorPredicate} {input : SelectionMask}
    (hp : tryCompileNumericCompare cmp left right = some p) (hbatch : batch.Strong)
    (hleft : left.Reads batch batch.selection.rowCount) (hright : right.Reads batch batch.selection.rowCount)
    (hwf : input.WF) (hn : input.rowCount = batch.selection.rowCount) :
    ∃ (x y : ℕ → Fp) (output : SelectionMask),
      (∀ row < batch.selection.rowCount, left.NumberAt batch row (x row) ∧ right.NumberAt batch row (y row)) ∧
      p.evaluate batch batch.selection.rowCount input = .ok output ∧ output.WF ∧
      output.rowCount = input.rowCount ∧
      ∀ row, output.bit row = (input.bit row && Fp.cmp cmp (x row) (y row)) := by
  have hmax := hbatch.selection.rowCount_le
  match left, right, hp with
  | columnRef slot t, columnRef slot' t', hp =>
    simp only [tryCompileNumericCompare, classify] at hp
    split_ifs at hp with hguard
    obtain rfl := Option.some_inj.mp hp
    obtain ⟨htt, hnum⟩ : t = t' ∧ t.IsNumeric := by
      rw [not_or, not_not, not_not] at hguard
      exact hguard
    obtain ⟨column, hslot, htype, hcount⟩ := hleft
    obtain ⟨column', hslot', htype', hcount'⟩ := hright
    obtain ⟨mask, hkernel, hmask⟩ := columnKernel_eq cmp hnum htype (htype'.trans htt.symm) hmax
    refine ⟨column.numberAt, column'.numberAt, _, fun row hrow => ⟨?_, ?_⟩, ?_,
      evaluated_spec hwf hn hmask⟩
    · exact numberAt_columnRef hslot (htype ▸ hnum) (hrow.trans_le hcount)
    · exact numberAt_columnRef hslot' ((htype'.trans htt.symm) ▸ hnum) (hrow.trans_le hcount')
    · rw [VectorPredicate.evaluate]
      simp only [VectorPredicate.evaluateCompare, hslot, hslot', CompareOperand.type, hkernel,
        intersectWithInput]
      exact (apply_ite Except.ok _ _ _).symm
  | columnRef slot t, literal value t', hp =>
    simp only [tryCompileNumericCompare, classify] at hp
    split_ifs at hp with hnum
    obtain ⟨c, hc, hpc⟩ := Option.bind_eq_some_iff.mp hp
    obtain rfl := Option.some_inj.mp hpc
    obtain ⟨hctype, a, ha, hsame⟩ := tryCoerceExact_eq_some hc
    obtain ⟨column, hslot, htype, hcount⟩ := hleft
    obtain ⟨mask, hkernel, hmask⟩ := constKernel_eq cmp hnum htype hctype hmax
    refine ⟨column.numberAt, fun _ => a, _, fun row hrow => ⟨?_, value, rfl, ha⟩, ?_,
      evaluated_spec hwf hn (hmask.congr fun row => ?_)⟩
    · exact numberAt_columnRef hslot (htype ▸ hnum) (hrow.trans_le hcount)
    · rw [VectorPredicate.evaluate]
      simp only [VectorPredicate.evaluateCompare, hslot, CompareOperand.type, hkernel]
      exact (apply_ite Except.ok _ _ _).symm
    · exact (cmp_of_coerced hc ha hsame _).1
  | literal value t', columnRef slot t, hp =>
    simp only [tryCompileNumericCompare, classify] at hp
    split_ifs at hp with hnum
    obtain ⟨c, hc, hpc⟩ := Option.bind_eq_some_iff.mp hp
    obtain rfl := Option.some_inj.mp hpc
    obtain ⟨hctype, a, ha, hsame⟩ := tryCoerceExact_eq_some hc
    obtain ⟨column, hslot, htype, hcount⟩ := hright
    obtain ⟨mask, hkernel, hmask⟩ := constKernel_eq (reverseCmpOp cmp) hnum htype hctype hmax
    refine ⟨fun _ => a, column.numberAt, _, fun row hrow => ⟨⟨value, rfl, ha⟩, ?_⟩, ?_,
      evaluated_spec hwf hn (hmask.congr fun row => ?_)⟩
    · exact numberAt_columnRef hslot (htype ▸ hnum) (hrow.trans_le hcount)
    · rw [VectorPredicate.evaluate]
      simp only [VectorPredicate.evaluateCompare, hslot, CompareOperand.type, hkernel]
      exact (apply_ite Except.ok _ _ _).symm
    · rw [cmp_reverseCmpOp]
      exact (cmp_of_coerced hc ha hsame _).2
  | literal _ _, literal _ _, hp => cases hp
  | binary _ _ _ _, columnRef _ _, hp => cases hp
  | binary _ _ _ _, literal _ _, hp => cases hp
  | binary _ _ _ _, binary _ _ _ _, hp => cases hp
  | columnRef _ _, binary _ _ _ _, hp => cases hp
  | literal _ _, binary _ _ _ _, hp => cases hp

/-- A compiled comparison has no operators below it. -/
theorem operands_of_compiled {p : VectorPredicate} (hp : tryCompileNumericCompare cmp left right = some p) :
    (∀ op l r t, left ≠ binary op l r t) ∧ ∀ op l r t, right ≠ binary op l r t := by
  constructor
  · rintro op l r t rfl
    cases hp
  · rintro op l r t rfl
    cases left <;> cases hp

/-- A column or literal that a batch fits is not NaN in any row. -/
theorem ne_nan_of_fits {expr : ExecExpression} (hleaf : ∀ op l r t, expr ≠ binary op l r t)
    (hbatch : batch.Strong) (hfits : expr.Fits batch) (hrow : row < batch.selection.rowCount)
    (hx : expr.NumberAt batch row x) : x ≠ .nan := by
  obtain ⟨value, hvalue, hnumber⟩ := hx
  cases expr with
  | columnRef slot t =>
    obtain ⟨column, hslot, -, hnan⟩ := hfits
    have hcount := hbatch.counts column (List.mem_of_getElem? hslot)
    simp only [eval, hslot] at hvalue
    rw [← asNumber_of_readExecValue hvalue hnumber]
    exact hnan row (hcount ▸ hrow)
  | literal v t =>
    obtain rfl := Except.ok.inj hvalue
    exact fun h => hfits (h ▸ hnumber)
  | binary op l r t => exact absurd rfl (hleaf op l r t)

/-- A batch that an expression fits has the columns it reads. -/
theorem reads_of_fits (hbatch : batch.Strong) {expr : ExecExpression} (hfits : expr.Fits batch) :
    expr.Reads batch batch.selection.rowCount := by
  induction expr with
  | columnRef slot t =>
    obtain ⟨column, hslot, htype, -⟩ := hfits
    exact ⟨column, hslot, htype, (hbatch.counts column (List.mem_of_getElem? hslot)).ge⟩
  | literal value t => exact trivial
  | binary op l r t ihl ihr => exact ⟨ihl hfits.1, ihr hfits.2⟩

/-- **A compiled comparison is the comparison row by row.** -/
theorem agrees_compare {p : VectorPredicate} {input : SelectionMask} (hop : op.toCmpOp? = some cmp)
    (hp : tryCompileNumericCompare cmp left right = some p) (hbatch : batch.Strong)
    (hleft : left.Fits batch) (hright : right.Fits batch) (hwf : input.WF)
    (hn : input.rowCount = batch.selection.rowCount) :
    Agrees ((binary op left right type).rowHolds batch) input
      (p.evaluate batch batch.selection.rowCount input) := by
  obtain ⟨x, y, output, hnumbers, heval, howf, hcount, hbits⟩ := evaluate_compare hp hbatch
    (reads_of_fits hbatch hleft) (reads_of_fits hbatch hright) hwf hn
  obtain ⟨hlleaf, hrleaf⟩ := operands_of_compiled hp
  rw [heval]
  refine ⟨howf, hcount, fun row hrow => ?_, fun row hrow => ?_⟩
  · rw [hbits, Bool.and_eq_true] at hrow
    exact hrow.1
  · have hlt : row < batch.selection.rowCount := by
      by_contra hge
      rw [hwf.unused row (hn ▸ Nat.not_lt.mp hge)] at hrow
      cases hrow
    obtain ⟨hx, hy⟩ := hnumbers row hlt
    rw [hbits, hrow, Bool.true_and]
    exact rowHolds_compare hop (ne_nan_of_fits hlleaf hbatch hleft hlt hx)
      (ne_nan_of_fits hrleaf hbatch hright hlt hy) hx hy

/-- The row-wise predicate. -/
theorem agrees_scalarPredicate (expr : ExecExpression) {input : SelectionMask} {n : ℕ}
    (hwf : input.WF) (hn : input.rowCount = n) :
    Agrees (expr.rowHolds batch) input ((VectorPredicate.scalar expr).evaluate batch n input) := by
  rw [VectorPredicate.evaluate]
  split_ifs with hempty
  · exact agrees_of_isEmpty hwf hn hempty
  · have hstep : (fun (output : SelectionMask) row => (do
        if ← (← expr.eval batch row).asBool then return output.setBit row else return output :
          Except String SelectionMask)) =
        fun output row => do
          if ← expr.rowHolds batch row then return output.setBit row else return output := by
      funext output row
      rw [rowHolds, bind_assoc]
    rw [hstep]
    exact agrees_scalar hwf hn

/-- A truth value is read back. -/
theorem asBool_bool (m : Except String Bool) :
    (do
      let value ← (do return ExecValue.bool (← m))
      value.asBool) = m := by
  cases m <;> rfl

/-- AND, row by row. -/
theorem rowHolds_and (left right : ExecExpression) (type : DataType) (batch : VectorBatch) :
    (binary .and left right type).rowHolds batch = fun row => (do
      if ← left.rowHolds batch row then right.rowHolds batch row else return false) := by
  funext row
  simp only [rowHolds, eval]
  cases left.eval batch row with
  | error e => rfl
  | ok a =>
    simp only [bind, Except.bind]
    rcases a.asBool with e | _ | _
    · rfl
    · rfl
    · have hright := asBool_bool (do (← right.eval batch row).asBool)
      simp only [bind, Except.bind] at hright
      cases hr : right.eval batch row with
      | error e => rfl
      | ok b => simpa only [hr, if_true, Bool.false_eq_true, if_false] using hright

/-- OR, row by row. -/
theorem rowHolds_or (left right : ExecExpression) (type : DataType) (batch : VectorBatch) :
    (binary .or left right type).rowHolds batch = fun row => (do
      if ← left.rowHolds batch row then return true else right.rowHolds batch row) := by
  funext row
  simp only [rowHolds, eval]
  cases left.eval batch row with
  | error e => rfl
  | ok a =>
    simp only [bind, Except.bind]
    rcases a.asBool with e | _ | _
    · rfl
    · have hright := asBool_bool (do (← right.eval batch row).asBool)
      simp only [bind, Except.bind] at hright
      cases hr : right.eval batch row with
      | error e => rfl
      | ok b => simpa only [hr, if_true, Bool.false_eq_true, if_false] using hright
    · rfl

/-- **A compiled expression agrees with the expression row by row**, on every input mask. -/
theorem agrees_evaluate (expr : ExecExpression) (hbatch : batch.Strong) (hfits : expr.Fits batch)
    {input : SelectionMask} (hwf : input.WF) (hn : input.rowCount = batch.selection.rowCount) :
    Agrees (expr.rowHolds batch) input
      ((compileVectorPredicate expr).evaluate batch batch.selection.rowCount input) := by
  induction expr generalizing input with
  | columnRef slot type => exact agrees_scalarPredicate _ hwf hn
  | literal value type => exact agrees_scalarPredicate _ hwf hn
  | binary op left right type ihl ihr =>
    obtain ⟨hleft, hright⟩ := hfits
    by_cases hand : op = .and
    · subst hand
      rw [compileVectorPredicate, VectorPredicate.evaluate, rowHolds_and]
      split_ifs with hempty
      · exact agrees_of_isEmpty hwf hn hempty
      · exact agrees_logicalAnd (ihl hleft hwf hn) fun mask hmask hcount =>
          ihr hright hmask (hcount.trans hn)
    · by_cases hor : op = .or
      · subst hor
        rw [compileVectorPredicate, VectorPredicate.evaluate, rowHolds_or]
        split_ifs with hempty
        · exact agrees_of_isEmpty hwf hn hempty
        · exact agrees_logicalOr hwf (ihl hleft hwf hn) fun mask hmask hcount =>
            ihr hright hmask (hcount.trans hn)
      · rw [compileVectorPredicate.eq_3 op left right type hand hor]
        cases hop : op.toCmpOp? with
        | none => exact agrees_scalarPredicate _ hwf hn
        | some cmp =>
          cases hcompile : tryCompileNumericCompare cmp left right with
          | none =>
            simp only [hcompile, Option.getD_none]
            exact agrees_scalarPredicate _ hwf hn
          | some p =>
            simp only [hcompile, Option.getD_some]
            exact agrees_compare hop hcompile hbatch hleft hright hwf hn

/-- **The compiled predicate is row-wise evaluation.** On a batch that keeps its invariant and has the
slots and types that the expression refers to, without NaN, and on any input mask of the batch, the
compiled predicate fails exactly where the expression fails on a row of the input; otherwise the output
is the rows of the input on which it holds. -/
theorem compiled_eq_rowwise (expr : ExecExpression) (batch : VectorBatch) (hbatch : batch.Strong)
    (hfits : expr.Fits batch) (input : SelectionMask) (hwf : input.WF)
    (hn : input.rowCount = batch.physicalSize) :
    ((∃ e, (compileVectorPredicate expr).evaluate batch batch.physicalSize input = .error e) ↔
      ∃ row, input.bit row = true ∧ ∃ e, expr.rowHolds batch row = .error e) ∧
    ∀ output, (compileVectorPredicate expr).evaluate batch batch.physicalSize input = .ok output →
      output.WF ∧ output.rowCount = input.rowCount ∧
        ∀ row, output.bit row = true ↔ input.bit row = true ∧ expr.rowHolds batch row = .ok true := by
  have hsize : batch.physicalSize = batch.selection.rowCount := by
    rw [VectorBatch.physicalSize]
    split_ifs with h
    · rfl
    · rw [not_or, not_not] at h
      obtain ⟨column, columns, hcolumns⟩ := List.exists_cons_of_ne_nil h.2
      rw [hcolumns]
      exact hbatch.counts column (hcolumns ▸ List.mem_cons_self)
  rw [hsize] at hn ⊢
  have hagrees := agrees_evaluate expr hbatch hfits hwf hn
  cases hresult : (compileVectorPredicate expr).evaluate batch batch.selection.rowCount input with
  | error e =>
    rw [hresult] at hagrees
    exact ⟨iff_of_true ⟨e, rfl⟩ hagrees, fun output h => nomatch h⟩
  | ok output =>
    rw [hresult] at hagrees
    obtain ⟨howf, hcount, hsub, htest⟩ := hagrees
    refine ⟨iff_of_false (fun h => nomatch h) ?_, ?_⟩
    · rintro ⟨row, hrow, e, he⟩
      rw [htest row hrow] at he
      cases he
    · intro output' h
      obtain rfl := Except.ok.inj h
      refine ⟨howf, hcount, fun row => ⟨fun hrow => ?_, fun ⟨hrow, hholds⟩ => ?_⟩⟩
      · have hin := hsub row hrow
        exact ⟨hin, by rw [htest row hin, hrow]⟩
      · rw [htest row hrow] at hholds
        exact Except.ok.inj hholds

/-- One row with one INT32 cell. -/
def nineBatch : VectorBatch := ⟨[⟨.int32, [9, 0, 0, 0], 1⟩], 1, SelectionMask.setAll 1⟩

/-- `c > 3 AND 12.0 > c`. -/
def betweenThreeAndTwelve : ExecExpression :=
  .binary .and (.binary .gt (.columnRef 0 .int32) (.literal (.int32 3) .int32) .int32)
    (.binary .gt (.literal (.double (Double.ofInt 12)) .double) (.columnRef 0 .int32) .int32) .int32

/-- Its expressions fit the batch. -/
theorem betweenThreeAndTwelve_fits : betweenThreeAndTwelve.Fits nineBatch := by
  have hcolumn : (columnRef 0 .int32).Fits nineBatch :=
    ⟨_, rfl, rfl, fun row _ => Fp.ofInt_ne_nan _⟩
  refine ⟨⟨hcolumn, fun h => ?_⟩, fun h => ?_, hcolumn⟩
  · exact Fp.ofInt_ne_nan _ (Except.ok.inj h)
  · exact Double.ofInt_ne_nan _ (Except.ok.inj h)

/-- The compiled predicate fails where a row does, and keeps the rows that pass. -/
theorem compiled_eq_rowwise_nine :
    ((∃ e, (compileVectorPredicate betweenThreeAndTwelve).evaluate nineBatch nineBatch.physicalSize
        (SelectionMask.setAll 1) = .error e) ↔
      ∃ row, (SelectionMask.setAll 1).bit row = true ∧
        ∃ e, betweenThreeAndTwelve.rowHolds nineBatch row = .error e) ∧
    ∀ output, (compileVectorPredicate betweenThreeAndTwelve).evaluate nineBatch nineBatch.physicalSize
        (SelectionMask.setAll 1) = .ok output →
      output.WF ∧ output.rowCount = (SelectionMask.setAll 1).rowCount ∧
        ∀ row, output.bit row = true ↔ (SelectionMask.setAll 1).bit row = true ∧
          betweenThreeAndTwelve.rowHolds nineBatch row = .ok true :=
  compiled_eq_rowwise betweenThreeAndTwelve nineBatch
    ⟨SelectionMask.WF.setAll 1, by decide, by decide⟩ betweenThreeAndTwelve_fits
    (SelectionMask.setAll 1) (SelectionMask.WF.setAll 1) (by decide)

/-! ## NaN -/

/-- NaN is neither less nor greater than anything. -/
theorem compareNumbers_nan (x : Fp) :
    ExecValue.compareNumbers .nan x = 0 ∧ ExecValue.compareNumbers x .nan = 0 := by
  simp [ExecValue.compareNumbers]

/-- The three-way comparison says what the comparison says, but for the four operators that hold or fail at
equality when an operand is NaN. -/
theorem signHolds_eq_cmp_iff (cmp : CmpOp) (x y : Fp) :
    signHolds cmp (ExecValue.compareNumbers x y) = Fp.cmp cmp x y ↔
      (x ≠ .nan ∧ y ≠ .nan) ∨ cmp = .gt ∨ cmp = .lt := by
  by_cases hx : x = .nan
  · subst hx
    rw [(compareNumbers_nan y).1, Fp.cmp_nan_left]
    cases cmp <;> simp [signHolds]
  by_cases hy : y = .nan
  · subst hy
    rw [(compareNumbers_nan x).2, Fp.cmp_nan_right]
    cases cmp <;> simp [signHolds]
  · exact iff_of_true (signHolds_compareNumbers cmp hx hy) (.inl ⟨hx, hy⟩)

/-- **A compiled comparison and the generic one agree on a row exactly where no operand is NaN, or the
operator is `<` or `>`.** -/
theorem compiledComparison_agrees_iff {p : VectorPredicate} {input : SelectionMask}
    (hop : op.toCmpOp? = some cmp) (hp : tryCompileNumericCompare cmp left right = some p)
    (hbatch : batch.Strong) (hleft : left.Reads batch batch.selection.rowCount)
    (hright : right.Reads batch batch.selection.rowCount) (hwf : input.WF)
    (hn : input.rowCount = batch.selection.rowCount) (hrow : input.bit row = true)
    (hx : left.NumberAt batch row x) (hy : right.NumberAt batch row y) :
    ∃ output, p.evaluate batch batch.selection.rowCount input = .ok output ∧
      ((binary op left right type).rowHolds batch row = .ok (output.bit row) ↔
        (x ≠ .nan ∧ y ≠ .nan) ∨ cmp = .gt ∨ cmp = .lt) := by
  obtain ⟨x', y', output, hnumbers, heval, -, -, hbits⟩ :=
    evaluate_compare hp hbatch hleft hright hwf hn
  have hlt : row < batch.selection.rowCount := by
    by_contra hge
    rw [hwf.unused row (hn ▸ Nat.not_lt.mp hge)] at hrow
    cases hrow
  obtain ⟨hx', hy'⟩ := hnumbers row hlt
  obtain rfl := hx.unique hx'
  obtain rfl := hy.unique hy'
  refine ⟨output, heval, ?_⟩
  rw [rowHolds_compareNumbers hop hx hy, hbits, hrow, Bool.true_and, ← signHolds_eq_cmp_iff]
  exact ⟨fun h => Except.ok.inj h, fun h => congrArg Except.ok h⟩

/-- One row with a NaN in a DOUBLE column. -/
def nanBatch : VectorBatch := ⟨[⟨.double, [0, 0, 0, 0, 0, 0, 248, 127], 1⟩], 1, SelectionMask.setAll 1⟩

/-- The row holds NaN. -/
theorem numberAt_nanBatch : (columnRef 0 .double).NumberAt nanBatch 0 .nan := by
  refine ⟨_, rfl, ?_⟩
  have hnan : (Numeric.read (cell 8 0 [0, 0, 0, 0, 0, 0, 248, 127]) : Double).val = .nan := by decide +kernel
  exact congrArg Except.ok hnan

/-- NaN is at least NaN for the generic path, and not for the kernel. -/
theorem nanBatch_disagrees : ∃ p output,
    tryCompileNumericCompare .ge (columnRef 0 .double) (columnRef 0 .double) = some p ∧
      p.evaluate nanBatch 1 (SelectionMask.setAll 1) = .ok output ∧ output.bit 0 = false ∧
      (ExecExpression.binary .ge (columnRef 0 .double) (columnRef 0 .double) .int32).rowHolds nanBatch 0 =
        .ok true := by
  refine ⟨_, _, rfl, rfl, by decide +kernel, ?_⟩
  have hop : PlanBinaryOp.toCmpOp? .ge = some .ge := rfl
  exact rowHolds_compareNumbers hop numberAt_nanBatch numberAt_nanBatch

/-- On the same row `>` fails on both paths. -/
theorem compiledComparison_agrees_nan : ∃ output,
    VectorPredicate.evaluate nanBatch 1 (.numericCompare .gt (.column .double 0) (.column .double 0))
      (SelectionMask.setAll 1) = .ok output ∧
      ((ExecExpression.binary .gt (columnRef 0 .double) (columnRef 0 .double) .int32).rowHolds nanBatch 0 =
          .ok (output.bit 0) ↔ (Fp.nan ≠ .nan ∧ Fp.nan ≠ .nan) ∨ CmpOp.gt = .gt ∨ CmpOp.gt = .lt) := by
  have hreads : (columnRef 0 .double).Reads nanBatch nanBatch.selection.rowCount :=
    ⟨_, rfl, rfl, by decide⟩
  have hop : PlanBinaryOp.toCmpOp? .gt = some .gt := rfl
  have hbit : (SelectionMask.setAll 1).bit 0 = true := by decide
  exact compiledComparison_agrees_iff hop rfl ⟨SelectionMask.WF.setAll 1, by decide, by decide⟩ hreads hreads
    (SelectionMask.WF.setAll 1) rfl hbit numberAt_nanBatch numberAt_nanBatch

end ExecExpression

end SimpleOlap
