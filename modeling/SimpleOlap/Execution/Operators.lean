import SimpleOlap.Execution.OperatorTree
import SimpleOlap.Execution.Projection
import SimpleOlap.Storage.Table.Keys
import SimpleOlap.Storage.Table.ParallelScan

/-!
# Running operators

* `RunningOperator`: an operator after its `Init`, with the state it keeps between calls.
* `Operator.init`: the `Init` of a tree.
* `RunningOperator.next`: one call of `Next`: the state after it, and the batch or none. An operator that
  calls its child until something comes out is given a number of steps.
* `HandedOver`: the batches that the operators of a tree hand over, at any time of any run.
* `deliverable_of_handedOver`: every one of them satisfies the batch invariant and has an active row.

Source: `operator.h`, `seq_scan.cpp`, `index_scan.cpp`, `filter.cpp`, `projection.cpp`, `hash_aggregate.cpp`.
-/

namespace SimpleOlap

open Lib

/-! ## What a query runs on -/

/-- A table in memory and its directory. -/
structure OpenTable where
  storage : TableStorage
  disk : Disk
  segmentCount : storage.metadata.segmentIds.length < 2 ^ 32

/-- What the operators of a query refer to. `order` is the order in which the hash table of an aggregate is
gone through; `shared` is, for the worker of a parallel query, the shared state of the scan as the worker
finds it at each of its looks. Source: `execution_context.h`, and ExecutorBuildOptions. -/
structure ExecutionContext where
  catalog : TableId → Option TableSchema
  tables : TableId → Option OpenTable
  backend : Backend
  order : GroupTable → GroupTable
  shared : Option (ℕ → ParallelScanGlobalState)

/-! ## States -/

/-- The rows to read of one segment. Source: `index_scan.h` SegmentRows. -/
structure SegmentRows where
  segmentId : SegmentId
  rowOffsets : List ℕ
  deriving DecidableEq, Repr

/-- Source: the fields of the operators, after `Init`. The rows of an index scan are those not read yet, the
groups of an aggregate those not handed out yet. -/
inductive RunningOperator
  | seqScan (table : OpenTable) (options : ScanOptions) (cursor : ScanCursor)
  | parallelScan (table : OpenTable) (options : ScanOptions) (shared : ℕ → ParallelScanGlobalState)
      (looks : ℕ) (localState : ParallelScanLocalState)
  | indexScan (table : OpenTable) (columns : List ColumnId)
      (prepared : Option (List PreparedStoragePredicate)) (groups : List SegmentRows)
  | filter (child : RunningOperator) (predicate : VectorPredicate)
  | projection (child : RunningOperator) (expressions : List ExecExpression)
  | hashAggregate (child : RunningOperator) (spec : AggregateSpec) (state : HashAggregateState)
      (rest : Option GroupTable)

/-! ## Scans through an index -/

/-- The order of locations. Source: `index_scan.cpp` Init, the argument of sort. -/
def RowLocation.before (a b : RowLocation) : Bool :=
  if a.segmentId ≠ b.segmentId then a.segmentId < b.segmentId else a.rowOffset ≤ b.rowOffset

/-- Locations in order, segment by segment. Source: `index_scan.cpp` Init, the loop over the locations. -/
def groupLocations : List RowLocation → List SegmentRows
  | [] => []
  | location :: locations =>
    match groupLocations locations with
    | [] => [⟨location.segmentId, [location.rowOffset]⟩]
    | group :: groups =>
      if group.segmentId = location.segmentId then
        ⟨group.segmentId, location.rowOffset :: group.rowOffsets⟩ :: groups
      else ⟨location.segmentId, [location.rowOffset]⟩ :: group :: groups

/-- The filter of an index scan. Source: `index_scan.cpp` Next, the residual predicates. -/
def filterResidual (prepared : Option (List PreparedStoragePredicate)) (batch : VectorBatch) :
    Except String VectorBatch :=
  match prepared with
  | some (p :: ps) => StorageRowFilter.apply (p :: ps) ((p :: ps).map fun _ => true) batch
  | _ => .ok batch

/-- Source: `index_scan.cpp` Next, the loop. -/
def indexScanNext (disk : Disk) (columns : List ColumnId) (prepared : Option (List PreparedStoragePredicate)) :
    List SegmentRows → Except String (List SegmentRows × Option VectorBatch)
  | [] => .ok ([], none)
  | group :: groups =>
    if group.rowOffsets = [] then indexScanNext disk columns prepared groups
    else
      let left := ⟨group.segmentId, group.rowOffsets.drop kVectorBatchSize⟩ :: groups
      match TableStorage.readRows disk group.segmentId (group.rowOffsets.take kVectorBatchSize) columns with
      | none => .error ("IndexScanOperator: failed to read rows from segment " ++ toString group.segmentId)
      | some batch =>
        match filterResidual prepared batch with
        | .error e => .error e
        | .ok filtered =>
          -- nothing of the batch passed: go on with the next one
          if filtered.size = 0 then indexScanNext disk columns prepared left else .ok (left, some filtered)
termination_by groups => (groups.map fun group => group.rowOffsets.length + 1).sum
decreasing_by
  · simp only [List.map_cons, List.sum_cons]
    omega
  · have hpos : 0 < group.rowOffsets.length := List.length_pos_iff.mpr ‹_›
    simp only [List.map_cons, List.sum_cons, List.length_drop, kVectorBatchSize]
    omega

/-! ## Init -/

/-- The schema and the storage of a table. -/
def ExecutionContext.openTable (ctx : ExecutionContext) (operator : String) (tableId : TableId) :
    Except String (TableSchema × OpenTable) :=
  match ctx.catalog tableId, ctx.tables tableId with
  | none, _ => .error (operator ++ ": table not found: " ++ toString tableId)
  | some _, none => .error (operator ++ ": table storage not found: " ++ toString tableId)
  | some schema, some table => .ok (schema, table)

/-- Source: `seq_scan.cpp` Init; in a parallel query the operator has the shared state of the scan. -/
def initSeqScan (ctx : ExecutionContext) (tableId : TableId) (options : ScanOptions) :
    Except String RunningOperator := do
  let (_, table) ← ctx.openTable "SeqScanOperator" tableId
  match ctx.shared with
  | none => return .seqScan table options .fresh
  | some shared => return .parallelScan table options shared 0 .reset

/-- The predicates of an index scan. Source: `index_scan.cpp` Init, step 3. -/
def prepareResidual (schema : TableSchema) (columns : List ColumnId) (residual : List Condition) :
    Except String (Option (List PreparedStoragePredicate)) :=
  if residual = [] then .ok none
  else some <$> PreparedScanPredicates.build { columns, predicates := residual } schema

/-- Source: `index_scan.cpp` Init. -/
def initIndexScan (ctx : ExecutionContext) (tableId : TableId) (keyId : KeyId)
    (lookupValues : List ScalarValue) (columns : List ColumnId) (residual : List Condition) :
    Except String RunningOperator := do
  let (schema, table) ← ctx.openTable "IndexScanOperator" tableId
  match findKeySchema schema keyId with
  | none => .error ("IndexScanOperator: key not found: " ++ toString keyId)
  | some key => do
    let encoded ← KeyEncoder.encodeValues schema key lookupValues
    let locations := (table.storage.lookup keyId encoded).mergeSort RowLocation.before
    let prepared ← prepareResidual schema columns residual
    return .indexScan table columns prepared (groupLocations locations)

/-- The `Init` of a tree. Source: the functions `Init` of the operators. -/
def Operator.init (ctx : ExecutionContext) : Operator → Except String RunningOperator
  | .seqScan tableId options => initSeqScan ctx tableId options
  | .indexScan tableId keyId lookupValues columns residual =>
    initIndexScan ctx tableId keyId lookupValues columns residual
  | .filter child predicate => do return .filter (← child.init ctx) (compileVectorPredicate predicate)
  | .projection child expressions => do return .projection (← child.init ctx) expressions
  | .hashAggregate child spec => do return .hashAggregate (← child.init ctx) spec spec.initial none

/-! ## Next -/

/-- The batch of an aggregate. Source: `hash_aggregate_state.cpp` NextGroupedResult, NextGlobalResult. -/
def resultBatch (outputs : List AggregateOutputSpec) (rows : List (List ExecValue)) : VectorBatch :=
  let columns := outputs.zipIdx.map fun (output, i) =>
    ColumnData.mk output.type (rows.flatMap fun row => (row[i]?.map ExecValue.cell).getD []) rows.length
  ({ VectorBatch.empty with columns }).setIdentitySelection rows.length

/-- The rows that pass, none where no row does. Source: `filter.cpp` Next, the body of the loop. -/
def filterNext (predicate : VectorPredicate) (batch : VectorBatch) : Except String (Option VectorBatch) :=
  if batch.physicalSize = 0 then .ok none
  else do
    let result ← predicate.evaluate batch batch.physicalSize batch.selection
    if result.isEmpty then return none
    else if result.isAll then return some (batch.setIdentitySelection batch.physicalSize)
    else return some (batch.setSelection result)

/-- One round of the loop of a parallel scan. Source: `table_storage.cpp` ScanParallel. -/
inductive ScanRound
  /-- the call returns -/
  | returns (localState : ParallelScanLocalState) (output : Option VectorBatch)
  /-- the loop goes on -/
  | continues (localState : ParallelScanLocalState)

/-- Read on in the segment that the worker holds. Source: `table_storage.cpp` ScanParallel, from the call of
ScanSegment on. -/
def scanHeldSegment (options : ScanOptions) (localState : ParallelScanLocalState) :
    Except String ScanRound :=
  match localState.reader with
  | none => .error "null segment reader"
  | some reader =>
    match scanSegment SegmentReader.evaluatePredicates reader options localState.cursor with
    | .error e => .error e
    | .ok (_, none) => .ok (.continues .reset)
    | .ok (cursor, some output) =>
      if output.size = 0 then .ok (.continues { localState with cursor })
      else .ok (.returns { localState with cursor } (some output))

/-- Source: `table_storage.cpp` ScanParallel, the body of the loop; `g` is the shared state at this time. -/
def scanParallelRound (disk : Disk) (options : ScanOptions) (g : ParallelScanGlobalState)
    (localState : ParallelScanLocalState) : Except String ScanRound :=
  if g.cancelled then .ok (.returns localState none)
  else if localState.hasSegment then scanHeldSegment options localState
  else
    match g.claimSegment with
    | (_, none) => .ok (.returns localState none)
    | (_, some id) =>
      match disk.getSegmentReader id with
      | none => .error ("TableStorage::ScanParallel - failed to open segment " ++ toString id)
      | some reader => scanHeldSegment options ⟨id, some reader, .start g.preparedPredicates, true⟩

/-- One call of `Next`, with a number of steps for the loops over the batches of a child. -/
def RunningOperator.next (ctx : ExecutionContext) :
    ℕ → RunningOperator → Except String (RunningOperator × Option VectorBatch)
  | 0, _ => .error "out of steps"
  | _ + 1, .seqScan table options cursor => do
    let (cursor, output) ← TableStorage.scan SegmentReader.evaluatePredicates table.storage
      table.segmentCount table.disk options cursor
    return (.seqScan table options cursor, output)
  | n + 1, .parallelScan table options shared looks localState => do
    match ← scanParallelRound table.disk options (shared looks) localState with
    | .returns localState output => return (.parallelScan table options shared (looks + 1) localState, output)
    | .continues localState => next ctx n (.parallelScan table options shared (looks + 1) localState)
  | _ + 1, .indexScan table columns prepared groups => do
    let (groups, output) ← indexScanNext table.disk columns prepared groups
    return (.indexScan table columns prepared groups, output)
  | n + 1, .filter child predicate => do
    match ← next ctx n child with
    | (child, none) => return (.filter child predicate, none)
    | (child, some batch) =>
      match ← filterNext predicate batch with
      | none => next ctx n (.filter child predicate)
      | some output => return (.filter child predicate, some output)
  | n + 1, .projection child expressions => do
    match ← next ctx n child with
    | (child, none) => return (.projection child expressions, none)
    | (child, some batch) =>
      if batch.size = 0 then next ctx n (.projection child expressions)
      else return (.projection child expressions, some (← projectBatch ctx.backend expressions batch))
  | n + 1, .hashAggregate child spec state none => do
    match ← next ctx n child with
    | (child, none) =>
      -- the input is consumed: from now on groups are handed out
      let groups := state.outputGroups spec
      next ctx n (.hashAggregate child spec state (some (if spec.isGlobal then groups else ctx.order groups)))
    | (child, some batch) =>
      let state ← state.consume spec batch
      next ctx n (.hashAggregate child spec state none)
  | _ + 1, .hashAggregate child spec state (some rest) => do
    match ← spec.nextResult rest with
    | none => return (.hashAggregate child spec state (some rest), none)
    | some (rows, rest) =>
      return (.hashAggregate child spec state (some rest), some (resultBatch spec.outputs rows))

/-- An aggregate hands out some of the groups that are left. -/
theorem next_hashAggregate_some {ctx : ExecutionContext} {n : ℕ} {child : RunningOperator}
    {spec : AggregateSpec} {state : HashAggregateState} {rest rest' : GroupTable}
    {rows : List (List ExecValue)} (h : spec.nextResult rest = .ok (some (rows, rest'))) :
    RunningOperator.next ctx (n + 1) (.hashAggregate child spec state (some rest)) =
      .ok (.hashAggregate child spec state (some rest'), some (resultBatch spec.outputs rows)) := by
  rw [RunningOperator.next, h]
  rfl

/-! ## What one call hands over -/

section

variable {ctx : ExecutionContext}

/-- Rows at some offsets are read as a batch of which every row is active. -/
theorem identity_readRows {disk : Disk} {id : SegmentId} {rowOffsets : List ℕ} {columns : List ColumnId}
    {b : VectorBatch} (hfits : rowOffsets.length < 2 ^ 32)
    (h : TableStorage.readRows disk id rowOffsets columns = some b) :
    StorageRowFilter.Identity b rowOffsets.length := by
  unfold TableStorage.readRows at h
  split at h
  · cases h
  · rw [SegmentReader.gatherRows_of_lt hfits h]
    refine ⟨rfl, rfl, fun col hcol => ?_⟩
    obtain ⟨id, -, rfl⟩ := List.mem_map.mp hcol
    rfl

theorem strong_filterResidual {prepared : Option (List PreparedStoragePredicate)} {b out : VectorBatch} {n : ℕ}
    (hb : StorageRowFilter.Identity b n) (hn : n ≤ kVectorBatchSize)
    (h : filterResidual prepared b = .ok out) : out.Strong := by
  unfold filterResidual at h
  split at h
  · exact StorageRowFilter.strong_apply hb hn h
  · obtain rfl := Except.ok.inj h
    have hself : b = b.setIdentitySelection n := by
      rw [VectorBatch.setIdentitySelection, ← hb.selection, ← hb.size]
    rw [hself]
    exact StorageRowFilter.strong_setIdentitySelection hn hb.counts

/-- A batch of an index scan, whichever rows are left to read. -/
theorem deliverable_indexScanNext {disk : Disk} {columns : List ColumnId}
    {prepared : Option (List PreparedStoragePredicate)} {groups groups' : List SegmentRows} {b : VectorBatch}
    (h : indexScanNext disk columns prepared groups = .ok (groups', some b)) : b.Deliverable := by
  fun_induction indexScanNext disk columns prepared groups with
  | case1 | case3 | case4 => simp at h
  | case2 _ _ _ ih => exact ih h
  | case5 _ _ _ _ _ _ _ _ _ ih => exact ih h
  | case6 group groups hne left batch hread filtered hfilter hsize =>
    simp only [Except.ok.injEq, Prod.mk.injEq, Option.some.injEq] at h
    rw [← h.2]
    have hlen : (group.rowOffsets.take kVectorBatchSize).length ≤ kVectorBatchSize := List.length_take_le _ _
    exact (strong_filterResidual (identity_readRows (lt_of_le_of_lt hlen (by decide)) hread) hlen hfilter).deliverable
      (Nat.pos_of_ne_zero hsize)

/-- A batch of a worker. -/
theorem deliverable_scanHeldSegment {options : ScanOptions} {localState localState' : ParallelScanLocalState}
    {b : VectorBatch} (h : scanHeldSegment options localState = .ok (.returns localState' (some b))) :
    b.Deliverable := by
  unfold scanHeldSegment at h
  split at h
  · cases h
  · split at h
    · cases h
    · cases h
    · next hscan =>
      split_ifs at h with hsize
      · cases h
      · simp only [Except.ok.injEq, ScanRound.returns.injEq, Option.some.injEq] at h
        exact h.2 ▸ (strong_scanSegment hscan).deliverable (Nat.pos_of_ne_zero hsize)

theorem deliverable_scanParallelRound {disk : Disk} {options : ScanOptions} {g : ParallelScanGlobalState}
    {localState localState' : ParallelScanLocalState} {b : VectorBatch}
    (h : scanParallelRound disk options g localState = .ok (.returns localState' (some b))) :
    b.Deliverable := by
  unfold scanParallelRound at h
  split_ifs at h
  · cases h
  · exact deliverable_scanHeldSegment h
  · split at h
    · cases h
    · split at h
      · cases h
      · exact deliverable_scanHeldSegment h

/-- A kernel gives a mask on the rows of the batch. -/
theorem wf_columnKernel {type : DataType} {lhs rhs : Bytes} {n : ℕ} {op : CmpOp} {mask : SelectionMask}
    (hn : n ≤ kVectorBatchSize) (h : columnKernel type lhs rhs n op = some mask) :
    mask.WF ∧ mask.rowCount = n := by
  unfold columnKernel at h
  split at h
  any_goals
    rw [← Option.some.inj h]
    exact ⟨SelectionMask.WF.compareColumn _ _ hn _, rowCount_compareColumn _ _ hn _⟩
  cases h

theorem wf_constKernel {type : DataType} {data : Bytes} {n : ℕ} {op : CmpOp} {value : NumericConstant}
    {mask : SelectionMask} (hn : n ≤ kVectorBatchSize)
    (h : constKernel type data n op value = .ok (some mask)) : mask.WF ∧ mask.rowCount = n := by
  unfold constKernel at h
  split at h
  any_goals
    rw [← Option.some.inj (Except.ok.inj h)]
    exact ⟨SelectionMask.WF.compareConst _ hn _ _, rowCount_compareConst _ hn _ _⟩
  all_goals cases h

section

variable {batch : VectorBatch} {n : ℕ} {input : SelectionMask}

theorem wf_setNone (hn : n ≤ kVectorBatchSize) :
    (SelectionMask.setNone n).WF ∧ (SelectionMask.setNone n).rowCount = n :=
  ⟨SelectionMask.WF.setNone n, Nat.min_eq_left hn⟩

/-- So does its intersection with the input. -/
theorem wf_intersectWithInput {result : Option SelectionMask} (hn : n ≤ kVectorBatchSize)
    (hrows : input.rowCount = n) (h : ∀ mask, result = some mask → mask.WF ∧ mask.rowCount = n) :
    (intersectWithInput result n input).WF ∧ (intersectWithInput result n input).rowCount = n := by
  unfold intersectWithInput
  split
  · next mask =>
    obtain ⟨hwf, hmask⟩ := h mask rfl
    exact ⟨hwf.and, by rw [SelectionMask.rowCount_and, hmask, hrows, Nat.min_self]⟩
  · exact wf_setNone hn

theorem wf_evaluateCompare {op : CmpOp} {lhs rhs : CompareOperand} {output : SelectionMask}
    (hn : n ≤ kVectorBatchSize) (hrows : input.rowCount = n)
    (h : VectorPredicate.evaluateCompare op lhs rhs batch n input = .ok output) :
    output.WF ∧ output.rowCount = n := by
  have hconst : ∀ {type : DataType} {data : Bytes} {value : NumericConstant},
      (do return intersectWithInput (← constKernel type data n op value) n input) = Except.ok output →
      output.WF ∧ output.rowCount = n := by
    intro type data value h
    obtain ⟨result, hresult, h⟩ := bind_eq_ok h
    rw [← Except.ok.inj h]
    exact wf_intersectWithInput hn hrows fun mask hmask => wf_constKernel hn (hmask ▸ hresult)
  unfold VectorPredicate.evaluateCompare at h
  split at h
  · split at h
    · rw [← Except.ok.inj h]
      exact wf_intersectWithInput hn hrows fun mask hmask => wf_columnKernel hn hmask
    · rw [← Except.ok.inj h]
      exact wf_setNone hn
  any_goals
    split at h
    · exact hconst h
    · rw [← Except.ok.inj h]
      exact wf_setNone hn
  · rw [← Except.ok.inj h]
    exact wf_setNone hn

/-- **A predicate gives a mask on the rows of the batch**, whatever it is. -/
theorem wf_evaluate (hn : n ≤ kVectorBatchSize) (p : VectorPredicate) {output : SelectionMask}
    (hwf : input.WF) (hrows : input.rowCount = n) (h : p.evaluate batch n input = .ok output) :
    output.WF ∧ output.rowCount = n := by
  induction p generalizing input output with
  | numericCompare op lhs rhs =>
    unfold VectorPredicate.evaluate at h
    split_ifs at h
    · rw [← Except.ok.inj h]
      exact wf_setNone hn
    · exact wf_evaluateCompare hn hrows h
  | logical op lhs rhs ihl ihr =>
    cases op with
    | and =>
      unfold VectorPredicate.evaluate at h
      split_ifs at h
      · rw [← Except.ok.inj h]
        exact wf_setNone hn
      obtain ⟨left, hleft, h⟩ := bind_eq_ok h
      obtain ⟨hlwf, hlrows⟩ := ihl hwf hrows hleft
      split_ifs at h
      · rw [← Except.ok.inj h]
        exact ⟨hlwf, hlrows⟩
      obtain ⟨right, hright, h⟩ := bind_eq_ok h
      obtain ⟨-, hrrows⟩ := ihr hlwf hlrows hright
      rw [← Except.ok.inj h]
      exact ⟨hlwf.and, by rw [SelectionMask.rowCount_and, hlrows, hrrows, Nat.min_self]⟩
    | or =>
      unfold VectorPredicate.evaluate at h
      split_ifs at h
      · rw [← Except.ok.inj h]
        exact wf_setNone hn
      obtain ⟨left, hleft, h⟩ := bind_eq_ok h
      obtain ⟨hlwf, hlrows⟩ := ihl hwf hrows hleft
      split_ifs at h
      · rw [← Except.ok.inj h]
        exact ⟨hlwf, hlrows⟩
      obtain ⟨right, hright, h⟩ := bind_eq_ok h
      obtain ⟨hrwf, hrrows⟩ := ihr hwf.andNot (by rw [SelectionMask.rowCount_andNot, hrows]) hright
      rw [← Except.ok.inj h]
      exact ⟨hlwf.or hrwf, by rw [SelectionMask.rowCount_or, hlrows, hrrows, Nat.max_self]⟩
  | scalar expr =>
    have hagrees : Agrees (expr.rowHolds batch) input ((VectorPredicate.scalar expr).evaluate batch n input) :=
      ExecExpression.agrees_scalarPredicate expr hwf hrows
    rw [h] at hagrees
    exact ⟨hagrees.1, hagrees.2.1.trans hrows⟩

end

/-- A filter hands over what passes of the batch. -/
theorem deliverable_filterNext {predicate : VectorPredicate} {b out : VectorBatch} (hb : b.Deliverable)
    (h : filterNext predicate b = .ok (some out)) : out.Deliverable := by
  unfold filterNext at h
  rw [hb.physicalSize] at h
  split_ifs at h
  · cases h
  obtain ⟨result, hresult, h⟩ := bind_eq_ok h
  obtain ⟨hwf, hrows⟩ := wf_evaluate hb.small predicate hb.selection rfl hresult
  split_ifs at h with hempty hall
  · cases h
  · obtain rfl := Option.some.inj (Except.ok.inj h)
    exact VectorBatch.deliverable_setIdentitySelection (hb.nonempty.trans_le hb.size_le) hb.small hb.counts
  · obtain rfl := Option.some.inj (Except.ok.inj h)
    have hstrong : (b.setSelection result).Strong :=
      ⟨hwf, fun col hcol => (hb.counts col hcol).trans hrows.symm, rfl⟩
    apply hstrong.deliverable
    show 0 < result.count
    -- a mask that is not empty has a bit, on one of its rows
    rw [SelectionMask.count_eq hwf, List.countP_pos_iff]
    by_contra hnone
    refine hempty ((SelectionMask.isEmpty_iff result).mpr fun row => ?_)
    by_cases hlt : row < result.rowCount
    · exact Bool.eq_false_iff.mpr fun hbit => hnone ⟨row, List.mem_range.mpr hlt, hbit⟩
    · exact hwf.unused row (Nat.not_lt.mp hlt)

/-- An aggregate hands over at most 1024 groups, and at least one. -/
theorem deliverable_resultBatch {spec : AggregateSpec} {rest rest' : GroupTable}
    {rows : List (List ExecValue)} (h : spec.nextResult rest = .ok (some (rows, rest'))) :
    (resultBatch spec.outputs rows).Deliverable := by
  unfold AggregateSpec.nextResult at h
  split_ifs at h with hempty
  · cases h
  obtain ⟨rows', hrows, h⟩ := bind_eq_ok h
  obtain ⟨rfl, -⟩ := Prod.mk.inj (Option.some.inj (Except.ok.inj h))
  have hlen : rows'.length = (rest.take kVectorBatchSize).length := length_of_mapM_eq_ok hrows
  have hpos : 0 < rest.length := by
    rw [List.length_pos_iff]
    simpa using hempty
  rw [List.length_take] at hlen
  apply VectorBatch.deliverable_setIdentitySelection
  · have : 0 < kVectorBatchSize := by decide
    omega
  · exact hlen ▸ Nat.min_le_left _ _
  · intro col hcol
    obtain ⟨output, -, rfl⟩ := List.mem_map.mp hcol
    rfl

/-- **One call hands over a deliverable batch**, whichever operator it is and in which state. -/
theorem deliverable_next {n : ℕ} {op op' : RunningOperator} {b : VectorBatch}
    (h : op.next ctx n = .ok (op', some b)) : b.Deliverable := by
  induction n generalizing op op' b with
  | zero => cases h
  | succ n ih =>
    cases op with
    | seqScan table options cursor =>
      obtain ⟨⟨cursor', output⟩, hscan, h⟩ := bind_eq_ok h
      obtain ⟨-, rfl⟩ := Prod.mk.inj (Except.ok.inj h)
      obtain ⟨hstrong, hpos⟩ := TableStorage.strong_scan hscan
      exact hstrong.deliverable hpos
    | parallelScan table options shared looks localState =>
      obtain ⟨round, hround, h⟩ := bind_eq_ok h
      cases round with
      | returns localState' output =>
        obtain ⟨-, rfl⟩ := Prod.mk.inj (Except.ok.inj h)
        exact deliverable_scanParallelRound hround
      | continues localState' => exact ih h
    | indexScan table columns prepared groups =>
      obtain ⟨⟨groups', output⟩, hscan, h⟩ := bind_eq_ok h
      obtain ⟨-, rfl⟩ := Prod.mk.inj (Except.ok.inj h)
      exact deliverable_indexScanNext hscan
    | filter child predicate =>
      obtain ⟨⟨child', input⟩, hchild, h⟩ := bind_eq_ok h
      rcases input with _ | input
      · cases h
      · obtain ⟨output, houtput, h⟩ := bind_eq_ok h
        rcases output with _ | output
        · exact ih h
        · obtain ⟨-, hout⟩ := Prod.mk.inj (Except.ok.inj h)
          exact Option.some.inj hout ▸ deliverable_filterNext (ih hchild) houtput
    | projection child expressions =>
      obtain ⟨⟨child', input⟩, hchild, h⟩ := bind_eq_ok h
      rcases input with _ | input
      · cases h
      · dsimp only at h
        split_ifs at h
        · exact ih h
        · obtain ⟨output, houtput, h⟩ := bind_eq_ok h
          obtain ⟨-, hout⟩ := Prod.mk.inj (Except.ok.inj h)
          exact Option.some.inj hout ▸ deliverable_projectBatch (ih hchild) houtput
    | hashAggregate child spec state rest =>
      rcases rest with _ | rest
      · obtain ⟨⟨child', input⟩, -, h⟩ := bind_eq_ok h
        rcases input with _ | input
        · exact ih h
        · obtain ⟨state', -, h⟩ := bind_eq_ok h
          exact ih h
      · obtain ⟨result, hresult, h⟩ := bind_eq_ok h
        rcases result with _ | ⟨rows, rest'⟩
        · cases h
        · obtain ⟨-, hout⟩ := Prod.mk.inj (Except.ok.inj h)
          exact Option.some.inj hout ▸ deliverable_resultBatch hresult

end

/-! ## Whole runs -/

/-- The operator whose batches an operator reads. -/
def RunningOperator.child? : RunningOperator → Option RunningOperator
  | .filter child _ | .projection child _ | .hashAggregate child _ _ _ => some child
  | _ => none

/-- The batches that the operators of a tree hand over, in calls of any of them, one after the other. -/
inductive HandedOver (ctx : ExecutionContext) : RunningOperator → VectorBatch → Prop
  | now {op op' : RunningOperator} {n : ℕ} {b : VectorBatch} (h : op.next ctx n = .ok (op', some b)) :
      HandedOver ctx op b
  | later {op op' : RunningOperator} {n : ℕ} {output : Option VectorBatch} {b : VectorBatch}
      (h : op.next ctx n = .ok (op', output)) (hlater : HandedOver ctx op' b) : HandedOver ctx op b
  | inner {op child : RunningOperator} {b : VectorBatch} (hchild : op.child? = some child)
      (hinner : HandedOver ctx child b) : HandedOver ctx op b

/-- **Every batch between operators satisfies the strong invariant**, whatever tree it is and in whatever
state, and the rows that the operator above goes through are rows of every column. -/
theorem deliverable_of_handedOver {ctx : ExecutionContext} {op : RunningOperator} {b : VectorBatch}
    (h : HandedOver ctx op b) :
    (∀ col ∈ b.columns, col.count = b.selection.rowCount) ∧ b.selection.rowCount ≤ 1024 ∧
      b.size = b.selection.count ∧ 0 < b.size ∧
      b.physicalSize = b.selection.rowCount ∧ ∀ row ∈ b.activeIndices, ∀ col ∈ b.columns, row < col.count := by
  have hb : b.Deliverable := by
    induction h with
    | now h => exact deliverable_next h
    | later _ _ ih => exact ih
    | inner _ _ ih => exact ih
  exact ⟨hb.counts, hb.small, hb.size, hb.nonempty, hb.physicalSize, fun row hrow col hcol =>
    hb.lt_count hrow hcol⟩

theorem segmentCount_oneRowTable : oneRowTable.metadata.segmentIds.length < 2 ^ 32 := by decide

/-- The query of a worker on a table of one row, whose only segment nobody has claimed. -/
def oneRowContext : ExecutionContext where
  catalog _ := some oneColumnSchema
  tables _ := some ⟨oneRowTable, oneRowDisk, segmentCount_oneRowTable⟩
  backend := .scalar
  order := id
  shared := some fun looks => ⟨[0], looks, none, false⟩

/-- `SELECT c FROM t WHERE c = 7`, without a pushed predicate. -/
def oneRowPlan : PhysicalPlan :=
  .project [⟨.columnRef 0 0 .int32, []⟩]
    (.filter (.binary .eq (.columnRef 0 0 .int32) (.literal (.int32 7) .int32) .int32) (.seqScan 0 [0] []))

/-- The batch with the row, from the plan on. -/
theorem deliverable_of_handedOver_oneRow :
    ∃ built op b, buildNode oneRowContext.catalog oneRowPlan = .ok built ∧
      built.root.init oneRowContext = .ok op ∧ HandedOver oneRowContext op b ∧
      (∀ col ∈ b.columns, col.count = b.selection.rowCount) ∧ b.selection.rowCount ≤ 1024 ∧
      b.size = b.selection.count ∧ 0 < b.size ∧
      b.physicalSize = b.selection.rowCount ∧ ∀ row ∈ b.activeIndices, ∀ col ∈ b.columns, row < col.count := by
  obtain ⟨built, hbuilt⟩ : ∃ built, buildNode oneRowContext.catalog oneRowPlan = .ok built := ⟨_, rfl⟩
  have hnext : ∃ op op' b, built.root.init oneRowContext = .ok op ∧
      op.next oneRowContext 4 = .ok (op', some b) := by
    cases hbuilt
    exact ⟨_, _, _, rfl, rfl⟩
  obtain ⟨op, op', b, hinit, hnext⟩ := hnext
  exact ⟨built, op, b, hbuilt, hinit, .now hnext, deliverable_of_handedOver (.now hnext)⟩

end SimpleOlap
