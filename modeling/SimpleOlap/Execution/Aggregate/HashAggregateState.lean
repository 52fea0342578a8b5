import SimpleOlap.Execution.Expression.ExecExpression
import SimpleOlap.Lib.GroupBy

/-!
# The state of a hash aggregate

* `AggState`, `updateAggregate`, `combineAggregate`, `finalizeAggregate`: one aggregate call. The running
  sum is a `long double`, and every addition to it is rounded.
* `HashAggregateState`: the state of all calls, global or by group, with `consume`, `merge` and
  `nextResult`. The group table is a list of entries; where the code depends on the order in which the
  hash table is gone through, that order is a parameter `order`.

Source: `hash_aggregate_state.h`, `hash_aggregate_state.cpp`.
-/

namespace SimpleOlap

open Lib

/-- Source: `boundexpr.h` AggType. -/
inductive AggType
  | invalid | count | sum | avg | min | max
  deriving DecidableEq, Repr

/-- Source: `hash_aggregate_state.h` AggCallSpec; no argument stands for `COUNT(*)`. -/
structure AggCallSpec where
  type : AggType
  arg : Option ExecExpression
  resultType : DataType

/-- Source: `hash_aggregate_state.h` AggregateOutputSpec; the name is left out. -/
structure AggregateOutputSpec where
  isGroupKey : Bool
  index : ℕ
  type : DataType

/-- Source: `hash_aggregate_state.h` AggState. -/
structure AggState where
  sum : Fp := .ofUnits 0
  count : ℤ := 0
  hasValue : Bool := false
  minValue : ExecValue := .int32 0
  maxValue : ExecValue := .int32 0

/-- What a state is made with: the expressions, calls and outputs of the plan. -/
structure AggregateSpec where
  groupExprs : List ExecExpression
  aggCalls : List AggCallSpec
  outputs : List AggregateOutputSpec

/-! ## One call -/

/-- `sum += number` in `long double`: sums of doubles, and of such sums, are whole numbers of units. -/
def AggState.addToSum (state : AggState) (number : Fp) : Fp := binary80.convert (state.sum.add number)

/-- One value of the argument. Source: `hash_aggregate_state.cpp` UpdateAggregate, the switch. -/
def AggState.add (state : AggState) (type : AggType) (value : ExecValue) : Except String AggState :=
  match type with
  | .sum => do
    let number ← value.asNumber
    return { state with sum := state.addToSum number, hasValue := true }
  | .avg => do
    let number ← value.asNumber
    return { state with sum := state.addToSum number, count := state.count + 1, hasValue := true }
  | .min =>
    if state.hasValue then do
      let cmp ← value.compare state.minValue
      return { state with minValue := if cmp < 0 then value else state.minValue }
    else .ok { state with minValue := value, hasValue := true }
  | .max =>
    if state.hasValue then do
      let cmp ← value.compare state.maxValue
      return { state with maxValue := if 0 < cmp then value else state.maxValue }
    else .ok { state with maxValue := value, hasValue := true }
  | _ => .error "HashAggregateState: unsupported aggregate type"

/-- Source: `hash_aggregate_state.cpp` UpdateAggregate. -/
def updateAggregate (call : AggCallSpec) (state : AggState) (batch : VectorBatch) (physicalRow : ℕ) :
    Except String AggState :=
  if call.type = .count then do
    match call.arg with
    | some arg => let _ ← arg.eval batch physicalRow
    | none => pure ()
    return { state with count := state.count + 1 }
  else
    match call.arg with
    | none => .error "HashAggregateState: aggregate argument is missing"
    | some arg => do state.add call.type (← arg.eval batch physicalRow)

/-- The units of `long double` in a unit of doubles, as an exponent: from `2 ^ -1074` to `2 ^ -16445`. -/
def kLongDoubleFine : ℕ := 15371

/-- The `long double` quotient of the sum and the count, rounded to `long double` and then to double. Source:
`hash_aggregate_state.cpp` FinalizeAggregate, AVG. -/
def AggState.average (state : AggState) : Double :=
  let quotient := binary80.quotient (state.sum.refine kLongDoubleFine) state.count.natAbs
  ⟨((binary64.refine kLongDoubleFine).convert quotient).coarsen kLongDoubleFine,
    binary64.mem_coarsen ((binary64.refine kLongDoubleFine).mem_convert quotient)⟩

/-- Source: `hash_aggregate_state.cpp` FinalizeAggregate. -/
def finalizeAggregate (call : AggCallSpec) (state : AggState) : Except String ExecValue :=
  match call.type with
  | .count => .ok (.int64 (Int64.ofInt state.count))
  | .sum => .ok (.castNumber state.sum call.resultType)
  | .avg =>
    .ok (.double (if state.count = 0 then toDouble (.ofUnits 0) else state.average))
  | .min =>
    .ok (if state.hasValue then state.minValue else .castNumber (.ofUnits 0) call.resultType)
  | .max =>
    .ok (if state.hasValue then state.maxValue else .castNumber (.ofUnits 0) call.resultType)
  | .invalid => .error "HashAggregateState: unsupported aggregate type"

/-- Source: `hash_aggregate_state.cpp` CombineAggregate. -/
def combineAggregate (call : AggCallSpec) (dst src : AggState) : Except String AggState :=
  match call.type with
  | .count => .ok { dst with count := dst.count + src.count }
  | .sum => .ok { dst with sum := dst.addToSum src.sum, hasValue := dst.hasValue || src.hasValue }
  | .avg => .ok { dst with
      sum := dst.addToSum src.sum
      count := dst.count + src.count
      hasValue := dst.hasValue || src.hasValue }
  | .min =>
    if src.hasValue then
      if dst.hasValue then do
        let cmp ← src.minValue.compare dst.minValue
        return { dst with minValue := if cmp < 0 then src.minValue else dst.minValue }
      else .ok { dst with minValue := src.minValue, hasValue := true }
    else .ok dst
  | .max =>
    if src.hasValue then
      if dst.hasValue then do
        let cmp ← src.maxValue.compare dst.maxValue
        return { dst with maxValue := if 0 < cmp then src.maxValue else dst.maxValue }
      else .ok { dst with maxValue := src.maxValue, hasValue := true }
    else .ok dst
  | .invalid => .error "HashAggregateState: unsupported aggregate type"

/-! ## Group keys -/

/-- `==` of two variants. -/
def ExecValue.eqv : ExecValue → ExecValue → Bool
  | .int32 a, .int32 b => a = b
  | .int64 a, .int64 b => a = b
  | .float a, .float b => a.val.eq b.val
  | .double a, .double b => a.val.eq b.val
  | .string a, .string b => a = b
  | .bool a, .bool b => a = b
  | _, _ => false

/-- Source: `hash_aggregate_state.h` GroupKey. -/
abbrev GroupKey := List ExecValue

/-- Source: `hash_aggregate_state.h` GroupKey::operator==. -/
def GroupKey.eqv : GroupKey → GroupKey → Bool
  | [], [] => true
  | a :: as, b :: bs => a.eqv b && GroupKey.eqv as bs
  | _, _ => false

/-- Source: `hash_aggregate_state.h` GroupTable. -/
abbrev GroupTable := List (GroupKey × List AggState)

/-- `try_emplace` of a key, then a change of the entry's states. -/
def GroupTable.modify (key : GroupKey) (initial : List AggState)
    (change : List AggState → Except String (List AggState)) (groups : GroupTable) :
    Except String GroupTable :=
  Table.modify GroupKey.eqv key initial change groups

/-! ## The state -/

/-- Source: `hash_aggregate_state.h` HashAggregateState, without the progress of its output. -/
structure HashAggregateState where
  groups : GroupTable
  globalStates : List AggState

namespace AggregateSpec

/-- Source: `hash_aggregate_state.h` AggregateMode. -/
def isGlobal (spec : AggregateSpec) : Bool := spec.groupExprs.isEmpty

/-- Source: `hash_aggregate_state.cpp` MakeStates. -/
def makeStates (spec : AggregateSpec) : List AggState := spec.aggCalls.map fun _ => {}

/-- Source: `hash_aggregate_state.h` constructor. -/
def initial (spec : AggregateSpec) : HashAggregateState :=
  ⟨[], if spec.isGlobal then spec.makeStates else []⟩

/-- Source: `hash_aggregate_state.cpp` EvalGroupKey. -/
def evalGroupKey (spec : AggregateSpec) (batch : VectorBatch) (physicalRow : ℕ) :
    Except String GroupKey :=
  spec.groupExprs.mapM fun expr => expr.eval batch physicalRow

end AggregateSpec

/-- A call that is counted once for a batch. -/
def AggCallSpec.isCountStar (call : AggCallSpec) : Bool := call.type = .count && call.arg.isNone

/-- One row in all calls. Source: `hash_aggregate_state.cpp` ConsumeGrouped. -/
def updateStates (calls : List AggCallSpec) (states : List AggState) (batch : VectorBatch)
    (physicalRow : ℕ) : Except String (List AggState) :=
  (calls.zip states).mapM fun c => updateAggregate c.1 c.2 batch physicalRow

/-- One row in the calls that are not counted for whole batches. Source: `hash_aggregate_state.cpp`
ConsumeGlobal. -/
def updateRowCalls (calls : List AggCallSpec) (states : List AggState) (batch : VectorBatch)
    (physicalRow : ℕ) : Except String (List AggState) :=
  (calls.zip states).mapM fun c =>
    if c.1.isCountStar then .ok c.2 else updateAggregate c.1 c.2 batch physicalRow

/-- The states of two tables' entries for one key. Source: `hash_aggregate_state.cpp` MergeGlobal. -/
def combineStates (calls : List AggCallSpec) (dst src : List AggState) :
    Except String (List AggState) :=
  (calls.zip (dst.zip src)).mapM fun c => combineAggregate c.1 c.2.1 c.2.2

/-- Source: `batch_utils.h` ForEachActiveRow: the rows that are visited, in order. -/
def VectorBatch.activeIndices (batch : VectorBatch) : List ℕ :=
  if batch.selection.isAll then List.range batch.size
  else batch.selection.setBits

namespace HashAggregateState

/-- Source: `hash_aggregate_state.cpp` ConsumeGlobal. -/
def consumeGlobal (spec : AggregateSpec) (s : HashAggregateState) (batch : VectorBatch) :
    Except String HashAggregateState := do
  let counted := (spec.aggCalls.zip s.globalStates).map fun c =>
    if c.1.isCountStar then { c.2 with count := c.2.count + batch.size } else c.2
  if batch.size = 0 ∨ spec.aggCalls.all AggCallSpec.isCountStar then
    return { s with globalStates := counted }
  else
    let states ← batch.activeIndices.foldlM
      (fun states row => updateRowCalls spec.aggCalls states batch row) counted
    return { s with globalStates := states }

/-- Source: `hash_aggregate_state.cpp` ConsumeGrouped. -/
def consumeGrouped (spec : AggregateSpec) (s : HashAggregateState) (batch : VectorBatch) :
    Except String HashAggregateState := do
  let groups ← batch.activeIndices.foldlM (fun (groups : GroupTable) row => do
    let key ← spec.evalGroupKey batch row
    groups.modify key spec.makeStates fun states => updateStates spec.aggCalls states batch row)
    s.groups
  return { s with groups := groups }

/-- Source: `hash_aggregate_state.cpp` Consume. -/
def consume (spec : AggregateSpec) (s : HashAggregateState) (batch : VectorBatch) :
    Except String HashAggregateState :=
  if spec.isGlobal then consumeGlobal spec s batch else consumeGrouped spec s batch

/-- Source: `hash_aggregate_state.cpp` MergeGrouped. -/
def mergeGrouped (spec : AggregateSpec) (order : GroupTable → GroupTable)
    (s other : HashAggregateState) : Except String HashAggregateState := do
  let groups ← (order other.groups).foldlM (fun (groups : GroupTable) entry =>
    groups.modify entry.1 spec.makeStates fun states =>
      combineStates spec.aggCalls states entry.2) s.groups
  return { s with groups := groups }

/-- Source: `hash_aggregate_state.cpp` Merge, for states of one plan. -/
def merge (spec : AggregateSpec) (order : GroupTable → GroupTable) (s other : HashAggregateState) :
    Except String HashAggregateState :=
  if spec.isGlobal then do
    let states ← combineStates spec.aggCalls s.globalStates other.globalStates
    return { s with globalStates := states }
  else mergeGrouped spec order s other

end HashAggregateState

/-! ## Output -/

/-- What an output column of a type holds after a value was written to it. Source:
`exec_expression.cpp` WriteExecValue. -/
def writeExecValue (type : DataType) (value : ExecValue) : Except String ExecValue :=
  match type with
  | .int32 => return .int32 (ExecValue.toInt32 (← value.asNumber))
  | .int64 => return .int64 (ExecValue.toInt64 (← value.asNumber))
  | .float => return .float (toSingle (← value.asNumber))
  | .double => return .double (toDouble (← value.asNumber))
  | .varchar =>
    match value with
    | .string v =>
      if v.length > kVarcharInlineMax then .error "VARCHAR value too long for inline slot (max 60 bytes)"
      else .ok value
    | _ => .error "execution: non-string value for VARCHAR output column"
  | .invalid => .error "execution: invalid output type"

namespace AggregateSpec

/-- One output column of a group. Source: `hash_aggregate_state.cpp` NextGroupedResult,
NextGlobalResult. -/
def outputValue (spec : AggregateSpec) (group : GroupKey × List AggState)
    (output : AggregateOutputSpec) : Except String ExecValue := do
  let value ←
    if output.isGroupKey then
      if spec.isGlobal then .error "HashAggregateState: GROUP_KEY output in global aggregate"
      else
        match group.1[output.index]? with
        | none => .error "vector::_M_range_check"
        | some value => .ok value
    else
      match spec.aggCalls[output.index]?, group.2[output.index]? with
      | some call, some state => finalizeAggregate call state
      | _, _ => .error "vector::_M_range_check"
  writeExecValue output.type value

/-- The output row of a group. -/
def outputRow (spec : AggregateSpec) (group : GroupKey × List AggState) :
    Except String (List ExecValue) := spec.outputs.mapM (spec.outputValue group)

/-- One call of `NextResult`, on the groups that are left: the rows of the batch and the groups that are
left then, or `none` where it returns false. Source: `hash_aggregate_state.cpp` NextGroupedResult. -/
def nextResult (spec : AggregateSpec) (rest : GroupTable) :
    Except String (Option (List (List ExecValue) × GroupTable)) :=
  if rest.isEmpty then .ok none
  else do
    let rows ← (rest.take kVectorBatchSize).mapM spec.outputRow
    return some (rows, rest.drop kVectorBatchSize)

/-- The batches of successive calls of `NextResult`, until it returns false. -/
def drain (spec : AggregateSpec) (rest : GroupTable) : Except String (List (List (List ExecValue))) :=
  if rest = [] then .ok []
  else do
    let rows ← (rest.take kVectorBatchSize).mapM spec.outputRow
    return rows :: (← spec.drain (rest.drop kVectorBatchSize))
termination_by rest.length
decreasing_by
  rename_i hne
  have hpos := List.length_pos_iff.mpr hne
  simp only [List.length_drop, kVectorBatchSize]
  omega

/-- The batches are those of one call after the other. -/
theorem drain_eq (spec : AggregateSpec) (rest : GroupTable) :
    spec.drain rest = do
      match ← spec.nextResult rest with
      | none => return []
      | some (rows, rest') => return rows :: (← spec.drain rest') := by
  rw [drain, nextResult]
  by_cases hrest : rest = []
  · simp [hrest]
    rfl
  · have hempty : rest.isEmpty ≠ true := by simpa using hrest
    rw [if_neg hrest, if_neg hempty]
    rcases (rest.take kVectorBatchSize).mapM spec.outputRow with e | rows <;> rfl

end AggregateSpec

/-- What the output goes through: the one global group, or the table. -/
def HashAggregateState.outputGroups (spec : AggregateSpec) (s : HashAggregateState) : GroupTable :=
  if spec.isGlobal then [([], s.globalStates)] else s.groups

end SimpleOlap
