import SimpleOlap.Storage.Table.Rebuild

/-!
# Primary keys over runs

* `Shape.append_cases`: an append is rejected, without any effect, unless the primary keys of its rows
  are new; otherwise the indexes hold its rows too.
* `Tracked`: a table with the rows it has accepted, those loaded when it came into memory included.
* `Tracked.primaryKeys_unique`: over runs of appends and flushes the accepted keys stay pairwise
  distinct, and an append is rejected exactly when it would change that.
-/

namespace SimpleOlap

open Lib

/-! ## One append -/

namespace TableStorage

variable {schema : TableSchema} {t : TableStorage} {stored : List StoredRow}

/-- A location for every row. -/
theorem Shape.length_locations {input : DataChunk} (h : t.Shape) (hf : input.Fits t.schema) :
    (t.appendLoop input []).2.length = input.size := by
  obtain ⟨appended, heq, hall, -⟩ := (h.appendLoop hf []).locations
  rw [heq, List.nil_append, hall.length_eq, sourceRows, List.length_map, List.length_range]

/-- Registering the rows of an append that was let through succeeds. -/
theorem Shape.onAppend_eq (h : t.Shape) (hschema : t.schema = schema) (hkeys : schema.KeysInSchema)
    (hrep : t.indexManager.Represents schema stored) {input : DataChunk} (hf : input.Fits schema) :
    ∃ index, (t.appendLoop input []).1.indexManager.onAppend input (t.appendLoop input []).2 =
        (index, none) ∧
      index.Represents schema
        (stored ++ storedRows input.rows (t.appendLoop input []).2 false) := by
  have hf' : input.Fits t.schema := hschema.symm ▸ hf
  rw [(h.appendLoop hf' []).same.indexManager]
  apply TableIndexManager.represents_insertAll hrep
  · rw [h.length_locations hf', DataChunk.length_rows]
  · intro key hkey i hi
    have hi₀ : i < input.size := by simpa using hi
    rw [hrep.schema_eq, KeyEncoder.encodeChunk_eq (hkeys key hkey) hf]
    simp [DataChunk.rows, hi₀]

/-- What an append does: it throws and has no effect, or it appends the rows that its loop reads and
registers those of the chunk. -/
inductive AppendCases (schema : TableSchema) (stored : List StoredRow) (t : TableStorage)
    (input : DataChunk) : Prop
  | rejected (hold : ¬ TableIndexManager.KeysNew schema stored input.rows) {e : String}
      (heq : t.append input = (t, .error e))
  | accepted (hnew : TableIndexManager.KeysNew schema stored input.rows) {index : TableIndexManager}
      (hrep : index.Represents schema
        (stored ++ storedRows input.rows (t.appendLoop input []).2 false))
      (heq : t.append input =
        ({ (t.appendLoop input []).1 with indexManager := index }, .ok ()))

/-- **An append is rejected, without any effect, unless the primary keys of its rows are new.** -/
theorem Shape.append_cases (h : t.Shape) (hschema : t.schema = schema) (hkeys : schema.KeysInSchema)
    (hrep : t.indexManager.Represents schema stored) {input : DataChunk} (hf : input.Fits schema) :
    AppendCases schema stored t input := by
  obtain ⟨b, hvalid, hb⟩ := hrep.validatePrimaryKey hkeys hf
  by_cases hnew : TableIndexManager.KeysNew schema stored input.rows
  · obtain ⟨index, hins, hrep'⟩ := h.onAppend_eq hschema hkeys hrep hf
    refine .accepted hnew hrep' ?_
    unfold TableStorage.append
    rw [hvalid, hb.mpr hnew]
    simp only [hins]
  · have hfalse : b = false := Bool.eq_false_iff.mpr fun htrue => hnew (hb.mp htrue)
    refine .rejected hnew (e := "TableStorage::Append - duplicate primary key value") ?_
    unfold TableStorage.append
    rw [hvalid, hfalse]

end TableStorage

/-! ## Stored rows and their keys -/

namespace TableIndexManager

variable {schema : TableSchema} {stored : List StoredRow}

/-- A stored row without its visibility. -/
def placed (r : StoredRow) : Row × RowLocation := (r.1, r.2.place)

@[simp] theorem map_placed_revealRows (ids : List SegmentId) (rows : List StoredRow) :
    (revealRows ids rows).map placed = rows.map placed := by
  simp only [revealRows, List.map_map]
  apply List.map_congr_left
  intro r _
  simp only [Function.comp_apply, placed, Entry.reveal]
  split_ifs <;> rfl

theorem map_placed_storedRows (rows : List Row) (locations : List RowLocation) (visible : Bool) :
    (storedRows rows locations visible).map placed = rows.zip locations := by
  rw [storedRows, List.map_zipWith, List.zip]
  rfl

theorem mem_storedRows {rows : List Row} {locations : List RowLocation} {visible : Bool} {row : Row}
    {e : IndexEntry} : (row, e) ∈ storedRows rows locations visible ↔
      e.visible = visible ∧ (row, e.place) ∈ rows.zip locations := by
  rw [storedRows, ← List.map_uncurry_zip_eq_zipWith, List.mem_map]
  constructor
  · rintro ⟨⟨row', l⟩, hzip, heq⟩
    obtain ⟨rfl, rfl⟩ := Prod.mk.inj heq
    exact ⟨rfl, hzip⟩
  · rintro ⟨rfl, hzip⟩
    exact ⟨_, hzip, rfl⟩

theorem map_rowKey_storedRows {rows : List Row} {locations : List RowLocation}
    (hlen : locations.length = rows.length) {visible : Bool} (key : KeySchema) :
    (storedRows rows locations visible).map (fun r => rowKey schema key r.1) =
      rows.map (rowKey schema key) := by
  apply List.ext_getElem
  · simp [storedRows, hlen]
  · intro i hi hi'
    simp [storedRows]

/-- New keys are pairwise distinct and differ from the stored ones. -/
theorem keysNew_iff (stored : List StoredRow) {key : KeySchema}
    (hpk : schema.primaryKey = some key) (new : List Row) :
    KeysNew schema stored new ↔ (new.map (rowKey schema key)).Nodup ∧
      ∀ row ∈ new, rowKey schema key row ∉
        ((stored.map placed).map Prod.fst).map (rowKey schema key) := by
  simp only [KeysNew, hpk, Option.some.injEq, forall_eq', List.map_map, Function.comp_def, placed]

end TableIndexManager

/-! ## Indexes over runs -/

/-- **In every reachable state the indexes hold some rows.** -/
theorem System.represents_of_reachable {tableId : TableId} {schema : TableSchema} {s : System}
    (hkeys : schema.KeysBound) (h : Reached tableId schema s) :
    ∃ stored, s.table.indexManager.Represents schema stored := by
  suffices hinv : (s.table.Shape ∧ s.table.schema = schema) ∧
      ∃ stored, s.table.indexManager.Represents schema stored from hinv.2
  refine Reachable.invariant
    (P := fun s => (s.table.Shape ∧ s.table.schema = schema) ∧
      ∃ stored, s.table.indexManager.Represents schema stored) ?_ ?_ h
  · intro s hopened
    exact ⟨hopened.shape, _, hopened.represents hkeys⟩
  · rintro s s' ⟨hshape, stored, hrep⟩ ⟨e, hst⟩
    refine ⟨hst.shape hshape, ?_⟩
    cases hst with
    | @append input hf =>
      cases hshape.1.append_cases hshape.2 hkeys.inSchema hrep hf with
      | rejected _ heq => exact ⟨stored, by rw [heq]; exact hrep⟩
      | accepted _ hrep' heq => exact ⟨_, by rw [heq]; exact hrep'⟩
    | @flush io hio =>
      show ∃ stored, TableIndexManager.Represents schema stored _
      rw [TableStorage.flush_index]
      by_cases hok : io.tableMeta.ok = true
      · rw [if_pos hok]
        exact ⟨_, hrep.markSegmentsVisible _⟩
      · rw [if_neg hok]
        exact ⟨stored, hrep⟩
    | crash hopen => exact ⟨_, (Opened.opened hopen).represents hkeys⟩
    | close hio hopen => exact ⟨_, (Opened.opened hopen).represents hkeys⟩

/-! ## Runs -/

/-- A table with its files, and the rows it has accepted, each with the location that was registered
for it. -/
structure Tracked where
  system : System
  accepted : List (Row × RowLocation)

namespace Tracked

/-- The encoded keys of the accepted rows. -/
def acceptedKeys (schema : TableSchema) (key : KeySchema) (s : Tracked) : List EncodedKey :=
  (s.accepted.map Prod.fst).map (rowKey schema key)

/-- The rows loaded when the table comes into memory count as accepted. -/
structure Start (tableId : TableId) (schema : TableSchema) (s : Tracked) : Prop where
  opened : System.Opened tableId schema s.system
  loaded : s.accepted = (loadedRows schema s.system.disk s.system.table.metadata.segmentIds).map
    TableIndexManager.placed

/-- The table accepts a chunk, rejects one, or flushes with whatever outcome. -/
inductive Step (schema : TableSchema) : Tracked → Event → Tracked → Prop
  | accepted {s : Tracked} {input : DataChunk} {t : TableStorage} (hf : input.Fits schema)
      (h : s.system.table.append input = (t, .ok ())) :
      Step schema s (.append input) ⟨⟨t, s.system.disk⟩,
        s.accepted ++ input.rows.zip (s.system.table.appendLoop input []).2⟩
  | rejected {s : Tracked} {input : DataChunk} {t : TableStorage} {e : String}
      (hf : input.Fits schema) (h : s.system.table.append input = (t, .error e)) :
      Step schema s (.append input) ⟨⟨t, s.system.disk⟩, s.accepted⟩
  | flush {s : Tracked} {io : FlushIO} (hio : io.Visits s.system.table) :
      Step schema s (.flush io) ⟨⟨(s.system.table.flush s.system.disk io).1,
        (s.system.table.flush s.system.disk io).2.1⟩, s.accepted⟩

/-- The indexes hold exactly the accepted rows, whose primary keys are pairwise distinct. -/
structure Inv (schema : TableSchema) (s : Tracked) : Prop where
  shape : s.system.table.Shape
  schema_eq : s.system.table.schema = schema
  index : ∃ stored, s.system.table.indexManager.Represents schema stored ∧
    stored.map TableIndexManager.placed = s.accepted
  distinct : ∀ key, schema.primaryKey = some key → (s.acceptedKeys schema key).Nodup

variable {tableId : TableId} {schema : TableSchema} {s s' : Tracked}

/-- A table comes into memory with the loaded rows in its indexes. -/
theorem Start.inv (hkeys : schema.KeysBound) (h : Start tableId schema s)
    (hdistinct : ∀ key, schema.primaryKey = some key → (s.acceptedKeys schema key).Nodup) :
    Inv schema s := by
  obtain ⟨hshape, hschema⟩ := h.opened.shape
  exact ⟨hshape, hschema, ⟨_, h.opened.represents hkeys, h.loaded.symm⟩, hdistinct⟩

/-- Every step keeps the indexes in line with the accepted rows. -/
theorem Inv.step (hkeys : schema.KeysBound) (h : Inv schema s) {e : Event}
    (hst : Step schema s e s') : Inv schema s' := by
  obtain ⟨stored, hrep, hstored⟩ := h.index
  cases hst with
  | @accepted input t hf heq =>
    have hf' : input.Fits s.system.table.schema := h.schema_eq.symm ▸ hf
    cases h.shape.append_cases h.schema_eq hkeys.inSchema hrep hf with
    | rejected hold hrej => simp [hrej] at heq
    | @accepted hnew index hrep' hacc =>
      obtain rfl : _ = t := (Prod.mk.inj (hacc.symm.trans heq)).1
      have hloop := h.shape.appendLoop hf' []
      have hlen := h.shape.length_locations hf'
      refine ⟨hloop.shape.withIndex index, hloop.same.schema.trans h.schema_eq, ⟨_, hrep', ?_⟩, ?_⟩
      · rw [List.map_append, hstored, TableIndexManager.map_placed_storedRows]
      · intro key hpk
        obtain ⟨hnodup, hfresh⟩ := (TableIndexManager.keysNew_iff _ hpk _).mp hnew
        rw [hstored] at hfresh
        have hlen' : input.rows.length ≤ (s.system.table.appendLoop input []).2.length := by
          rw [hlen, DataChunk.length_rows]
        rw [acceptedKeys, List.map_append, List.map_append, List.map_fst_zip hlen']
        refine (h.distinct key hpk).append hnodup fun k hk hk' => ?_
        obtain ⟨row, hrow, rfl⟩ := List.mem_map.mp hk'
        exact hfresh row hrow hk
  | @rejected input t e hf heq =>
    cases h.shape.append_cases h.schema_eq hkeys.inSchema hrep hf with
    | rejected hold hrej =>
      obtain rfl : _ = t := (Prod.mk.inj (hrej.symm.trans heq)).1
      exact ⟨h.shape, h.schema_eq, h.index, h.distinct⟩
    | accepted hnew hrep' hacc => simp [hacc] at heq
  | @flush io hio =>
    refine ⟨h.shape.flush _ _, (TableStorage.flush_schema _ _ _).trans h.schema_eq, ?_, h.distinct⟩
    show ∃ stored, TableIndexManager.Represents schema stored _ ∧ _
    rw [TableStorage.flush_index]
    by_cases hok : io.tableMeta.ok = true
    · rw [if_pos hok]
      exact ⟨_, hrep.markSegmentsVisible _,
        (TableIndexManager.map_placed_revealRows _ _).trans hstored⟩
    · rw [if_neg hok]
      exact ⟨stored, hrep, hstored⟩

/-- **Primary keys stay unique, and a rejected append has no effect.** For a table opened on data with
distinct primary keys, after any run of appends and flushes: the keys of the accepted rows are pairwise
distinct; an append throws exactly when two of its rows have the same key or one has the key of an
accepted row; and one that throws leaves the table as it is. -/
theorem primaryKeys_unique {key : KeySchema} (hpk : schema.primaryKey = some key)
    (hkeys : schema.KeysBound)
    (hrun : Reachable (fun s => Start tableId schema s ∧ (s.acceptedKeys schema key).Nodup)
      (fun s s' => ∃ e, Step schema s e s') s) :
    (s.acceptedKeys schema key).Nodup ∧
    ∀ input : DataChunk, input.Fits schema →
      ((s.system.table.append input).2 ≠ .ok () ↔
        ¬ (input.rows.map (rowKey schema key)).Nodup ∨
          ∃ row ∈ input.rows, rowKey schema key row ∈ s.acceptedKeys schema key) ∧
      ((s.system.table.append input).2 ≠ .ok () → (s.system.table.append input).1 = s.system.table) := by
  have hinv : Inv schema s := by
    refine Reachable.invariant (P := Inv schema) (fun s hs => ?_)
      (fun _ _ h hst => hst.elim fun _ hst => h.step hkeys hst) hrun
    refine hs.1.inv hkeys fun key' hkey' => ?_
    obtain rfl : key = key' := Option.some.inj (hpk.symm.trans hkey')
    exact hs.2
  refine ⟨hinv.distinct key hpk, fun input hf => ?_⟩
  obtain ⟨stored, hrep, hstored⟩ := hinv.index
  have hiff := TableIndexManager.keysNew_iff stored hpk input.rows
  rw [hstored] at hiff
  cases hinv.shape.append_cases hinv.schema_eq hkeys.inSchema hrep hf with
  | rejected hold heq =>
    rw [hiff, not_and_or] at hold
    have hold' : ¬ (input.rows.map (rowKey schema key)).Nodup ∨
        ∃ row ∈ input.rows, rowKey schema key row ∈ s.acceptedKeys schema key := by
      simpa only [not_forall, not_not, exists_prop, acceptedKeys] using hold
    simp only [heq, ne_eq, reduceCtorEq, not_false_eq_true, true_iff, forall_const, and_true]
    exact hold'
  | accepted hnew _ heq =>
    obtain ⟨hnodup, hfresh⟩ := hiff.mp hnew
    have hnew' : ¬ (¬ (input.rows.map (rowKey schema key)).Nodup ∨
        ∃ row ∈ input.rows, rowKey schema key row ∈ s.acceptedKeys schema key) := by
      rintro (hdup | ⟨row, hrow, hmem⟩)
      · exact hdup hnodup
      · exact hfresh row hrow hmem
    simp only [heq, ne_eq, not_true_eq_false, false_iff, IsEmpty.forall_iff, and_true]
    exact hnew'

end Tracked

/-! ## A table with a primary key -/

/-- The primary key over the one column. -/
def keyedPrimary : KeySchema := ⟨0, [112], .primary, [0]⟩

/-- One INT32 column that is the primary key. -/
def keyedSchema : TableSchema := ⟨[⟨0, [99], .int32⟩], some keyedPrimary, []⟩

theorem keyedSchema_keysBound : keyedSchema.KeysBound where
  nonempty key hkey := by
    obtain rfl := List.mem_singleton.mp hkey
    exact List.cons_ne_nil 0 []
  inSchema key hkey id hid := by
    obtain rfl := List.mem_singleton.mp hkey
    obtain rfl := List.mem_singleton.mp hid
    exact ⟨_, List.mem_singleton_self _, rfl⟩

/-- A new table has accepted nothing. -/
theorem Tracked.start_fresh (tableId : TableId) (schema : TableSchema) :
    Tracked.Start tableId schema
      ⟨⟨TableStorage.fresh tableId schema, Disk.fresh tableId⟩, []⟩ :=
  ⟨System.opened_fresh tableId schema, rfl⟩

end SimpleOlap
