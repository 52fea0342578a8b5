import SimpleOlap.Lib.KeyLog
import SimpleOlap.Storage.Index.KeyEncoder
import Mathlib.Data.List.Sort

/-!
# Table indexes

The unique index of the primary key, the non-unique indexes of the secondary keys, and the manager
that keeps them for a table. Source: `primary_key_index.h`, `secondary_key_index.h`,
`table_index_manager.h` and their `.cpp` files. The hash maps are functions of the encoded key.

* `TableIndexManager.Represents schema rows m`: the indexes hold exactly the entries of a list of
  stored rows, each with its location and visibility.
* `represents_insertAll`, `Represents.markSegmentsVisible`: registering rows appends them, revealing
  segments raises the flags of their rows.
* `Represents.validatePrimaryKey_iff`, `Represents.mem_lookup_iff`: validation and lookup in terms of
  the stored rows.
-/

namespace SimpleOlap

open Lib

/-- What an index knows of a row: its location, and whether queries may see it. -/
abbrev IndexEntry := Entry RowLocation

/-! ## The two kinds of indexes -/

/-- At most one entry under each key. Source: `primary_key_index.h` PrimaryKeyIndex. -/
structure PrimaryKeyIndex where
  entries : EncodedKey → Option IndexEntry

namespace PrimaryKeyIndex

/-- The empty index. -/
def new : PrimaryKeyIndex := ⟨fun _ => none⟩

/-- The loop over the keys of a batch; `batchKeys` are those already seen. -/
def validateBatch (index : PrimaryKeyIndex) : List EncodedKey → List EncodedKey → Bool
  | [], _ => true
  | key :: keys, batchKeys =>
    if key ∈ batchKeys then false
    else if (index.entries key).isSome then false
    else validateBatch index keys (key :: batchKeys)

/-- Source: `primary_key_index.cpp` PrimaryKeyIndex::Insert. -/
def insert (index : PrimaryKeyIndex) (key : EncodedKey) (location : RowLocation) (visible : Bool) :
    PrimaryKeyIndex :=
  ⟨fun k => if key = k then some ⟨location, visible⟩ else index.entries k⟩

/-- The visible entry of a key. -/
def lookup (index : PrimaryKeyIndex) (key : EncodedKey) : Option RowLocation :=
  match index.entries key with
  | some entry => if entry.visible then some entry.place else none
  | none => none

/-- Source: `primary_key_index.cpp` PrimaryKeyIndex::MarkSegmentVisible. -/
def markSegmentVisible (index : PrimaryKeyIndex) (segmentId : SegmentId) : PrimaryKeyIndex :=
  ⟨fun k => (index.entries k).map (Entry.reveal fun location => location.segmentId == segmentId)⟩

end PrimaryKeyIndex

/-- Any number of entries under each key. Source: `secondary_key_index.h` SecondaryKeyIndex. -/
structure SecondaryKeyIndex where
  entries : EncodedKey → List IndexEntry

namespace SecondaryKeyIndex

/-- The empty index. -/
def new : SecondaryKeyIndex := ⟨fun _ => []⟩

/-- Source: `secondary_key_index.cpp` SecondaryKeyIndex::Insert. -/
def insert (index : SecondaryKeyIndex) (key : EncodedKey) (location : RowLocation)
    (visible : Bool) : SecondaryKeyIndex :=
  ⟨fun k => if key = k then index.entries k ++ [⟨location, visible⟩] else index.entries k⟩

/-- The visible entries of a key. -/
def lookupEqual (index : SecondaryKeyIndex) (key : EncodedKey) : List RowLocation :=
  ((index.entries key).filter fun entry => entry.visible).map Entry.place

/-- Source: `secondary_key_index.cpp` SecondaryKeyIndex::MarkSegmentVisible. -/
def markSegmentVisible (index : SecondaryKeyIndex) (segmentId : SegmentId) : SecondaryKeyIndex :=
  ⟨fun k => (index.entries k).map (Entry.reveal fun location => location.segmentId == segmentId)⟩

end SecondaryKeyIndex

/-! ## The manager -/

/-- The indexes of a table; the primary one exists when the schema has a primary key, and there is
one secondary index for each secondary key. -/
structure TableIndexManager where
  schema : TableSchema
  primaryIndex : Option PrimaryKeyIndex
  secondaryIndexes : List SecondaryKeyIndex

namespace TableIndexManager

/-- Source: the constructor. -/
def new (schema : TableSchema) : TableIndexManager where
  schema := schema
  primaryIndex := schema.primaryKey.map fun _ => PrimaryKeyIndex.new
  secondaryIndexes := schema.secondaryKeys.map fun _ => SecondaryKeyIndex.new

/-- All key columns, ascending and without repetition. -/
def keyColumns (m : TableIndexManager) : List ColumnId :=
  ((m.schema.secondaryKeys.flatMap KeySchema.columns ++
    m.schema.primaryKey.toList.flatMap KeySchema.columns).dedup).mergeSort (fun a b => decide (a ≤ b))

/-- Source: ValidatePrimaryKey. -/
def validatePrimaryKey (m : TableIndexManager) (chunk : DataChunk) : Except String Bool :=
  match m.primaryIndex, m.schema.primaryKey with
  | some index, some key => do
    let keys ← (List.range chunk.size).mapM (KeyEncoder.encodeChunk m.schema key chunk)
    return index.validateBatch keys []
  | _, _ => .ok true

/-- Insert the rows of one index in order. An exception of the encoder leaves the rows before it. -/
def insertRows {ι : Type} (insert : ι → EncodedKey → RowLocation → ι)
    (encode : ℕ → Except String EncodedKey) : ι → List (ℕ × RowLocation) → ι × Option String
  | index, [] => (index, none)
  | index, (row, location) :: rest =>
    match encode row with
    | .error e => (index, some e)
    | .ok key => insertRows insert encode (insert index key location) rest

/-- The secondary indexes one after the other. -/
def insertSecondary (encode : KeySchema → ℕ → Except String EncodedKey) (visible : Bool)
    (rows : List (ℕ × RowLocation)) :
    List (KeySchema × SecondaryKeyIndex) → List SecondaryKeyIndex × Option String
  | [] => ([], none)
  | (key, index) :: rest =>
    match insertRows (fun i k l => i.insert k l visible) (encode key) index rows with
    | (index', some e) => (index' :: rest.map Prod.snd, some e)
    | (index', none) =>
      let (indexes, e) := insertSecondary encode visible rows rest
      (index' :: indexes, e)

/-- Register rows in all indexes. Source: the common loops of OnAppend and RebuildFromBatch. -/
def insertAll (m : TableIndexManager) (encode : KeySchema → ℕ → Except String EncodedKey)
    (locations : List RowLocation) (visible : Bool) : TableIndexManager × Option String :=
  let rows := (List.range locations.length).zip locations
  let (primary, e) := match m.primaryIndex, m.schema.primaryKey with
    | some index, some key =>
      let (index', e) := insertRows (fun i k l => i.insert k l visible) (encode key) index rows
      (some index', e)
    | _, _ => (m.primaryIndex, none)
  match e with
  | some _ => ({ m with primaryIndex := primary }, e)
  | none =>
    let (secondary, e) :=
      insertSecondary encode visible rows (m.schema.secondaryKeys.zip m.secondaryIndexes)
    ({ m with primaryIndex := primary, secondaryIndexes := secondary }, e)

/-- New rows of a chunk, not yet visible. -/
def onAppend (m : TableIndexManager) (chunk : DataChunk) (locations : List RowLocation) :
    TableIndexManager × Option String :=
  m.insertAll (fun key row => KeyEncoder.encodeChunk m.schema key chunk row) locations false

/-- Rows read back from a segment, visible at once. -/
def rebuildFromBatch (m : TableIndexManager) (batchColumns : List ColumnId) (batch : VectorBatch)
    (locations : List RowLocation) : TableIndexManager × Option String :=
  m.insertAll (fun key row => KeyEncoder.encodeBatch m.schema key batchColumns batch row) locations
    true

/-- Source: MarkSegmentsVisible. -/
def markSegmentsVisible (m : TableIndexManager) (segmentIds : List SegmentId) : TableIndexManager :=
  segmentIds.foldl (fun m id => { m with
    primaryIndex := m.primaryIndex.map fun index => index.markSegmentVisible id
    secondaryIndexes := m.secondaryIndexes.map fun index => index.markSegmentVisible id }) m

/-- Source: Lookup. -/
def lookup (m : TableIndexManager) (keyId : KeyId) (key : EncodedKey) : List RowLocation :=
  match m.primaryIndex, m.schema.primaryKey with
  | some index, some primaryKey =>
    if primaryKey.keyId = keyId then (index.lookup key).toList else lookupSecondary
  | _, _ => lookupSecondary
where
  /-- The first secondary key of the id. -/
  lookupSecondary : List RowLocation :=
    match (m.schema.secondaryKeys.zip m.secondaryIndexes).find? fun p => p.1.keyId == keyId with
    | some (_, index) => index.lookupEqual key
    | none => []

end TableIndexManager

/-! ## What the indexes hold -/

/-- A row the indexes know, with its entry. -/
abbrev StoredRow := Row × IndexEntry

/-- Rows with their locations, all visible or all not. -/
def storedRows (rows : List Row) (locations : List RowLocation) (visible : Bool) : List StoredRow :=
  rows.zipWith (fun row location => (row, ⟨location, visible⟩)) locations

/-- The entries of one key, in the order in which the rows were registered. -/
def keyLog (schema : TableSchema) (key : KeySchema) (rows : List StoredRow) :
    List (EncodedKey × IndexEntry) :=
  rows.map fun r => (rowKey schema key r.1, r.2)

/-- The log of rows behind others. -/
theorem keyLog_append (schema : TableSchema) (key : KeySchema) (as bs : List StoredRow) :
    keyLog schema key (as ++ bs) = keyLog schema key as ++ keyLog schema key bs := List.map_append

/-- Raise the flags of the rows of some segments. -/
def revealRows (segmentIds : List SegmentId) (rows : List StoredRow) : List StoredRow :=
  rows.map fun r => (r.1, r.2.reveal fun location => decide (location.segmentId ∈ segmentIds))

namespace TableIndexManager

/-- The indexes hold exactly the entries of the rows. -/
structure Represents (schema : TableSchema) (rows : List StoredRow) (m : TableIndexManager) :
    Prop where
  schema_eq : m.schema = schema
  primary : ∀ key, schema.primaryKey = some key →
    ∃ index, m.primaryIndex = some index ∧
      ∀ k, index.entries k = KeyLog.latest (keyLog schema key rows) k
  noPrimary : schema.primaryKey = none → m.primaryIndex = none
  secondary : List.Forall₂
    (fun key index => ∀ k, SecondaryKeyIndex.entries index k =
      KeyLog.entriesOf (keyLog schema key rows) k) schema.secondaryKeys m.secondaryIndexes

/-- A new index represents no rows. -/
theorem represents_new (schema : TableSchema) : Represents schema [] (new schema) where
  schema_eq := rfl
  primary key hkey := ⟨PrimaryKeyIndex.new, by simp [new, hkey], fun _ => rfl⟩
  noPrimary h := by simp [new, h]
  secondary := by
    simp only [new, List.forall₂_map_right_iff]
    exact List.forall₂_same.mpr fun _ _ _ => rfl

/-! ### Registering rows -/

/-- Rows whose keys can be encoded are inserted one after the other. -/
theorem insertRows_eq {ι : Type} (insert : ι → EncodedKey → RowLocation → ι)
    {encode : ℕ → Except String EncodedKey} (keyOf : ℕ → EncodedKey) :
    ∀ (ps : List (ℕ × RowLocation)) (index : ι), (∀ p ∈ ps, encode p.1 = .ok (keyOf p.1)) →
      insertRows insert encode index ps =
        (ps.foldl (fun i p => insert i (keyOf p.1) p.2) index, none)
  | [], _, _ => rfl
  | (row, location) :: ps, index, h => by
    rw [insertRows, h _ List.mem_cons_self]
    exact insertRows_eq insert keyOf ps _ fun p hp => h p (List.mem_cons_of_mem _ hp)

/-- The entries of the primary index after insertions. -/
theorem entries_foldl_primary (keyOf : ℕ → EncodedKey) (visible : Bool) :
    ∀ (ps : List (ℕ × RowLocation)) {index : PrimaryKeyIndex} {log : List (EncodedKey × IndexEntry)},
      (∀ k, index.entries k = KeyLog.latest log k) →
      ∀ k, (ps.foldl (fun i p => PrimaryKeyIndex.insert i (keyOf p.1) p.2 visible) index).entries k =
        KeyLog.latest (log ++ ps.map fun p => (keyOf p.1, ⟨p.2, visible⟩)) k
  | [], _, _, h => by simpa using h
  | p :: ps, index, log, h => by
    rw [List.foldl_cons, List.map_cons, List.append_cons]
    apply entries_foldl_primary keyOf visible ps
    intro k
    rw [KeyLog.latest_snoc, ← h k]
    rfl

/-- The entries of a secondary index after insertions. -/
theorem entries_foldl_secondary (keyOf : ℕ → EncodedKey) (visible : Bool) :
    ∀ (ps : List (ℕ × RowLocation)) {index : SecondaryKeyIndex}
      {log : List (EncodedKey × IndexEntry)},
      (∀ k, index.entries k = KeyLog.entriesOf log k) →
      ∀ k, (ps.foldl (fun i p => SecondaryKeyIndex.insert i (keyOf p.1) p.2 visible) index).entries k =
        KeyLog.entriesOf (log ++ ps.map fun p => (keyOf p.1, ⟨p.2, visible⟩)) k
  | [], _, _, h => by simpa using h
  | p :: ps, index, log, h => by
    rw [List.foldl_cons, List.map_cons, List.append_cons]
    apply entries_foldl_secondary keyOf visible ps
    intro k
    rw [KeyLog.entriesOf_snoc, ← h k]
    rfl

/-- The pairs the loops run over, as entries of a key. -/
theorem map_zip_range {rows : List Row} {locations : List RowLocation}
    (hlen : locations.length = rows.length) (schema : TableSchema) (key : KeySchema) (visible : Bool) :
    (((List.range locations.length).zip locations).map fun p =>
      (rowKey schema key (rows.getD p.1 []), (⟨p.2, visible⟩ : IndexEntry))) =
      keyLog schema key (storedRows rows locations visible) := by
  apply List.ext_getElem
  · simp [keyLog, storedRows, hlen]
  · intro i hi hi'
    have hi₀ : i < rows.length := by simpa [keyLog, storedRows, hlen] using hi'
    simp [keyLog, storedRows, hi₀]

/-- All secondary indexes get their entries. -/
theorem insertSecondary_eq {encode : KeySchema → ℕ → Except String EncodedKey} (visible : Bool)
    {ps : List (ℕ × RowLocation)} (keyOf : KeySchema → ℕ → EncodedKey)
    {log : KeySchema → List (EncodedKey × IndexEntry)} :
    ∀ {keys : List KeySchema} {indexes : List SecondaryKeyIndex},
      (∀ key ∈ keys, ∀ p ∈ ps, encode key p.1 = .ok (keyOf key p.1)) →
      List.Forall₂ (fun key index => ∀ k, SecondaryKeyIndex.entries index k =
        KeyLog.entriesOf (log key) k) keys indexes →
      ∃ indexes', insertSecondary encode visible ps (keys.zip indexes) = (indexes', none) ∧
        List.Forall₂ (fun key index => ∀ k, SecondaryKeyIndex.entries index k =
          KeyLog.entriesOf (log key ++ ps.map fun p => (keyOf key p.1, ⟨p.2, visible⟩)) k)
          keys indexes'
  | [], [], _, .nil => ⟨[], rfl, .nil⟩
  | key :: keys, index :: indexes, henc, .cons h hrest => by
    obtain ⟨indexes', hins, hall⟩ := insertSecondary_eq visible keyOf
      (fun k hk => henc k (List.mem_cons_of_mem key hk)) hrest
    have hrow := insertRows_eq (fun i k l => SecondaryKeyIndex.insert i k l visible) (keyOf key) ps
      index (henc key List.mem_cons_self)
    refine ⟨_, ?_, .cons (entries_foldl_secondary (keyOf key) visible ps h) hall⟩
    rw [List.zip_cons_cons, insertSecondary, hrow]
    simp only [hins]

/-- **Registering rows appends them.** -/
theorem represents_insertAll {schema : TableSchema} {new : List Row} {stored : List StoredRow}
    {m : TableIndexManager} (h : Represents schema stored m)
    {encode : KeySchema → ℕ → Except String EncodedKey} {locations : List RowLocation}
    (hlen : locations.length = new.length)
    (henc : ∀ key ∈ schema.keys, ∀ i < new.length,
      encode key i = .ok (rowKey schema key (new.getD i []))) (visible : Bool) :
    ∃ m', m.insertAll encode locations visible = (m', none) ∧
      Represents schema (stored ++ storedRows new locations visible) m' := by
  have hps : ∀ p ∈ (List.range locations.length).zip locations, p.1 < new.length := by
    intro p hp
    have := List.of_mem_zip hp
    rw [← hlen]
    exact List.mem_range.mp this.1
  have hsec : ∀ key ∈ schema.secondaryKeys, ∀ p ∈ (List.range locations.length).zip locations,
      encode key p.1 = .ok (rowKey schema key (new.getD p.1 [])) := fun key hkey p hp =>
    henc key (List.mem_append_right _ hkey) p.1 (hps p hp)
  obtain ⟨indexes', hins, hall⟩ := insertSecondary_eq visible
    (fun key i => rowKey schema key (new.getD i [])) hsec h.secondary
  simp only [map_zip_range hlen, ← keyLog_append] at hall
  unfold insertAll
  rw [h.schema_eq]
  rcases hpk : schema.primaryKey with _ | key
  · have hnone := h.noPrimary hpk
    simp only [hnone, hins]
    exact ⟨_, rfl, ⟨rfl, fun key hkey => by simp [hpk] at hkey, fun _ => rfl, hall⟩⟩
  · obtain ⟨index, hindex, hentries⟩ := h.primary key hpk
    have hmem : key ∈ schema.keys := by simp [TableSchema.keys, hpk]
    have hrow := insertRows_eq (fun i k l => PrimaryKeyIndex.insert i k l visible)
      (fun i => rowKey schema key (new.getD i [])) ((List.range locations.length).zip locations) index
      (fun p hp => henc key hmem p.1 (hps p hp))
    have hnew := entries_foldl_primary (fun i => rowKey schema key (new.getD i [])) visible
      ((List.range locations.length).zip locations) hentries
    simp only [map_zip_range hlen, ← keyLog_append] at hnew
    simp only [hindex, hrow, hins]
    refine ⟨_, rfl, ⟨rfl, fun key' hkey' => ?_, fun hno => by simp [hpk] at hno, hall⟩⟩
    cases hpk.symm.trans hkey'
    exact ⟨_, rfl, hnew⟩

/-! ### Revealing segments -/

/-- The log of rows that are revealed. -/
theorem keyLog_revealRows (schema : TableSchema) (key : KeySchema) (segmentIds : List SegmentId)
    (rows : List StoredRow) : keyLog schema key (revealRows segmentIds rows) =
      KeyLog.revealAll (fun location => decide (location.segmentId ∈ segmentIds))
        (keyLog schema key rows) := by
  simp [keyLog, revealRows, KeyLog.revealAll]

/-- Nothing is revealed. -/
theorem revealRows_nil (rows : List StoredRow) : revealRows [] rows = rows := by
  simp [revealRows, Entry.reveal]

/-- Revealing one segment after another. -/
theorem revealRows_cons (id : SegmentId) (ids : List SegmentId) (rows : List StoredRow) :
    revealRows (id :: ids) rows = revealRows ids (revealRows [id] rows) := by
  simp only [revealRows, List.map_map]
  apply List.map_congr_left
  intro r _
  by_cases h1 : r.2.place.segmentId = id <;> by_cases h2 : r.2.place.segmentId ∈ ids <;>
    simp [Entry.reveal, h1, h2]

/-- One segment. -/
theorem Represents.markSegmentVisible {schema : TableSchema} {rows : List StoredRow}
    {m : TableIndexManager} (h : Represents schema rows m) (id : SegmentId) :
    Represents schema (revealRows [id] rows) { m with
      primaryIndex := m.primaryIndex.map fun index => index.markSegmentVisible id
      secondaryIndexes := m.secondaryIndexes.map fun index => index.markSegmentVisible id } := by
  have hp : (fun location : RowLocation => location.segmentId == id) =
      fun location => decide (location.segmentId ∈ [id]) := by
    funext location
    simp [beq_eq_decide]
  refine ⟨h.schema_eq, fun key hkey => ?_, fun hno => by simp [h.noPrimary hno], ?_⟩
  · obtain ⟨index, hindex, hentries⟩ := h.primary key hkey
    refine ⟨index.markSegmentVisible id, by simp [hindex], fun k => ?_⟩
    rw [keyLog_revealRows, KeyLog.latest_revealAll, ← hentries, ← hp]
    rfl
  · simp only [List.forall₂_map_right_iff]
    refine h.secondary.imp fun key index hentries k => ?_
    rw [keyLog_revealRows, KeyLog.entriesOf_revealAll, ← hentries, ← hp]
    rfl

/-- **Revealing segments raises the flags of their rows.** -/
theorem Represents.markSegmentsVisible {schema : TableSchema} :
    ∀ (ids : List SegmentId) {rows : List StoredRow} {m : TableIndexManager},
      Represents schema rows m → Represents schema (revealRows ids rows) (m.markSegmentsVisible ids)
  | [], _, _, h => by rwa [revealRows_nil]
  | id :: ids, rows, m, h => by
    rw [revealRows_cons]
    exact Represents.markSegmentsVisible ids (h.markSegmentVisible id)

end TableIndexManager

/-! ## Validation -/

/-- **A batch is valid** where its keys are new and distinct. -/
theorem PrimaryKeyIndex.validateBatch_iff (index : PrimaryKeyIndex) :
    ∀ (keys seen : List EncodedKey), index.validateBatch keys seen = true ↔
      keys.Nodup ∧ (∀ k ∈ keys, k ∉ seen) ∧ ∀ k ∈ keys, index.entries k = none
  | [], seen => by simp [validateBatch]
  | key :: keys, seen => by
    have ih := PrimaryKeyIndex.validateBatch_iff index keys (key :: seen)
    rw [validateBatch]
    by_cases hseen : key ∈ seen
    · simp [hseen]
    · rcases hentry : index.entries key with _ | e
      · simp only [hseen, if_false, Option.isSome_none, Bool.false_eq_true, ih, List.nodup_cons,
          List.mem_cons, not_or, forall_eq_or_imp, hentry, not_false_eq_true, true_and]
        constructor
        · rintro ⟨hnd, hne, hnone⟩
          exact ⟨⟨fun hk => (hne key hk).1 rfl, hnd⟩, fun k hk => (hne k hk).2, hnone⟩
        · rintro ⟨⟨hk, hnd⟩, hne, hnone⟩
          exact ⟨hnd, fun k hk' => ⟨fun heq => hk (heq ▸ hk'), hne k hk'⟩, hnone⟩
      · simp [hseen, hentry]

namespace TableIndexManager

/-- The keys of a list of rows are new: pairwise distinct, and none of them known. -/
def KeysNew (schema : TableSchema) (rows : List StoredRow) (new : List Row) : Prop :=
  ∀ key, schema.primaryKey = some key →
    (new.map (rowKey schema key)).Nodup ∧
      ∀ row ∈ new, rowKey schema key row ∉ rows.map fun r => rowKey schema key r.1

/-- **Validation accepts exactly the batches whose primary keys are new.** -/
theorem Represents.validatePrimaryKey {schema : TableSchema} {rows : List StoredRow}
    {m : TableIndexManager} (h : Represents schema rows m) (hkeys : schema.KeysInSchema)
    {chunk : DataChunk} (hf : chunk.Fits schema) :
    ∃ b, m.validatePrimaryKey chunk = .ok b ∧ (b = true ↔ KeysNew schema rows chunk.rows) := by
  unfold TableIndexManager.validatePrimaryKey
  rw [h.schema_eq]
  rcases hpk : schema.primaryKey with _ | key
  · rw [h.noPrimary hpk]
    exact ⟨true, rfl, by simp [KeysNew, hpk]⟩
  · obtain ⟨index, hindex, hentries⟩ := h.primary key hpk
    have hcols : ∀ id ∈ key.columns, schema.HasColumn id :=
      hkeys key (by simp [TableSchema.keys, hpk])
    have henc : (List.range chunk.size).mapM (KeyEncoder.encodeChunk schema key chunk) =
        .ok ((List.range chunk.size).map fun i => rowKey schema key (chunk.row i)) :=
      mapM_eq_ok fun i _ => KeyEncoder.encodeChunk_eq hcols hf i
    have hmap : ((List.range chunk.size).map fun i => rowKey schema key (chunk.row i)) =
        chunk.rows.map (rowKey schema key) := by simp [DataChunk.rows]
    refine ⟨index.validateBatch (chunk.rows.map (rowKey schema key)) [], ?_, ?_⟩
    · simp only [hindex, henc, hmap]
      rfl
    · rw [PrimaryKeyIndex.validateBatch_iff]
      simp only [KeysNew, hpk, Option.some.injEq, forall_eq', hentries, KeyLog.latest_eq_none_iff,
        keyLog, List.map_map, List.mem_map, List.not_mem_nil, not_false_eq_true, implies_true,
        true_and, forall_exists_index, and_imp, forall_apply_eq_imp_iff₂, Function.comp_def]

/-! ## Lookup -/

/-- The primary keys of the stored rows are pairwise distinct. -/
def KeysDistinct (schema : TableSchema) (rows : List StoredRow) : Prop :=
  ∀ key, schema.primaryKey = some key → (rows.map fun r => rowKey schema key r.1).Nodup

/-- What is found in a list is found beside it in the other. -/
theorem find?_zip_of_forall₂ {α β : Type} {R : α → β → Prop} {p : α → Bool} {a : α} :
    ∀ {as : List α} {bs : List β}, List.Forall₂ R as bs → as.find? p = some a →
      ∃ b, (as.zip bs).find? (fun q => p q.1) = some (a, b) ∧ R a b
  | [], [], .nil, h => by simp at h
  | x :: as, y :: bs, .cons hxy hrest, h => by
    by_cases hp : p x = true
    · rw [List.find?_cons_of_pos hp] at h
      cases h
      exact ⟨y, by simp [hp], hxy⟩
    · rw [List.find?_cons_of_neg hp] at h
      obtain ⟨b, hb, hR⟩ := find?_zip_of_forall₂ hrest h
      exact ⟨b, by simpa [hp] using hb, hR⟩

/-- The entries of a log. -/
theorem mem_keyLog {schema : TableSchema} {key : KeySchema} {rows : List StoredRow} {k : EncodedKey}
    {e : IndexEntry} :
    (k, e) ∈ keyLog schema key rows ↔ ∃ row, (row, e) ∈ rows ∧ rowKey schema key row = k := by
  simp only [keyLog, List.mem_map, Prod.mk.injEq, Prod.exists]
  constructor
  · rintro ⟨row, e', hmem, hk, rfl⟩
    exact ⟨row, hmem, hk⟩
  · rintro ⟨row, hmem, hk⟩
    exact ⟨row, e, hmem, hk, rfl⟩

/-- A lookup finds the visible entry. -/
theorem PrimaryKeyIndex.mem_lookup_iff {index : PrimaryKeyIndex} {k : EncodedKey} {l : RowLocation} :
    l ∈ (index.lookup k).toList ↔ index.entries k = some ⟨l, true⟩ := by
  unfold PrimaryKeyIndex.lookup
  rcases index.entries k with _ | ⟨place, visible⟩
  · simp
  · cases visible <;> simp [eq_comm]

/-- A lookup finds the visible entries. -/
theorem SecondaryKeyIndex.mem_lookupEqual_iff {index : SecondaryKeyIndex} {k : EncodedKey}
    {l : RowLocation} : l ∈ index.lookupEqual k ↔ ⟨l, true⟩ ∈ index.entries k := by
  simp only [SecondaryKeyIndex.lookupEqual, List.mem_map, List.mem_filter]
  constructor
  · rintro ⟨⟨place, visible⟩, ⟨hmem, hvis⟩, rfl⟩
    cases hvis
    exact hmem
  · intro h
    exact ⟨⟨l, true⟩, ⟨h, rfl⟩, rfl⟩

/-- **Lookup returns the visible rows of the key.** -/
theorem Represents.mem_lookup_iff {schema : TableSchema} {rows : List StoredRow}
    {m : TableIndexManager} (h : Represents schema rows m) (hd : KeysDistinct schema rows)
    {keyId : KeyId} {key : KeySchema} (hkey : findKeySchema schema keyId = some key) (k : EncodedKey)
    (l : RowLocation) :
    l ∈ m.lookup keyId k ↔ ∃ row, (row, ⟨l, true⟩) ∈ rows ∧ rowKey schema key row = k := by
  have hsecond : schema.secondaryKeys.find? (fun s => s.keyId == keyId) = some key →
      (l ∈ TableIndexManager.lookup.lookupSecondary m keyId k ↔
        ∃ row, (row, ⟨l, true⟩) ∈ rows ∧ rowKey schema key row = k) := by
    intro hfind
    obtain ⟨index, hzip, hentries⟩ := find?_zip_of_forall₂ h.secondary hfind
    rw [TableIndexManager.lookup.lookupSecondary, h.schema_eq, hzip]
    simp only
    rw [SecondaryKeyIndex.mem_lookupEqual_iff, hentries, KeyLog.mem_entriesOf, mem_keyLog]
  unfold TableIndexManager.lookup
  rw [h.schema_eq]
  unfold findKeySchema at hkey
  rcases hpk : schema.primaryKey with _ | pk
  · rw [hpk] at hkey
    rw [h.noPrimary hpk]
    exact hsecond hkey
  · rw [hpk] at hkey
    obtain ⟨index, hindex, hentries⟩ := h.primary pk hpk
    simp only at hkey
    rw [hindex]
    simp only
    by_cases hid : pk.keyId = keyId
    · rw [if_pos hid] at hkey ⊢
      obtain rfl : pk = key := Option.some.inj hkey
      have hnd : ((keyLog schema pk rows).map Prod.fst).Nodup := by
        simpa [keyLog, Function.comp_def] using hd pk hpk
      rw [PrimaryKeyIndex.mem_lookup_iff, hentries, KeyLog.latest_eq_some_iff hnd, mem_keyLog]
    · rw [if_neg hid] at hkey ⊢
      exact hsecond hkey

end TableIndexManager

end SimpleOlap
