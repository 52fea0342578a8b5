import SimpleOlap.Execution.ExecutorBuilder
import SimpleOlap.Main.Database
import SimpleOlap.Planner.Optimizer

/-!
# Prepared queries

A prepared query holds a plan, and the plan holds the id of its table. The id is looked up again whenever
the query is executed.

* `Connection.prepare`, `Connection.scannedData`: the plan of a statement, and the data that executing a
  plan reads.
* `Operations.real`: the single operations with the effects they have when they fail.
* `Session`, `Session.step`: a run of creating, dropping and preparing, from a catalog that was loaded, with the
  ids that were loaded or handed out.
* `prepared_reads_own_table`: in runs where no table is created while a table that is gone has the id right above
  the listed ones, no id is handed out twice and a prepared query reads its own table or fails; any other
  creation hands out an id again.

Source: `connection.cpp`, `executor_builder.cpp` BuildScanSpec, `database.cpp`. An index scan resolves
its table as a scan does.
-/

namespace SimpleOlap

open Lib

/-! ## Preparing and executing -/

/-- Source: `catalog.cpp` GetTable, by name. -/
def Catalog.getTable (c : Catalog) (name : Bytes) : Option TableCatalogEntry :=
  (c.nameIndex.lookup name).bind fun id => c.tables.lookup id

/-- The table under a name. Source: `binder.cpp` BindTableRef. -/
def Catalog.bindTableRef (c : Catalog) (name : Bytes) : Option BoundTable := do
  let oid ← c.nameIndex.lookup name
  let entry ← c.getTable name
  return ⟨oid, entry.schema.columns⟩

namespace Connection

/-- The plan of a SELECT. Source: `connection.cpp` PlanQuery, Prepare. -/
def prepare (c : Catalog) (stmt : SelectStatement) : Except String LogicalPlan := do
  let bound ← Binder.bindSelect (c.bindTableRef stmt.tableName) stmt
  return optimize (← planSelect bound)

/-- The data that executing the plan reads, where it does not fail before it reads any. Source:
`connection.cpp` Execute, `executor_builder.cpp` BuildScanSpec, `seq_scan.cpp` Open. -/
def scannedData (db : Database) (readable : Bool) : LogicalPlan → Except String ℕ
  | .scan tableOid required pushed => do
    let entry := db.catalog.tables.lookup tableOid
    let spec ← buildScanSpec (entry.map TableCatalogEntry.schema) tableOid required pushed
    match (db.storage.getTable spec.tableId readable).2 with
    | none => .error "SeqScanOperator: table storage not found"
    | some data => .ok data
  | .filter _ child | .project _ child | .aggregate _ _ child => scannedData db readable child
  | .insert _ _ _ | .createTable _ _ =>
    .error "ExecutorBuilder: command plan is not a streaming operator tree"

/-- **A plan is executed on what its id stands for now.** -/
theorem scannedData_eq_ok {db : Database} {readable : Bool} {plan : LogicalPlan} {data : ℕ}
    (h : scannedData db readable plan = .ok data) :
    ∃ id, plan.scanOid = some id ∧ id ∈ db.catalog.tables ∧
      (db.storage.opened.lookup id = some data ∨ db.storage.directories.lookup id = some data) := by
  induction plan with
  | scan tableOid required pushed =>
    obtain ⟨spec, hspec, h⟩ := bind_eq_ok h
    rcases hentry : db.catalog.tables.lookup tableOid with _ | entry
    · rw [hentry] at hspec
      cases hspec
    · have hid : spec.tableId = tableOid := by
        rw [hentry] at hspec
        obtain ⟨columns, -, hspec⟩ := bind_eq_ok hspec
        obtain ⟨schema, -, hspec⟩ := bind_eq_ok hspec
        cases hspec
        rfl
      rw [hid] at h
      refine ⟨tableOid, rfl, Finmap.mem_of_lookup_eq_some hentry, ?_⟩
      unfold Storage.getTable at h
      rcases hopened : db.storage.opened.lookup tableOid with _ | opened
      · rcases hdir : db.storage.directories.lookup tableOid with _ | stored
        · rw [hopened, hdir] at h
          cases h
        · rw [hopened, hdir] at h
          cases readable with
          | false => cases h
          | true =>
            cases h
            exact .inr rfl
      · rw [hopened] at h
        cases h
        exact .inl rfl
  | filter predicate child ih => exact ih h
  | project outputs child ih => exact ih h
  | aggregate groupBy outputs child ih => exact ih h
  | insert tableOid targetColumns rows => cases h
  | createTable tableName schema => cases h

/-- **A plan is prepared against the table that its statement names.** -/
theorem scanOid_prepare {c : Catalog} {stmt : SelectStatement} {plan : LogicalPlan}
    (h : prepare c stmt = .ok plan) :
    ∃ id ∈ c.tables, c.nameIndex.lookup stmt.tableName = some id ∧ plan.scanOid = some id := by
  obtain ⟨bound, hbound, h⟩ := bind_eq_ok h
  obtain ⟨planned, hplanned, h⟩ := bind_eq_ok h
  cases h
  obtain ⟨table, htable, hof, -⟩ := Binder.bindSelect_spec hbound
  unfold Catalog.bindTableRef Catalog.getTable at htable
  rcases hlookup : c.nameIndex.lookup stmt.tableName with _ | id
  · rw [hlookup] at htable
    cases htable
  · rcases hentry : c.tables.lookup id with _ | entry
    · simp [hlookup, hentry] at htable
    · simp only [hlookup, hentry, Option.bind_eq_bind, Option.bind_some, Option.pure_def,
        Option.some_inj] at htable
      refine ⟨id, Finmap.mem_of_lookup_eq_some hentry, rfl, ?_⟩
      rw [scanOid_optimize, scanOid_planSelect hplanned, hof.tableOid, ← htable]

end Connection

/-! ## The single operations -/

namespace Storage

variable {s : Storage} {id id' : TableId} {readable : Bool} {data : ℕ}

/-- Opening a table changes no directory. -/
theorem directories_getTable (s : Storage) (id : TableId) (readable : Bool) :
    (s.getTable id readable).1.directories = s.directories := by
  unfold getTable
  split
  · rfl
  · split
    · rfl
    · split <;> rfl

/-- Opening a table opens its directory, and no other. -/
theorem lookup_opened_getTable (h : (s.getTable id readable).1.opened.lookup id' = some data) :
    s.opened.lookup id' = some data ∨ id' = id ∧ s.directories.lookup id = some data := by
  unfold getTable at h
  split at h
  · exact .inl h
  · split at h
    · exact .inl h
    · rename_i hdir
      split at h
      · by_cases hid : id' = id
        · subst hid
          rw [Finmap.lookup_insert] at h
          exact .inr ⟨rfl, hdir.trans h⟩
        · rw [Finmap.lookup_insert_of_ne _ hid] at h
          exact .inl h
      · exact .inl h

end Storage

/-- How each of the single operations ends. -/
structure RealOutcomes where
  /-- the result of SaveMeta in Catalog::CreateTable -/
  createSaved : Bool
  /-- the result of SaveMeta in Catalog::DropTable -/
  dropSaved : Bool
  creation : Creation
  renamed : Bool
  deriving DecidableEq, Repr

/-- The operations as the code has them. -/
def Operations.real (order : List TableId) (data : ℕ) (o : RealOutcomes) : Operations where
  createEntry c name schema := c.createTable order name schema o.createSaved
  dropEntry c name := c.dropTable name o.dropSaved
  createStorage s tableId := s.createTable tableId data o.creation
  dropStorage s tableId := s.dropTable tableId o.renamed

namespace Database

/-- Taking a new id out again. -/
theorem mem_of_mem_erase_insert {m : Finmap fun _ : TableId => TableCatalogEntry} {id id' : TableId}
    {e : TableCatalogEntry} (h : id' ∈ (m.insert id e).erase id) : id' ∈ m := by
  obtain ⟨hne, hmem⟩ := Finmap.mem_erase.mp h
  exact (Finmap.mem_insert.mp hmem).resolve_left hne

/-- The catalog lists no other tables, and the storage differs in directories of the new id at most. -/
def Withdrawn (db db' : Database) (newId : TableId) : Prop :=
  (∀ id ∈ db'.catalog.tables, id ∈ db.catalog.tables) ∧ db'.storage.opened = db.storage.opened ∧
    ∀ id ≠ newId, db'.storage.directories.lookup id = db.storage.directories.lookup id

/-- **Creating a table**: no entry is made; or both sides have the table; or the entry is made and taken
out again, and what is left is a directory at most. -/
theorem createTable_real (db : Database) (order : List TableId) (data : ℕ) (o : RealOutcomes)
    (name : Bytes) (schema : TableSchema) :
    (¬ (name ∉ db.catalog.nameIndex ∧ o.createSaved = true) ∧
        (db.createTable (.real order data o) name schema).1.storage = db.storage ∧
        ∀ id ∈ (db.createTable (.real order data o) name schema).1.catalog.tables,
          id ∈ db.catalog.tables) ∨
      ((name ∉ db.catalog.nameIndex ∧ o.createSaved = true) ∧
        ((db.createTable (.real order data o) name schema).1 =
            db.created (newEntry order name schema) data ∨
          db.Withdrawn (db.createTable (.real order data o) name schema).1
            (Catalog.nextTableId order))) := by
  unfold Database.createTable coordinateCreate
  simp only [Operations.real, Catalog.createTable]
  by_cases hname : name ∈ db.catalog.nameIndex
  · rw [if_pos hname]
    exact .inl ⟨fun h => h.1 hname, rfl, fun _ hid => hid⟩
  have hlookup : (db.catalog.register (newEntry order name schema)).nameIndex.lookup name =
      some (Catalog.nextTableId order) := Finmap.lookup_insert _
  unfold newEntry at hlookup ⊢
  rw [if_neg hname]
  cases hsaved : o.createSaved with
  | false =>
    refine .inl ⟨fun h => Bool.false_ne_true h.2, rfl, fun id hid => ?_⟩
    simp only [Bool.false_eq_true, if_false, hlookup, Option.getD_some] at hid
    exact mem_of_mem_erase_insert hid
  | true =>
    refine .inr ⟨⟨hname, rfl⟩, ?_⟩
    simp only [if_true, hlookup, Storage.createTable, Catalog.dropTable]
    split_ifs with hopened
    · exact .inr ⟨fun id hid => mem_of_mem_erase_insert hid, rfl, fun _ _ => rfl⟩
    · cases o.creation with
      | made => exact .inl rfl
      | partly =>
        exact .inr ⟨fun id hid => mem_of_mem_erase_insert hid, rfl, fun id hne =>
          Finmap.lookup_insert_of_ne _ hne⟩
      | failed => exact .inr ⟨fun id hid => mem_of_mem_erase_insert hid, rfl, fun _ _ => rfl⟩

/-- **Dropping a table** takes out entries, open storages and directories, and of the others keeps what
they are. -/
theorem dropTable_real (db : Database) (order : List TableId) (data : ℕ) (o : RealOutcomes)
    (name : Bytes) :
    ∀ id ∈ (db.dropTable (.real order data o) name).1.catalog.tables, id ∈ db.catalog.tables ∧
      (db.dropTable (.real order data o) name).1.storage.opened.lookup id =
        db.storage.opened.lookup id ∧
      (db.dropTable (.real order data o) name).1.storage.directories.lookup id =
        db.storage.directories.lookup id := by
  unfold Database.dropTable
  rcases hlookup : db.catalog.nameIndex.lookup name with _ | dropped
  · exact fun _ hid => ⟨hid, rfl, rfl⟩
  · have hdrop : db.catalog.dropTable name o.dropSaved =
        (⟨db.catalog.nameIndex.erase name, db.catalog.tables.erase dropped⟩, o.dropSaved) := by
      rw [Catalog.dropTable, hlookup]
    simp only [Operations.real, hdrop]
    cases o.dropSaved with
    | false => exact fun id hid => ⟨(Finmap.mem_erase.mp hid).2, rfl, rfl⟩
    | true =>
      intro id hid
      obtain ⟨hne, hmem⟩ := Finmap.mem_erase.mp hid
      refine ⟨hmem, Finmap.lookup_erase_ne hne, ?_⟩
      unfold Storage.dropTable
      cases o.renamed with
      | true => exact Finmap.lookup_erase_ne hne
      | false => rfl

end Database

/-! ## Runs -/

/-- A prepared query, with the table that it was prepared against, as the place of its id among those loaded and
handed out. Source:
`connection.cpp` PreparedQuery::Impl. -/
structure PreparedQuery where
  plan : LogicalPlan
  table : ℕ

/-- The table that was given the id last, of the ids that were handed out, the last first. -/
def owner : List TableId → TableId → Option ℕ
  | [], _ => none
  | id' :: handed, id => if id' = id then some handed.length else owner handed id

/-- A run so far. -/
structure Session where
  db : Database
  /-- the ids that the catalog loaded or handed out, the last first -/
  handed : List TableId
  prepared : List PreparedQuery

/-- A call; `opens` is the effect on the storage of any query that is executed. -/
inductive Session.Event
  | createTable (order : List TableId) (o : RealOutcomes) (name : Bytes) (schema : TableSchema)
  | dropTable (o : RealOutcomes) (name : Bytes)
  | prepare (stmt : SelectStatement)
  | opens (id : TableId) (readable : Bool)

namespace Session

/-- A database that was just opened: the catalog has the ids that it loaded, and the directories of its tables are
theirs. No table is open, and nothing is prepared. Source: `database.cpp` Database. -/
structure Loaded (s : Session) : Prop where
  nodup : s.handed.Nodup
  listed : ∀ id, id ∈ s.handed ↔ id ∈ s.db.catalog.tables
  opened : s.db.storage.opened = ∅
  directories : ∀ id ∈ s.db.catalog.tables, ∀ data, s.db.storage.directories.lookup id = some data →
    owner s.handed id = some data
  prepared : s.prepared = []

/-- The session on an empty database. -/
def empty : Session := ⟨Database.empty, [], []⟩

/-- The entry of a new table is made. -/
def Makes (s : Session) (o : RealOutcomes) (name : Bytes) : Prop :=
  name ∉ s.db.catalog.nameIndex ∧ o.createSaved = true

/-- Whether a table is made can be decided. -/
instance (s : Session) (o : RealOutcomes) (name : Bytes) : Decidable (s.Makes o name) :=
  inferInstanceAs (Decidable (_ ∧ _))

/-- The run after the call. -/
def step (s : Session) : Event → Session
  | .createTable order o name schema =>
    ⟨(s.db.createTable (.real order s.handed.length o) name schema).1,
      if s.Makes o name then Catalog.nextTableId order :: s.handed else s.handed, s.prepared⟩
  | .dropTable o name => ⟨(s.db.dropTable (.real [] 0 o) name).1, s.handed, s.prepared⟩
  | .prepare stmt =>
    match Connection.prepare s.db.catalog stmt with
    | .error _ => s
    | .ok plan => ⟨s.db, s.handed, ⟨plan, (plan.scanOid.bind (owner s.handed)).getD 0⟩ :: s.prepared⟩
  | .opens id readable =>
    ⟨⟨s.db.catalog, (s.db.storage.getTable id readable).1⟩, s.handed, s.prepared⟩

/-- A statement that is not prepared changes nothing. -/
theorem step_prepare_error {s : Session} {stmt : SelectStatement} {message : String}
    (h : Connection.prepare s.db.catalog stmt = .error message) : s.step (.prepare stmt) = s := by
  simp only [step, h]

/-- A statement that is prepared is kept, with the table that owned its id. -/
theorem step_prepare_ok {s : Session} {stmt : SelectStatement} {plan : LogicalPlan}
    (h : Connection.prepare s.db.catalog stmt = .ok plan) : s.step (.prepare stmt) =
      ⟨s.db, s.handed, ⟨plan, (plan.scanOid.bind (owner s.handed)).getD 0⟩ :: s.prepared⟩ := by
  simp only [step, h]

/-- No id is handed out twice, and a prepared query reads its own table or fails. -/
def Safe (s : Session) : Prop :=
  s.handed.Nodup ∧ ∀ p ∈ s.prepared, ∀ readable data,
    Connection.scannedData s.db readable p.plan = .ok data → data = p.table

/-- The order in which a creation goes through the tables is one of the tables, and no listed id is the last of its
type. -/
def Regular (s : Session) : Event → Prop
  | .createTable order _ _ _ => s.db.catalog.Lists order ∧ s.db.catalog.IdsLeft
  | _ => True

/-- No table that is gone has the id right above the listed ones, or the first of all where none is listed. -/
def NoneAbove (s : Session) : Prop :=
  ∀ id ∈ s.handed, (∀ id' ∈ s.db.catalog.tables, id' < id) →
    id ≠ 0 ∧ ∀ id' ∈ s.db.catalog.tables, id ≠ id' + 1

/-- Where the entry of a new table is made, no table that is gone has the id right above the listed ones. -/
def Careful (s : Session) : Event → Prop
  | .createTable _ o name _ => s.Makes o name → s.NoneAbove
  | _ => True

/-- So it is while the greatest of all ids so far is listed. -/
theorem noneAbove_of_listed {s : Session} (h : ∀ id ∈ s.handed, ∃ id' ∈ s.db.catalog.tables, id ≤ id') :
    s.NoneAbove := by
  intro id hid habove
  obtain ⟨id', hlisted, hle⟩ := h id hid
  exact absurd (habove id' hlisted) (not_lt_of_ge hle)

/-! ## Ids -/

/-- An older id keeps its owner. -/
theorem owner_cons_of_ne {handed : List TableId} {id id' : TableId} (h : id' ≠ id) :
    owner (id' :: handed) id = owner handed id := if_neg h

/-- A new id is owned by its table. -/
theorem owner_cons_self (handed : List TableId) (id : TableId) :
    owner (id :: handed) id = some handed.length := if_pos rfl

/-- An id that was given out has an owner. -/
theorem owner_isSome {handed : List TableId} {id : TableId} (h : id ∈ handed) :
    ∃ n, owner handed id = some n := by
  induction handed with
  | nil => cases h
  | cons id' handed ih =>
    by_cases hid : id' = id
    · exact ⟨handed.length, if_pos hid⟩
    · rw [owner_cons_of_ne hid]
      exact ih ((List.mem_cons.mp h).resolve_left (Ne.symm hid))

/-- **The next id was handed out before exactly where a table that is gone has it.** -/
theorem nextTableId_notMem_handed_iff {s : Session} {order : List TableId} (horder : s.db.catalog.Lists order)
    (hleft : s.db.catalog.IdsLeft) : Catalog.nextTableId order ∉ s.handed ↔ s.NoneAbove := by
  have habove := Catalog.lt_nextTableId horder hleft
  have hnext := Catalog.nextTableId_eq horder hleft
  constructor
  · intro hnot id hid hlt
    refine ⟨fun hzero => hnot ?_, fun id' hid' hsucc => hnot ?_⟩
    · -- nothing is below the first id, so nothing is listed
      have hfirst : Catalog.nextTableId order = 0 := hnext.resolve_right fun ⟨id', hid', _⟩ =>
        Nat.not_lt_zero id' (hzero ▸ hlt id' hid')
      rwa [hfirst, ← hzero]
    · have hle : id' + 1 ≤ Catalog.nextTableId order := habove id' hid'
      have hge : Catalog.nextTableId order ≤ id' + 1 := by
        rcases hnext with hzero | ⟨last, hlast, hnext⟩
        · rw [hzero]
          exact Nat.zero_le _
        · have hlastlt := hlt last hlast
          rw [hsucc] at hlastlt
          rw [hnext]
          exact hlastlt
      rwa [le_antisymm hge hle, ← hsucc]
  · intro hnone hmem
    obtain ⟨hzero, hsucc⟩ := hnone _ hmem habove
    exact hnext.elim hzero fun ⟨id, hid, hnext⟩ => hsucc id hid hnext

/-! ## The invariant -/

/-- What holds between the calls of a careful run. -/
structure Consistent (s : Session) : Prop where
  nodup : s.handed.Nodup
  listed : ∀ id ∈ s.db.catalog.tables, id ∈ s.handed
  opened : ∀ id ∈ s.db.catalog.tables, ∀ data, s.db.storage.opened.lookup id = some data →
    owner s.handed id = some data
  directories : ∀ id ∈ s.db.catalog.tables, ∀ data, s.db.storage.directories.lookup id = some data →
    owner s.handed id = some data
  prepared : ∀ p ∈ s.prepared, ∃ id ∈ s.handed, p.plan.scanOid = some id ∧
    owner s.handed id = some p.table

variable {s : Session}

/-- A database that was just opened. -/
theorem Loaded.consistent (h : s.Loaded) : s.Consistent where
  nodup := h.nodup
  listed id hid := (h.listed id).mpr hid
  opened id _ data hdata := by
    rw [h.opened, Finmap.lookup_empty] at hdata
    cases hdata
  directories := h.directories
  prepared p hp := by
    rw [h.prepared] at hp
    cases hp

/-- **Where ids keep their tables, prepared queries do.** -/
theorem Consistent.safe (h : s.Consistent) : s.Safe := by
  refine ⟨h.nodup, fun p hp readable data hdata => ?_⟩
  obtain ⟨id, -, hplan, howner⟩ := h.prepared p hp
  obtain ⟨id', hplan', hlisted, hread⟩ := Connection.scannedData_eq_ok hdata
  rw [hplan, Option.some_inj] at hplan'
  subst hplan'
  have hnow : owner s.handed id = some data := hread.elim (h.opened id hlisted data)
    (h.directories id hlisted data)
  rw [howner, Option.some_inj] at hnow
  exact hnow.symm

/-- Ids keep their tables when a new one is handed out. -/
theorem owner_cons {newId id : TableId} (hnew : newId ∉ s.handed) (hid : id ∈ s.handed) :
    owner (newId :: s.handed) id = owner s.handed id :=
  owner_cons_of_ne fun heq => hnew (heq ▸ hid)

/-- The state after a new id was handed out: the lookups of the listed ids are as before or show the new
table under the new id. -/
theorem Consistent.hand (h : s.Consistent) {newId : TableId} (hnotMem : newId ∉ s.handed) {db : Database}
    (hlisted : ∀ id ∈ db.catalog.tables, id ∈ s.db.catalog.tables ∨ id = newId)
    (hopened : ∀ id ≠ newId, db.storage.opened.lookup id = s.db.storage.opened.lookup id)
    (hdirectories : ∀ id ≠ newId,
      db.storage.directories.lookup id = s.db.storage.directories.lookup id)
    (hnew : newId ∈ db.catalog.tables → ∀ data,
      db.storage.opened.lookup newId = some data ∨
        db.storage.directories.lookup newId = some data → data = s.handed.length) :
    Consistent ⟨db, newId :: s.handed, s.prepared⟩ := by
  have hold : ∀ id ∈ db.catalog.tables, id ≠ newId → id ∈ s.db.catalog.tables :=
    fun id hid hne => (hlisted id hid).resolve_right hne
  exact {
    nodup := List.nodup_cons.mpr ⟨hnotMem, h.nodup⟩
    listed := fun id hid => (hlisted id hid).elim (fun hid => List.mem_cons_of_mem _ (h.listed id hid))
      fun heq => heq ▸ List.mem_cons_self
    opened := fun id hid data hdata => by
      by_cases hne : id = newId
      · subst hne
        rw [owner_cons_self, hnew hid data (.inl hdata)]
      · rw [hopened id hne] at hdata
        rw [owner_cons hnotMem (h.listed id (hold id hid hne))]
        exact h.opened id (hold id hid hne) data hdata
    directories := fun id hid data hdata => by
      by_cases hne : id = newId
      · subst hne
        rw [owner_cons_self, hnew hid data (.inr hdata)]
      · rw [hdirectories id hne] at hdata
        rw [owner_cons hnotMem (h.listed id (hold id hid hne))]
        exact h.directories id (hold id hid hne) data hdata
    prepared := fun p hp => by
      obtain ⟨id, hid, hplan, howner⟩ := h.prepared p hp
      exact ⟨id, List.mem_cons_of_mem _ hid, hplan, (owner_cons hnotMem hid).trans howner⟩ }

/-- A creation that makes no entry. -/
theorem Consistent.createTable_of_not_makes (h : s.Consistent) {order : List TableId} {o : RealOutcomes}
    {name : Bytes} {schema : TableSchema} (hmakes : ¬ s.Makes o name) :
    (s.step (.createTable order o name schema)).Consistent := by
  have hstep : s.step (.createTable order o name schema) =
      ⟨(s.db.createTable (.real order s.handed.length o) name schema).1, s.handed, s.prepared⟩ := by
    rw [step, if_neg hmakes]
  rw [hstep]
  obtain ⟨-, hstorage, hlisted⟩ | ⟨hmade, -⟩ :=
    s.db.createTable_real order s.handed.length o name schema
  · exact {
      nodup := h.nodup
      listed := fun id hid => h.listed id (hlisted id hid)
      opened := fun id hid data hdata => h.opened id (hlisted id hid) data (hstorage ▸ hdata)
      directories := fun id hid data hdata => h.directories id (hlisted id hid) data (hstorage ▸ hdata)
      prepared := h.prepared }
  · exact absurd hmade hmakes

/-- A creation that hands out a new id. -/
theorem Consistent.createTable_of_makes (h : s.Consistent) {order : List TableId} {o : RealOutcomes}
    {name : Bytes} {schema : TableSchema} (hnew : Catalog.nextTableId order ∉ s.handed) (hmakes : s.Makes o name) :
    (s.step (.createTable order o name schema)).Consistent := by
  rw [step, if_pos hmakes]
  obtain ⟨hnot, -⟩ | ⟨-, hmade | ⟨hlisted, hopened, hdirectories⟩⟩ :=
    s.db.createTable_real order s.handed.length o name schema
  · exact absurd hmakes hnot
  · rw [hmade]
    have hid : (Database.newEntry order name schema).tableId = Catalog.nextTableId order := rfl
    refine h.hand hnew (fun id hlisted => ?_) (fun id hne => ?_) (fun id hne => ?_) fun _ data hdata => ?_
    · exact (Finmap.mem_insert.mp hlisted).elim (fun heq => .inr (heq.trans hid)) .inl
    · exact Finmap.lookup_insert_of_ne _ (hid ▸ hne)
    · exact Finmap.lookup_insert_of_ne _ (hid ▸ hne)
    · simp only [Database.created, hid, Finmap.lookup_insert, Option.some_inj, or_self] at hdata
      exact hdata.symm
  · exact h.hand hnew (fun id hid => .inl (hlisted id hid)) (fun id _ => by rw [hopened]) hdirectories
      fun hid => absurd (h.listed _ (hlisted _ hid)) hnew

/-- DROP TABLE keeps the session consistent. -/
theorem Consistent.dropTable (h : s.Consistent) (o : RealOutcomes) (name : Bytes) :
    (s.step (.dropTable o name)).Consistent := by
  have hkeep := s.db.dropTable_real [] 0 o name
  exact {
    nodup := h.nodup
    listed := fun id hid => h.listed id (hkeep id hid).1
    opened := fun id hid data hdata => h.opened id (hkeep id hid).1 data ((hkeep id hid).2.1 ▸ hdata)
    directories := fun id hid data hdata =>
      h.directories id (hkeep id hid).1 data ((hkeep id hid).2.2 ▸ hdata)
    prepared := h.prepared }

/-- Preparing keeps the session consistent. -/
theorem Consistent.prepare (h : s.Consistent) (stmt : SelectStatement) :
    (s.step (.prepare stmt)).Consistent := by
  rcases hplan : Connection.prepare s.db.catalog stmt with message | plan
  · rw [step_prepare_error hplan]
    exact h
  · rw [step_prepare_ok hplan]
    obtain ⟨id, hlisted, -, hoid⟩ := Connection.scanOid_prepare hplan
    obtain ⟨n, hn⟩ := owner_isSome (h.listed id hlisted)
    refine { h with prepared := fun p hp => ?_ }
    rcases List.mem_cons.mp hp with rfl | hp
    · exact ⟨id, h.listed id hlisted, hoid, by simp [hoid, hn]⟩
    · exact h.prepared p hp

/-- Opening a table keeps the session consistent. -/
theorem Consistent.opens (h : s.Consistent) (id : TableId) (readable : Bool) :
    (s.step (.opens id readable)).Consistent := by
  have hdirectories := Storage.directories_getTable s.db.storage id readable
  refine { h with opened := fun id' hid' data hdata => ?_, directories := fun id' hid' data hdata => ?_ }
  · rcases Storage.lookup_opened_getTable hdata with hdata | ⟨rfl, hdata⟩
    · exact h.opened id' hid' data hdata
    · exact h.directories id' hid' data hdata
  · exact h.directories id' hid' data (hdirectories ▸ hdata)

/-! ## The law over runs -/

/-- The runs, from a database that was just opened, in which no table is created while a table that is gone has the
id right above the listed ones. -/
inductive Reached : Session → Prop
  | loaded {s : Session} (h : s.Loaded) : Reached s
  | step {s : Session} (h : Reached s) (event : Event) (hregular : s.Regular event)
      (hcareful : s.Careful event) : Reached (s.step event)

/-- **Every step keeps the session consistent.** -/
theorem Consistent.step (h : s.Consistent) {event : Event} (hregular : s.Regular event)
    (hcareful : s.Careful event) : (s.step event).Consistent := by
  cases event with
  | createTable order o name schema =>
    by_cases hmakes : s.Makes o name
    · exact h.createTable_of_makes ((nextTableId_notMem_handed_iff hregular.1 hregular.2).mpr (hcareful hmakes)) hmakes
    · exact h.createTable_of_not_makes hmakes
  | dropTable o name => exact h.dropTable o name
  | prepare stmt => exact h.prepare stmt
  | opens id readable => exact h.opens id readable

/-- Every session that is reached is consistent. -/
theorem Reached.consistent (h : Reached s) : s.Consistent := by
  induction h with
  | loaded h => exact h.consistent
  | step _ _ hregular hcareful ih => exact ih.step hregular hcareful

/-- **A prepared query reads its own table or fails**, and no id that was loaded or handed out is handed out again, in
every run in which no table is created while a table that is gone has the id right above the listed ones. From there a
call keeps this if and only if it is no other creation. -/
theorem prepared_reads_own_table (h : Reached s) :
    s.Safe ∧ ∀ event : Event, s.Regular event → ((s.step event).Safe ↔ s.Careful event) := by
  refine ⟨h.consistent.safe, fun event hregular => ⟨fun hsafe => ?_, fun hcareful =>
    (h.consistent.step hregular hcareful).safe⟩⟩
  cases event with
  | createTable order o name schema =>
    intro hmakes
    have hnodup := hsafe.1
    rw [Session.step, if_pos hmakes] at hnodup
    exact (nextTableId_notMem_handed_iff hregular.1 hregular.2).mp (List.nodup_cons.mp hnodup).1
  | dropTable o name => trivial
  | prepare stmt => trivial
  | opens id readable => trivial

/-! ## Two tables under one id -/

/-- All operations succeed. -/
def allWell : RealOutcomes := ⟨true, true, .made, true⟩

/-- One integer column `a`. -/
def schemaA : TableSchema := ⟨[⟨0, [97], .int32⟩], none, []⟩

/-- `SELECT a FROM t`. -/
def selectT : SelectStatement := ⟨[116], [⟨.columnRef [97], []⟩], none, []⟩

/-- The database opens with the table `t`, a query of it is prepared. -/
def preparedT : Session :=
  step ⟨⟨Catalog.empty.register ⟨0, [116], schemaA⟩, ⟨∅, Finmap.singleton 0 0⟩⟩, [0], []⟩ (.prepare selectT)

/-- The table `u` is created beside it. -/
def createdBeside : Session := preparedT.step (.createTable [0] allWell [117] schemaA)

/-- The table is dropped, and the table `u` is created. -/
def createdU : Session :=
  (preparedT.step (.dropTable allWell [116])).step (.createTable [] allWell [117] schemaA)

/-- The session is reached. -/
theorem reached_preparedT : Reached preparedT := by
  refine .step (.loaded ⟨List.nodup_singleton 0, fun id => ?_, rfl, fun id hid data hdata => ?_, rfl⟩) _ trivial trivial
  · rw [List.mem_singleton, Catalog.register, Finmap.mem_insert]
    exact (or_iff_left Finmap.notMem_empty).symm
  · obtain rfl : id = 0 := (Finmap.mem_insert.mp hid).resolve_right Finmap.notMem_empty
    rw [Finmap.lookup_singleton_eq] at hdata
    exact hdata

/-- The statement reads its own table, and so it does beside another one. -/
theorem prepared_reads_own_table_t : preparedT.Safe ∧ createdBeside.Safe := by
  obtain ⟨hsafe, hstep⟩ := prepared_reads_own_table reached_preparedT
  have htables : ∀ id, id ∈ preparedT.db.catalog.tables ↔ id = 0 := fun id =>
    Finmap.mem_insert.trans (or_iff_left Finmap.notMem_empty)
  have hregular : preparedT.Regular (.createTable [0] allWell [117] schemaA) := by
    refine ⟨⟨List.nodup_singleton 0, fun id => ?_⟩, fun id hid => ?_⟩
    · rw [htables, List.mem_singleton]
    · rw [(htables id).mp hid]
      decide
  refine ⟨hsafe, (hstep _ hregular).mpr fun _ => ?_⟩
  exact noneAbove_of_listed fun id hid => ⟨0, (htables 0).mpr rfl, (List.mem_singleton.mp hid).le⟩

/-- **The query that was prepared against `t` reads `u`.** -/
theorem preparedT_reads_u :
    Reached (preparedT.step (.dropTable allWell [116])) ∧
      ∃ p ∈ createdU.prepared, p.table = 0 ∧
        Connection.scannedData createdU.db true p.plan = .ok 1 := by
  exact ⟨.step reached_preparedT _ trivial trivial, _, List.mem_cons_self, rfl, rfl⟩

end Session

end SimpleOlap
