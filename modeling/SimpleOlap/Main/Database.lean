import SimpleOlap.Catalog.Changes

/-!
# The database: the catalog beside the storage

`Database::CreateTable`, `Database::DropTable` and `CommandExecutor::ExecuteCreateTable` take a step on the
catalog and a step on the storage, and a compensating step where the second fails.

* `Storage`: the tables that are open and the directories under `tables/`.
* `Operations`: the single operations with their outcomes; `Operations.atomic` are those that take effect
  fully or not at all.
* `Database.createTable`, `Database.dropTable`, `CommandExecutor.executeCreateTable`: the calls, over any
  operations.
* `ddl_keeps_step`: in every state that careful calls reach, the tables that are listed are those that
  have a directory; a call keeps this, and changes nothing when it fails, exactly when no step that must
  follow another fails.

Source: `database.cpp`, `command_executor.cpp`, `storage_manager.cpp`. The data of a table is named by the
call that made its storage; the schema a storage is made with is left out.
-/

namespace SimpleOlap

open Lib

/-! ## The storage -/

/-- Source: `storage_manager.h` StorageManager, with the directories on disk. -/
structure Storage where
  /-- the storages that are open -/
  opened : Finmap fun _ : TableId => ℕ
  /-- the directories `tables/{table_id}` -/
  directories : Finmap fun _ : TableId => ℕ
  deriving DecidableEq

/-- How the creation of a directory with its `table.meta` ends. -/
inductive Creation
  | made
  /-- the directory is there, but `table.meta` could not be written -/
  | partly
  | failed
  deriving DecidableEq, Repr

namespace Storage

/-- A storage without tables. -/
def empty : Storage := ⟨∅, ∅⟩

/-- Source: `storage_manager.cpp` CreateTable, `table_storage.cpp` Create. -/
def createTable (s : Storage) (tableId : TableId) (data : ℕ) (creation : Creation) : Storage × Bool :=
  if tableId ∈ s.opened then (s, false)
  else
    match creation with
    | .made => (⟨s.opened.insert tableId data, s.directories.insert tableId data⟩, true)
    | .partly => (⟨s.opened, s.directories.insert tableId data⟩, false)
    | .failed => (s, false)

/-- `renamed` is whether the directory, where there is one, could be renamed. Source:
`storage_manager.cpp` DropTable. -/
def dropTable (s : Storage) (tableId : TableId) (renamed : Bool) : Storage × Bool :=
  (⟨s.opened.erase tableId, if renamed then s.directories.erase tableId else s.directories⟩, renamed)

/-- `readable` is whether `table.meta` can be read. Source: `storage_manager.cpp` GetTable,
`table_storage.cpp` Open. -/
def getTable (s : Storage) (tableId : TableId) (readable : Bool) : Storage × Option ℕ :=
  match s.opened.lookup tableId with
  | some data => (s, some data)
  | none =>
    match s.directories.lookup tableId with
    | none => (s, none)
    | some data =>
      if readable then (⟨s.opened.insert tableId data, s.directories⟩, some data) else (s, none)

end Storage

/-! ## The calls -/

/-- Source: `database.h` Database. -/
structure Database where
  catalog : Catalog
  storage : Storage
  deriving DecidableEq

/-- The single operations, each with its outcome. -/
structure Operations where
  createEntry : Catalog → Bytes → TableSchema → Catalog × Bool
  dropEntry : Catalog → Bytes → Catalog × Bool
  createStorage : Storage → TableId → Storage × Bool
  dropStorage : Storage → TableId → Storage × Bool

/-- An entry, then its storage; where that fails the entry is dropped, whatever comes of it. -/
def coordinateCreate (ops : Operations) (db : Database) (name : Bytes) (schema : TableSchema) :
    Database × Bool :=
  match ops.createEntry db.catalog name schema with
  | (catalog, false) => (⟨catalog, db.storage⟩, false)
  | (catalog, true) =>
    match catalog.nameIndex.lookup name with
    -- `FindTable(table_name).value()`
    | none => (⟨catalog, db.storage⟩, false)
    | some tableId =>
      match ops.createStorage db.storage tableId with
      | (storage, true) => (⟨catalog, storage⟩, true)
      | (storage, false) => (⟨(ops.dropEntry catalog name).1, storage⟩, false)

namespace Database

/-- A database without tables. -/
def empty : Database := ⟨Catalog.empty, Storage.empty⟩

/-- Source: `database.cpp` CreateTable. -/
def createTable (ops : Operations) (db : Database) (name : Bytes) (schema : TableSchema) :
    Database × Bool :=
  coordinateCreate ops db name schema

/-- Source: `database.cpp` DropTable. -/
def dropTable (ops : Operations) (db : Database) (name : Bytes) : Database × Bool :=
  match db.catalog.nameIndex.lookup name with
  | none => (db, false)
  | some tableId =>
    match ops.dropEntry db.catalog name with
    | (catalog, false) => (⟨catalog, db.storage⟩, false)
    | (catalog, true) =>
      match ops.dropStorage db.storage tableId with
      | (storage, dropped) => (⟨catalog, storage⟩, dropped)

end Database

/-- Source: `command_executor.h` CommandResult. -/
structure CommandResult where
  success : Bool
  affectedRows : ℕ
  deriving DecidableEq, Repr

/-- Source: `physical_plan.h` PhysicalCreateTable. -/
structure PhysicalCreateTable where
  tableName : Bytes
  schema : TableSchema

/-- Source: `command_executor.cpp` ExecuteCreateTable. -/
def CommandExecutor.executeCreateTable (ops : Operations) (db : Database) (plan : PhysicalCreateTable) :
    Database × CommandResult :=
  match coordinateCreate ops db plan.tableName plan.schema with
  | (db, success) => (db, ⟨success, 0⟩)

/-! ## Atomic operations -/

/-- Whether each of the single operations succeeds. -/
structure Outcomes where
  createEntry : Bool
  dropEntry : Bool
  createStorage : Bool
  dropStorage : Bool
  deriving DecidableEq, Repr

/-- Each operation takes effect fully, or fails without effect. -/
def Operations.atomic (order : List TableId) (data : ℕ) (o : Outcomes) : Operations where
  createEntry c name schema := if o.createEntry then c.createTable order name schema true else (c, false)
  dropEntry c name := if o.dropEntry then c.dropTable name true else (c, false)
  createStorage s tableId := s.createTable tableId data (if o.createStorage then .made else .failed)
  dropStorage s tableId := if o.dropStorage then s.dropTable tableId true else (s, false)

namespace Database

/-- A table is listed if and only if its directory is there. -/
def InStep (db : Database) : Prop := ∀ id, id ∈ db.catalog.tables ↔ id ∈ db.storage.directories

/-- What holds between the calls. -/
structure Consistent (db : Database) : Prop where
  agrees : db.catalog.Agrees
  inStep : db.InStep
  opened : ∀ id ∈ db.storage.opened, id ∈ db.storage.directories

variable {db : Database} {order : List TableId} {name : Bytes} {schema : TableSchema} {data : ℕ}
  {o : Outcomes}

/-- The empty database is consistent. -/
theorem consistent_empty : empty.Consistent :=
  ⟨Catalog.agrees_empty, fun _ => iff_of_false Finmap.notMem_empty Finmap.notMem_empty,
    fun _ h => absurd h Finmap.notMem_empty⟩

/-- The entry that a creation registers. -/
def newEntry (order : List TableId) (name : Bytes) (schema : TableSchema) : TableCatalogEntry :=
  ⟨Catalog.nextTableId order, name, schema⟩

/-- The database with a new table. -/
def created (db : Database) (e : TableCatalogEntry) (data : ℕ) : Database :=
  ⟨db.catalog.register e,
    ⟨db.storage.opened.insert e.tableId data, db.storage.directories.insert e.tableId data⟩⟩

/-- Taking a registered entry out again. -/
theorem dropTable_register {c : Catalog} {e : TableCatalogEntry} (hname : e.name ∉ c.nameIndex)
    (hid : e.tableId ∉ c.tables) : (c.register e).dropTable e.name true = (c, true) := by
  have hlookup : (c.register e).nameIndex.lookup e.name = some e.tableId := Finmap.lookup_insert _
  unfold Catalog.dropTable
  rw [hlookup]
  simp only [Catalog.register, Catalog.erase_insert_of_notMem hname, Catalog.erase_insert_of_notMem hid]

/-- **Creating a table**, for each pattern of outcomes. -/
theorem coordinateCreate_atomic (h : db.Consistent)
    (hid : name ∉ db.catalog.nameIndex → Catalog.nextTableId order ∉ db.catalog.tables) :
    coordinateCreate (.atomic order data o) db name schema =
      if name ∈ db.catalog.nameIndex ∨ o.createEntry = false then (db, false)
      else if o.createStorage then (db.created (newEntry order name schema) data, true)
      else if o.dropEntry then (db, false)
      else (⟨db.catalog.register (newEntry order name schema), db.storage⟩, false) := by
  unfold coordinateCreate
  by_cases hname : name ∈ db.catalog.nameIndex
  · have hcreate : db.catalog.createTable order name schema true = (db.catalog, false) := if_pos hname
    rw [if_pos (Or.inl hname)]
    simp only [Operations.atomic, hcreate, ite_self]
  by_cases hentry : o.createEntry = false
  · rw [if_pos (Or.inr hentry)]
    simp only [Operations.atomic, hentry, Bool.false_eq_true, if_false]
  rw [if_neg (not_or.mpr ⟨hname, hentry⟩)]
  have hcreate : db.catalog.createTable order name schema true =
      (db.catalog.register (newEntry order name schema), true) := by
    rw [Catalog.createTable, if_neg hname]
    rfl
  have hlookup : (db.catalog.register (newEntry order name schema)).nameIndex.lookup name =
      some (Catalog.nextTableId order) := Finmap.lookup_insert _
  have hopened : Catalog.nextTableId order ∉ db.storage.opened := fun hopen =>
    hid hname ((h.inStep _).mpr (h.opened _ hopen))
  have hdrop : (db.catalog.register (newEntry order name schema)).dropTable name true =
      (db.catalog, true) := dropTable_register hname (hid hname)
  simp only [Operations.atomic, if_pos (Bool.not_eq_false _ ▸ hentry), hcreate, hlookup,
    Storage.createTable, if_neg hopened]
  cases o.createStorage with
  | true => rfl
  | false =>
    cases o.dropEntry with
    | true => simp only [Bool.false_eq_true, if_false, if_true, hdrop]
    | false => rfl

/-- **Dropping a table**, for each pattern of outcomes. -/
theorem dropTable_atomic :
    db.dropTable (.atomic order data o) name =
      match db.catalog.nameIndex.lookup name with
      | none => (db, false)
      | some id =>
        if o.dropEntry = false then (db, false)
        else if o.dropStorage then (⟨⟨db.catalog.nameIndex.erase name, db.catalog.tables.erase id⟩,
          ⟨db.storage.opened.erase id, db.storage.directories.erase id⟩⟩, true)
        else (⟨⟨db.catalog.nameIndex.erase name, db.catalog.tables.erase id⟩, db.storage⟩, false) := by
  unfold dropTable
  rcases hlookup : db.catalog.nameIndex.lookup name with _ | id
  · rfl
  · have hdrop : db.catalog.dropTable name true =
        (⟨db.catalog.nameIndex.erase name, db.catalog.tables.erase id⟩, true) := by
      rw [Catalog.dropTable, hlookup]
    simp only [Operations.atomic, hdrop]
    cases o.dropEntry with
    | false => rfl
    | true =>
      cases o.dropStorage with
      | true => rfl
      | false => rfl

/-! ## The step of each call -/

/-- A table that is new to both sides. -/
theorem Consistent.created (h : db.Consistent) {e : TableCatalogEntry}
    (hname : e.name ∉ db.catalog.nameIndex) (hid : e.tableId ∉ db.catalog.tables) :
    (db.created e data).Consistent := by
  refine ⟨h.agrees.register hname hid, fun id => ?_, fun id => ?_⟩
  · rw [Database.created, Catalog.register, Finmap.mem_insert, Finmap.mem_insert, h.inStep]
  · rw [Database.created, Finmap.mem_insert, Finmap.mem_insert]
    exact Or.imp_right (h.opened id)

/-- Membership after a key was taken out. -/
theorem mem_erase_iff_of_iff {ν ν' : Type} {m : Finmap fun _ : TableId => ν}
    {m' : Finmap fun _ : TableId => ν'} (h : ∀ id, id ∈ m ↔ id ∈ m') (id id' : TableId) :
    id' ∈ m.erase id ↔ id' ∈ m'.erase id := by
  rw [Finmap.mem_erase, Finmap.mem_erase, h]

/-- A table that is taken out of both sides. -/
theorem Consistent.dropped (h : db.Consistent) {id : TableId}
    (hlookup : db.catalog.nameIndex.lookup name = some id) :
    Consistent ⟨⟨db.catalog.nameIndex.erase name, db.catalog.tables.erase id⟩,
      ⟨db.storage.opened.erase id, db.storage.directories.erase id⟩⟩ := by
  refine ⟨h.agrees.erase hlookup, mem_erase_iff_of_iff h.inStep id, fun id' hid' => ?_⟩
  rw [Finmap.mem_erase] at hid' ⊢
  exact ⟨hid'.1, h.opened id' hid'.2⟩

/-- The storage of a table that is opened is one that has a directory. -/
theorem Consistent.getTable (h : db.Consistent) (id : TableId) (readable : Bool) :
    Consistent ⟨db.catalog, (db.storage.getTable id readable).1⟩ := by
  unfold Storage.getTable
  split
  · exact h
  · split
    · exact h
    · rename_i hlookup
      split
      · refine ⟨h.agrees, h.inStep, fun id' hid' => ?_⟩
        rcases Finmap.mem_insert.mp hid' with rfl | hid'
        · exact Finmap.mem_of_lookup_eq_some hlookup
        · exact h.opened id' hid'
      · exact h

/-- A call keeps catalog and storage in step, and where it fails it changes neither. -/
def Keeps (db db' : Database) (success : Bool) : Prop := db'.InStep ∧ (success = false → db' = db)

/-- The entry is there, its storage is not, and the entry stays. -/
def CreateLeaves (db : Database) (name : Bytes) (o : Outcomes) : Prop :=
  name ∉ db.catalog.nameIndex ∧ o.createEntry = true ∧ o.createStorage = false ∧ o.dropEntry = false

/-- The entry is gone, and its storage stays. -/
def DropLeaves (db : Database) (name : Bytes) (o : Outcomes) : Prop :=
  name ∈ db.catalog.nameIndex ∧ o.dropEntry = true ∧ o.dropStorage = false

/-- CREATE TABLE keeps the database consistent, unless it leaves something behind. -/
theorem consistent_coordinateCreate (h : db.Consistent)
    (hid : name ∉ db.catalog.nameIndex → Catalog.nextTableId order ∉ db.catalog.tables)
    (hleaves : ¬ db.CreateLeaves name o) :
    (coordinateCreate (.atomic order data o) db name schema).1.Consistent := by
  rw [coordinateCreate_atomic h hid]
  split_ifs with hfail hstorage hdrop
  · exact h
  · rw [not_or] at hfail
    exact h.created hfail.1 (hid hfail.1)
  · exact h
  · rw [not_or, Bool.not_eq_false] at hfail
    exact absurd ⟨hfail.1, hfail.2, Bool.not_eq_true _ ▸ hstorage, Bool.not_eq_true _ ▸ hdrop⟩ hleaves

/-- DROP TABLE keeps the database consistent, unless it leaves something behind. -/
theorem consistent_dropTable (h : db.Consistent) (hleaves : ¬ db.DropLeaves name o) :
    (db.dropTable (.atomic order data o) name).1.Consistent := by
  rw [dropTable_atomic]
  split
  · exact h
  · rename_i id hlookup
    split_ifs with hentry hstorage
    · exact h
    · exact h.dropped hlookup
    · exact absurd ⟨Finmap.mem_of_lookup_eq_some hlookup, Bool.not_eq_false _ ▸ hentry,
        Bool.not_eq_true _ ▸ hstorage⟩ hleaves

/-- **Creating a table keeps both sides in step** unless the entry stays without a storage. -/
theorem keeps_coordinateCreate_iff (h : db.Consistent)
    (hid : name ∉ db.catalog.nameIndex → Catalog.nextTableId order ∉ db.catalog.tables) :
    db.Keeps (coordinateCreate (.atomic order data o) db name schema).1
        (coordinateCreate (.atomic order data o) db name schema).2 ↔ ¬ db.CreateLeaves name o := by
  constructor
  · rintro hkeeps ⟨hname, hentry, hstorage, hdrop⟩
    rw [coordinateCreate_atomic h hid, hentry, hstorage, hdrop, if_neg (by simpa using hname)] at hkeeps
    have hlisted := (hkeeps.1 (Catalog.nextTableId order)).mp (Finmap.mem_insert.mpr (.inl rfl))
    exact hid hname ((h.inStep _).mpr hlisted)
  · intro hleaves
    refine ⟨(consistent_coordinateCreate h hid hleaves).inStep, fun hfailed => ?_⟩
    rw [coordinateCreate_atomic h hid] at hfailed ⊢
    split_ifs at hfailed ⊢ with hfail hstorage hdrop
    · rfl
    · rfl
    · rw [not_or, Bool.not_eq_false] at hfail
      exact absurd ⟨hfail.1, hfail.2, Bool.not_eq_true _ ▸ hstorage, Bool.not_eq_true _ ▸ hdrop⟩ hleaves

/-- **Dropping a table keeps both sides in step** unless the storage stays without an entry. -/
theorem keeps_dropTable_iff (h : db.Consistent) :
    db.Keeps (db.dropTable (.atomic order data o) name).1 (db.dropTable (.atomic order data o) name).2 ↔
      ¬ db.DropLeaves name o := by
  constructor
  · rintro hkeeps ⟨hname, hentry, hstorage⟩
    obtain ⟨id, hlookup⟩ := Finmap.mem_iff.mp hname
    rw [dropTable_atomic, hlookup, hentry, hstorage] at hkeeps
    obtain ⟨e, he, -⟩ := (h.agrees.names name id).mp hlookup
    have hdir := (h.inStep id).mp (Finmap.mem_of_lookup_eq_some he)
    have hlisted := (hkeeps.1 id).mpr hdir
    exact (Finmap.mem_erase.mp hlisted).1 rfl
  · intro hleaves
    refine ⟨(consistent_dropTable h hleaves).inStep, fun hfailed => ?_⟩
    rw [dropTable_atomic] at hfailed ⊢
    split
    · rfl
    · rename_i id hlookup
      rw [hlookup] at hfailed
      split_ifs at hfailed ⊢ with hentry hstorage
      · rfl
      · exact absurd ⟨Finmap.mem_of_lookup_eq_some hlookup, Bool.not_eq_false _ ▸ hentry,
          Bool.not_eq_true _ ▸ hstorage⟩ hleaves

/-! ## Runs -/

/-- A call, with the outcomes of its operations and the order in which the tables are gone through. -/
inductive DdlCall
  | createTable (order : List TableId) (data : ℕ) (o : Outcomes) (name : Bytes) (schema : TableSchema)
  | executeCreateTable (order : List TableId) (data : ℕ) (o : Outcomes) (plan : PhysicalCreateTable)
  | dropTable (order : List TableId) (data : ℕ) (o : Outcomes) (name : Bytes)

namespace DdlCall

/-- The database after the call, and whether the call reports success. -/
def run (call : DdlCall) (db : Database) : Database × Bool :=
  match call with
  | createTable order data o name schema => db.createTable (.atomic order data o) name schema
  | executeCreateTable order data o plan =>
    let (db, result) := CommandExecutor.executeCreateTable (.atomic order data o) db plan
    (db, result.success)
  | dropTable order data o name => db.dropTable (.atomic order data o) name

/-- The order is one of the tables, and a new table finds an id. -/
def Regular (call : DdlCall) (db : Database) : Prop :=
  match call with
  | createTable order _ _ name _ | executeCreateTable order _ _ ⟨name, _⟩ =>
    db.catalog.Lists order ∧ (name ∈ db.catalog.nameIndex ∨ db.catalog.IdsLeft)
  | dropTable _ _ _ _ => True

/-- The second of two steps that belong together fails, and nothing makes up for it. -/
def Leaves (call : DdlCall) (db : Database) : Prop :=
  match call with
  | createTable _ _ o name _ | executeCreateTable _ _ o ⟨name, _⟩ => db.CreateLeaves name o
  | dropTable _ _ o name => db.DropLeaves name o

/-- `CreateTable` of the database. -/
@[simp] theorem run_createTable : (createTable order data o name schema).run db =
    coordinateCreate (.atomic order data o) db name schema := rfl

/-- CREATE TABLE of the executor. -/
@[simp] theorem run_executeCreateTable : (executeCreateTable order data o ⟨name, schema⟩).run db =
    coordinateCreate (.atomic order data o) db name schema := rfl

/-- `DropTable` of the database. -/
@[simp] theorem run_dropTable : (dropTable order data o name).run db =
    db.dropTable (.atomic order data o) name := rfl

end DdlCall

/-- The databases that runs lead to whose calls leave nothing behind, from any in which catalog and storage agree;
queries open tables between. -/
inductive DdlReached : Database → Prop
  | start {db : Database} (h : db.Consistent) : DdlReached db
  | call {db : Database} (h : DdlReached db) (call : DdlCall) (hcall : call.Regular db)
      (hleaves : ¬ call.Leaves db) : DdlReached (call.run db).1
  | opens {db : Database} (h : DdlReached db) (id : TableId) (readable : Bool) :
      DdlReached ⟨db.catalog, (db.storage.getTable id readable).1⟩

/-- A new table finds an id. -/
theorem nextTableId_notMem_of_lists (h : db.catalog.Lists order ∧
    (name ∈ db.catalog.nameIndex ∨ db.catalog.IdsLeft)) :
    name ∉ db.catalog.nameIndex → Catalog.nextTableId order ∉ db.catalog.tables :=
  fun hname => Catalog.nextTableId_notMem h.1 (h.2.resolve_left hname)

/-- **A call keeps the database consistent**, unless it leaves something behind. -/
theorem consistent_run (h : db.Consistent) {call : DdlCall} (hcall : call.Regular db)
    (hleaves : ¬ call.Leaves db) : (call.run db).1.Consistent := by
  rcases call with ⟨order, data, o, name, schema⟩ | ⟨order, data, o, name, schema⟩ | ⟨order, data, o, name⟩
  · exact consistent_coordinateCreate h (nextTableId_notMem_of_lists hcall) hleaves
  · exact consistent_coordinateCreate h (nextTableId_notMem_of_lists hcall) hleaves
  · exact consistent_dropTable h hleaves

/-- Every database that is reached is consistent. -/
theorem DdlReached.consistent (h : DdlReached db) : db.Consistent := by
  induction h with
  | start h => exact h
  | call _ _ hcall hleaves ih => exact consistent_run ih hcall hleaves
  | opens _ id readable ih => exact ih.getTable id readable

/-- **DDL keeps catalog and storage in step.** In every database that calls lead to which leave nothing
behind, the tables that are listed are those that have a directory. A call from there keeps this, and
changes nothing when it fails, if and only if it leaves nothing behind. -/
theorem ddl_keeps_step (h : DdlReached db) :
    db.InStep ∧ ∀ call : DdlCall, call.Regular db →
      (db.Keeps (call.run db).1 (call.run db).2 ↔ ¬ call.Leaves db) := by
  refine ⟨h.consistent.inStep, fun call hcall => ?_⟩
  rcases call with ⟨order, data, o, name, schema⟩ | ⟨order, data, o, name, schema⟩ | ⟨order, data, o, name⟩
  · exact keeps_coordinateCreate_iff h.consistent (nextTableId_notMem_of_lists hcall)
  · exact keeps_coordinateCreate_iff h.consistent (nextTableId_notMem_of_lists hcall)
  · exact keeps_dropTable_iff h.consistent

/-! ## One table -/

/-- All operations succeed. -/
def allWell : Outcomes := ⟨true, true, true, true⟩

/-- The call that creates the table `t`. -/
def createT (o : Outcomes) : DdlCall := .createTable [] 0 o [116] ⟨[], none, []⟩

/-- The call is regular. -/
theorem regular_createT (o : Outcomes) : (createT o).Regular empty :=
  ⟨⟨List.nodup_nil, fun _ => iff_of_false List.not_mem_nil Finmap.notMem_empty⟩,
    .inr fun _ h => absurd h Finmap.notMem_empty⟩

/-- The database is reached. -/
theorem ddlReached_createT : DdlReached ((createT allWell).run empty).1 :=
  .call (.start consistent_empty) _ (regular_createT allWell) fun h => by cases h.2.2.1

/-- The call keeps the database consistent. -/
theorem ddl_keeps_step_createT :
    empty.Keeps ((createT allWell).run empty).1 ((createT allWell).run empty).2 :=
  ((ddl_keeps_step (.start consistent_empty)).2 (createT allWell) (regular_createT allWell)).mpr fun h => by cases h.2.2.1

/-- **Calls that leave something behind**: the table `t` is dropped and its directory is not renamed; it
is created, its storage fails, and the entry cannot be dropped. -/
theorem dropTable_leaves_directory :
    DdlReached ((createT allWell).run empty).1 ∧
      ((DdlCall.dropTable [0] 0 ⟨true, true, true, false⟩ [116]).run ((createT allWell).run empty).1).2 = false ∧
      ¬ ((DdlCall.dropTable [0] 0 ⟨true, true, true, false⟩ [116]).run
        ((createT allWell).run empty).1).1.InStep ∧
      ((createT ⟨true, false, false, true⟩).run empty).2 = false ∧
      ¬ ((createT ⟨true, false, false, true⟩).run empty).1.InStep := by
  refine ⟨ddlReached_createT, by decide, fun h => ?_, by decide, fun h => ?_⟩
  · exact absurd (h 0) (by decide)
  · exact absurd (h 0) (by decide)

end Database

end SimpleOlap
