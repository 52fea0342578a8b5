import SimpleOlap.Catalog.Changes
import SimpleOlap.Storage.Table.Reopen

/-!
# Saving metadata in place

`catalog.meta` and `table.meta` are emptied and then written anew. A save that is cut short leaves neither
the file before nor the file after.

* `Catalog.Filed`: a catalog with its file and the catalog that was last saved; `Filed.readsBack_iff`: what a
  save leaves of the file is read back if and only if the write is not cut short.
* `Tracked.LastSaved`, `Tracked.readsBack_iff`: the same of a table and its flushes.
* `metadata_saves_iff`: both, over whole runs.
-/

namespace SimpleOlap

open Lib

/-! ## A file that is cut short -/

namespace Catalog

variable {c : Catalog}

/-- Entries that were written and cut off are not all read. -/
theorem loadEntries_take_fails {entries : List TableCatalogEntry} (h : ∀ e ∈ entries, e.Fits) {n : ℕ}
    (hn : n < (entries.flatMap TableCatalogEntry.serialize).length) (c : Catalog) :
    (loadEntries TableCatalogEntry.deserialize entries.length
      ((entries.flatMap TableCatalogEntry.serialize).take n) c).2 = false := by
  induction entries generalizing n c with
  | nil => exact absurd hn (Nat.not_lt_zero n)
  | cons e entries ih =>
    have he := TableCatalogEntry.decodes (h e List.mem_cons_self)
    rw [List.length_cons, loadEntries, List.flatMap_cons]
    by_cases hfirst : n < e.serialize.length
    · rw [List.take_append_of_le_length hfirst.le, he.take_eq_none TableCatalogEntry.stable hfirst]
    · rw [List.take_append, List.take_of_length_le (Nat.le_of_not_lt hfirst), he]
      rw [List.flatMap_cons, List.length_append] at hn
      exact ih (fun e' he' => h e' (List.mem_cons_of_mem e he')) (by omega) (c.register e)

/-- **A file that is cut short is not loaded.** -/
theorem loadBuffer_take_fails (hagrees : c.Agrees) (hfits : c.Fits)
    {order : List (Σ _ : TableId, TableCatalogEntry)} (horder : (order : Multiset _) = c.tables.entries)
    {n : ℕ} (hn : n < (saveMeta order).length) : (loadBuffer ((saveMeta order).take n)).2 = false := by
  set entries := order.map fun entry => entry.2 with hentries
  have hmem := hagrees.mem_entries horder
  rw [← hentries] at hmem
  have hwords : (order.flatMap fun entry => TableCatalogEntry.serialize entry.2) =
      entries.flatMap TableCatalogEntry.serialize := by rw [hentries, List.flatMap_map]
  have hlen : entries.length = order.length := by rw [hentries, List.length_map]
  rw [loadBuffer_take (hfits.fits_length horder), hwords, ← hlen]
  split_ifs with hshort
  · rfl
  · refine loadEntries_take_fails (fun e he => hfits.entries _ e ((hmem e).mp he)) ?_ empty
    have htotal : (saveMeta order).length = 8 + (entries.flatMap TableCatalogEntry.serialize).length := by
      rw [saveMeta, writeVector, hwords, List.length_append, List.length_append]
      simp only [writeUInt32, length_leBytes]
      omega
    omega

/-! ## The catalog and its file -/

/-- A call that changes the catalog. -/
inductive Change
  | create (order : List TableId) (name : Bytes) (schema : TableSchema)
  | drop (name : Bytes)

namespace Change

/-- The call, with the result of its SaveMeta. -/
def call (change : Change) (saved : Bool) : Call :=
  match change with
  | create order name schema => .create order name schema saved
  | drop name => .drop name saved

/-- The catalog that the call saves, where it gets that far: no table of the name is there to be created, or
one is there to be dropped. -/
def saving (change : Change) (c : Catalog) : Option Catalog :=
  match change with
  | create order name schema =>
    if name ∈ c.nameIndex then none else some (c.register ⟨nextTableId order, name, schema⟩)
  | drop name =>
    match c.nameIndex.lookup name with
    | none => none
    | some id => some ⟨c.nameIndex.erase name, c.tables.erase id⟩

/-- What is saved is the catalog after a call whose save succeeds. -/
theorem run_of_saving {change : Change} {target : Catalog} (h : change.saving c = some target) :
    (change.call true).run c = (target, true) := by
  cases change with
  | create order name schema =>
    rw [saving] at h
    split_ifs at h with hname
    cases h
    rw [call, Call.run_create, createTable, if_neg hname]
    rfl
  | drop name =>
    rw [saving] at h
    rw [call, Call.run_drop, dropTable]
    rcases hlookup : c.nameIndex.lookup name with _ | id
    · rw [hlookup] at h
      cases h
    · rw [hlookup] at h
      cases h
      rfl

theorem agrees_run (hagrees : c.Agrees) {change : Change} {saved : Bool}
    (hregular : (change.call saved).Regular c) : ((change.call saved).run c).1.Agrees := by
  refine hagrees.run hregular fun loaded hloaded => ?_
  cases change <;> cases hloaded

end Change

/-- A catalog in memory, its file, and the catalog whose save last succeeded. -/
structure Filed where
  catalog : Catalog
  file : Option Bytes
  saved : Catalog

namespace Filed

/-- The file is read as the catalog, whatever was in memory. -/
def Reads (file : Option Bytes) (c : Catalog) : Prop := ∀ before : Catalog, before.loadMeta file = (c, true)

/-- A save: the catalog that it saves, the order in which the tables are written, and how the write ends. -/
structure Save (change : Change) (c : Catalog) (target : Catalog)
    (order : List (Σ _ : TableId, TableCatalogEntry)) : Prop where
  regular : (change.call true).Regular c
  saving : change.saving c = some target
  order : (order : Multiset _) = target.tables.entries
  fits : target.Fits

/-- The state after a change. -/
def after (s : Filed) (change : Change) (target : Catalog) (order : List (Σ _ : TableId, TableCatalogEntry))
    (o : WriteOutcome) : Filed where
  catalog := ((change.call o.ok).run s.catalog).1
  file := o.apply s.file (saveMeta order)
  saved := if o.ok then target else s.saved

/-- The states that changes lead to from a catalog that was loaded or created, while every save does what it
reports. -/
inductive Reached : Filed → Prop
  | start {c : Catalog} {file : Option Bytes} (hagrees : c.Agrees) (hreads : Reads file c) :
      Reached ⟨c, file, c⟩
  | change {s : Filed} (h : Reached s) {change : Change} {target : Catalog}
      {order : List (Σ _ : TableId, TableCatalogEntry)} (hsave : Save change s.catalog target order)
      {o : WriteOutcome} (hsettles : o.Settles (saveMeta order)) : Reached (s.after change target order o)

variable {s : Filed} {change : Change} {target : Catalog} {order : List (Σ _ : TableId, TableCatalogEntry)}

theorem Save.agrees (h : Save change c target order) (hagrees : c.Agrees) : target.Agrees := by
  have hrun := Change.agrees_run hagrees h.regular
  rwa [Change.run_of_saving h.saving] at hrun

theorem Save.reads (h : Save change c target order) (hagrees : c.Agrees) : Reads (some (saveMeta order)) target :=
  loadMeta_saveMeta (h.agrees hagrees) h.fits h.order

/-- **The file holds the catalog that was last saved.** -/
theorem Reached.inv (h : Reached s) : s.catalog.Agrees ∧ Reads s.file s.saved := by
  induction h with
  | start hagrees hreads => exact ⟨hagrees, hreads⟩
  | @change s hs change target order hsave o hsettles ih =>
    have hregular : (change.call o.ok).Regular s.catalog := by
      have hregular := hsave.regular
      cases change <;> exact hregular
    refine ⟨Change.agrees_run ih.1 hregular, ?_⟩
    show Reads (o.apply s.file (saveMeta order)) (if o.ok then target else s.saved)
    rw [WriteOutcome.apply_of_settles hsettles]
    split_ifs
    · exact hsave.reads ih.1
    · exact ih.2

/-- What is left of the file is read as the catalog that was last saved, or as the one being saved. -/
def ReadsBack (file : Option Bytes) (saved saving : Catalog) : Prop :=
  ∃ c, Reads file c ∧ (c = saved ∨ c = saving)

/-- **What a save leaves is read back if and only if the write is not cut short.** -/
theorem readsBack_iff (h : Reached s) (hsave : Save change s.catalog target order) (o : WriteOutcome) :
    ReadsBack (s.after change target order o).file s.saved target ↔ ¬ o.Tears (saveMeta order) := by
  obtain ⟨hagrees, hreads⟩ := h.inv
  constructor
  · rintro ⟨c, hc, -⟩ htears
    obtain ⟨n, hn, heq⟩ := WriteOutcome.apply_of_tears htears s.file
    have hload := hc empty
    rw [after, heq] at hload
    have hfails := loadBuffer_take_fails (hsave.agrees hagrees) hsave.fits hsave.order hn
    rw [loadMeta, Prod.ext_iff] at hload
    rw [hload.2] at hfails
    cases hfails
  · intro htears
    show ReadsBack (o.apply s.file (saveMeta order)) s.saved target
    rcases WriteOutcome.apply_of_not_tears htears s.file with heq | heq
    · rw [heq]
      exact ⟨s.saved, hreads, .inl rfl⟩
    · rw [heq]
      exact ⟨target, hsave.reads hagrees, .inr rfl⟩

end Filed

end Catalog

/-! ## A table and its file -/

namespace Tracked

variable {tableId : TableId} {schema : TableSchema} {s s' : Tracked} {saved : TableStorageMeta}

/-- The runs of a table, with the metadata whose save last succeeded, while every save does what it
reports. -/
inductive LastSaved (tableId : TableId) (schema : TableSchema) : Tracked → TableStorageMeta → Prop
  | start {s : Tracked} (h : Start tableId schema s) (hclean : s.system.Clean schema)
      (hreads : s.system.disk.readMeta = some s.system.table.metadata) :
      LastSaved tableId schema s s.system.table.metadata
  | append {s s' : Tracked} {saved : TableStorageMeta} (h : LastSaved tableId schema s saved)
      {input : DataChunk} (hst : Step schema s (.append input) s') : LastSaved tableId schema s' saved
  | flush {s : Tracked} {saved : TableStorageMeta} (h : LastSaved tableId schema s saved) {io : FlushIO}
      (hio : io.Visits s.system.table) (hnext : s.system.table.sealPending.nextSegmentId < 2 ^ 32)
      (hsettles : io.tableMeta.Settles (s.system.table.flushedMeta io).serialize) :
      LastSaved tableId schema ⟨s.flushed io, s.accepted⟩
        (if io.tableMeta.ok then s.system.table.flushedMeta io else saved)

/-- An append does not touch the metadata. -/
theorem metadata_append (h : s.system.table.Shape) {input : DataChunk}
    (hf : input.Fits s.system.table.schema) :
    (s.system.table.append input).1.metadata = s.system.table.metadata := by
  rcases s.system.table.append_eq input with heq | ⟨index, heq⟩
  · rw [heq]
  · rw [heq]
    exact (h.appendLoop hf []).same.metadata

/-- What holds of the file: it says what was last saved, of this table and of segments that it lists. -/
structure Filed (tableId : TableId) (s : Tracked) (saved : TableStorageMeta) : Prop where
  reads : s.system.disk.readMeta = some saved
  tableId : saved.tableId = tableId
  listed : ∀ id ∈ saved.segmentIds, id ∈ s.system.table.metadata.segmentIds

theorem LastSaved.inv (hs : schema.Bound) (htable : Fits32 tableId) (h : LastSaved tableId schema s saved) :
    Indexed tableId schema s ∧ Filed tableId s saved := by
  induction h with
  | start h hclean hreads =>
    obtain ⟨hindexed, hreadable⟩ := h.indexed hs.toKeysBound htable hclean
    obtain ⟨stored, hcons, -⟩ := id hindexed
    exact ⟨⟨hindexed, hreadable⟩, ⟨hreads, hcons.tableId_eq, fun _ hid => hid⟩⟩
  | @append s s' saved _ input hst ih =>
    obtain ⟨hindexed, hfiled⟩ := ih
    obtain ⟨⟨stored, hcons, -⟩, -⟩ := id hindexed
    refine ⟨hindexed.step hs hst, ?_⟩
    cases hst with
    | @accepted _ t hf hok | @rejected _ t e hf hok =>
      have hmetadata := metadata_append hcons.shape (hcons.schema_eq.symm ▸ hf)
      rw [hok] at hmetadata
      exact ⟨hfiled.reads, hfiled.tableId, fun id hid => hmetadata ▸ hfiled.listed id hid⟩
  | @flush s saved _ io hio hnext hsettles ih =>
    obtain ⟨hindexed, hfiled⟩ := ih
    obtain ⟨⟨stored, hcons, -⟩, -⟩ := id hindexed
    have hfits := hcons.fits_flushedMeta htable hio hnext
    have hdisk := TableStorage.flush_tableMeta s.system.table s.system.disk io
    have hmetadata : (s.flushed io).table.metadata = s.system.table.flushedMeta io :=
      TableStorage.flush_metadata _ _ _
    rw [WriteOutcome.apply_of_settles hsettles] at hdisk
    refine ⟨hindexed.step hs (.flush hio), ?_⟩
    by_cases hok : io.tableMeta.ok = true
    · rw [if_pos hok] at hdisk ⊢
      refine ⟨Disk.readMeta_of_eq hfits hdisk, hcons.tableId_eq, fun id hid => ?_⟩
      rw [hmetadata]
      exact hid
    · rw [if_neg hok] at hdisk ⊢
      refine ⟨?_, hfiled.tableId, fun id hid => ?_⟩
      · show (s.flushed io).disk.tableMeta.bind _ = some saved
        rw [show (s.flushed io).disk.tableMeta = s.system.disk.tableMeta from hdisk]
        exact hfiled.reads
      · rw [hmetadata]
        exact List.mem_append_left _ (hfiled.listed id hid)

/-- The table opens with the metadata that were last saved, or with those being saved. -/
def ReadsBack (tableId : TableId) (schema : TableSchema) (disk : Disk) (saved saving : TableStorageMeta) : Prop :=
  ∃ t, TableStorage.openTable tableId schema disk = .ok (some t) ∧ (t.metadata = saved ∨ t.metadata = saving)

/-- **What a flush leaves is read back if and only if the write of `table.meta` is not cut short.** -/
theorem readsBack_iff (hs : schema.Bound) (htable : Fits32 tableId) (h : LastSaved tableId schema s saved)
    {io : FlushIO} (hio : io.Visits s.system.table)
    (hnext : s.system.table.sealPending.nextSegmentId < 2 ^ 32) :
    ReadsBack tableId schema (s.flushed io).disk saved (s.system.table.flushedMeta io) ↔
      ¬ io.tableMeta.Tears (s.system.table.flushedMeta io).serialize := by
  obtain ⟨⟨⟨stored, hcons, -⟩, hreadable⟩, hfiled⟩ := h.inv hs htable
  have hfits := hcons.fits_flushedMeta htable hio hnext
  have hdisk := TableStorage.flush_tableMeta s.system.table s.system.disk io
  constructor
  · rintro ⟨t, hopen, -⟩ htears
    obtain ⟨metadata, hread, -, -⟩ := TableStorage.openTable_iff.mp hopen
    have hnone : (s.flushed io).disk.readMeta = none := Disk.readMeta_of_tears hfits htears hdisk
    rw [hnone] at hread
    cases hread
  · intro htears
    have hlisted : ∀ metadata : TableStorageMeta,
        (∀ id ∈ metadata.segmentIds, id ∈ (s.system.table.flushedMeta io).segmentIds) →
        ∃ t, TableStorage.construct schema metadata (s.flushed io).disk = .ok t := by
      intro metadata hsub
      have hopens := hcons.readable_flush hs hreadable hio
      refine TableStorage.construct_of_readable hs.inSchema (hopens.imp_right fun hall id hid => hall id ?_ ?_)
      · have hmem := hsub id hid
        rwa [← TableStorage.flush_metadata s.system.table s.system.disk io] at hmem
      · exact hfits.segmentIds id (hsub id hid)
    rcases Disk.readMeta_of_not_tears hfits htears hdisk with hold | hnew
    · obtain ⟨t, ht⟩ := hlisted saved fun id hid => List.mem_append_left _ (hfiled.listed id hid)
      exact ⟨t, TableStorage.openTable_iff.mpr ⟨saved, hold.trans hfiled.reads, hfiled.tableId, ht⟩,
        .inl (TableStorage.metadata_of_construct ht)⟩
    · obtain ⟨t, ht⟩ := hlisted _ fun id hid => hid
      exact ⟨t, TableStorage.openTable_iff.mpr ⟨_, hnew, hcons.tableId_eq, ht⟩,
        .inr (TableStorage.metadata_of_construct ht)⟩

end Tracked

/-! ## Both -/

/-- **A save keeps the durable metadata if and only if its write is not cut short.** In every run of a
catalog, and in every run of a table, whose saves so far have done what they report: what the next save
leaves of the file is read back as what was last saved or as what is being saved exactly when the write of the
file is not cut short. The write of the catalog ends as `o` says, the flush of the table as `io` does. -/
theorem metadata_saves_iff (o : WriteOutcome) (io : FlushIO) :
    (∀ (s : Catalog.Filed), s.Reached → ∀ (change : Catalog.Change) (target : Catalog)
      (order : List (Σ _ : TableId, TableCatalogEntry)), Catalog.Filed.Save change s.catalog target order →
        (Catalog.Filed.ReadsBack (s.after change target order o).file s.saved target ↔
          ¬ o.Tears (Catalog.saveMeta order))) ∧
    ∀ (tableId : TableId) (schema : TableSchema), schema.Bound → Fits32 tableId →
      ∀ (s : Tracked) (saved : TableStorageMeta), Tracked.LastSaved tableId schema s saved →
        io.Visits s.system.table → s.system.table.sealPending.nextSegmentId < 2 ^ 32 →
        (Tracked.ReadsBack tableId schema (s.flushed io).disk saved (s.system.table.flushedMeta io) ↔
          ¬ io.tableMeta.Tears (s.system.table.flushedMeta io).serialize) :=
  ⟨fun _ h _ _ _ hsave => Catalog.Filed.readsBack_iff h hsave o,
    fun _ _ hs htable _ _ h hio hnext => Tracked.readsBack_iff hs htable h hio hnext⟩

/-! ## One table, and a second one -/

namespace Catalog

theorem Fits.register {c : Catalog} (h : c.Fits) {e : TableCatalogEntry} (he : e.Fits)
    (hcount : Fits32 (c.register e).tables.entries.card) : (c.register e).Fits := by
  refine ⟨hcount, fun id e' he' => ?_⟩
  by_cases hid : id = e.tableId
  · subst hid
    rw [Catalog.register, Finmap.lookup_insert, Option.some_inj] at he'
    exact he' ▸ he
  · rw [Catalog.register, Finmap.lookup_insert_of_ne _ hid] at he'
    exact h.entries id e' he'

/-- The call that creates the table `u` beside the table `t`. -/
def createU : Change := .create [0] [117] ⟨[], none, []⟩

/-- Its entry. -/
def entryU : TableCatalogEntry := ⟨1, [117], ⟨[], none, []⟩⟩

/-- The catalog of the table `t`, as it was saved. -/
def filedT : Filed := ⟨catalogT, some (saveMeta [⟨0, entryT⟩]), catalogT⟩

theorem reached_filedT : filedT.Reached :=
  .start agrees_catalogT (loadMeta_saveMeta agrees_catalogT fits_catalogT rfl)

theorem save_createU :
    Filed.Save createU filedT.catalog (catalogT.register entryU) [⟨1, entryU⟩, ⟨0, entryT⟩] where
  regular := by
    refine ⟨⟨List.nodup_singleton 0, fun id => ?_⟩, .inr idsLeft_catalogT⟩
    show id ∈ [0] ↔ id ∈ catalogT.tables
    rw [List.mem_singleton, catalogT, Catalog.register, Finmap.mem_insert]
    exact (or_iff_left Finmap.notMem_empty).symm
  saving := by decide
  order := rfl
  fits := by
    have hentry : entryU.Fits := ⟨by decide, by decide, ⟨by decide, by simp [entryU], by simp [entryU], by decide,
      by simp [entryU]⟩⟩
    exact fits_catalogT.register hentry (by decide)

end Catalog

/-- The file of the catalog cannot be opened when the table `u` is created; the first row of a table is
flushed and all is written. -/
theorem metadata_saves_iff_created :
    Catalog.Filed.ReadsBack (some (Catalog.saveMeta [⟨0, Catalog.entryT⟩])) Catalog.catalogT
        (Catalog.catalogT.register Catalog.entryU) ∧
      Tracked.ReadsBack 0 keyedSchema (Tracked.oneRow.flushed savedFlush).disk ⟨0, []⟩
        (Tracked.oneRow.system.table.flushedMeta savedFlush) := by
  have hrun : Tracked.LastSaved 0 keyedSchema Tracked.oneRow ⟨0, []⟩ :=
    .append (.start (Tracked.start_fresh 0 keyedSchema) (System.clean_fresh 0 keyedSchema) rfl)
      Tracked.step_oneRow
  have hboth := metadata_saves_iff .notOpened savedFlush
  exact ⟨(hboth.1 _ Catalog.reached_filedT _ _ _ Catalog.save_createU).mpr not_false,
    (hboth.2 0 keyedSchema keyedSchema_bound (Nat.two_pow_pos 32) _ _ hrun
      Tracked.savedFlush_visits Tracked.oneRow_next.2).mpr not_false⟩

/-- **A save that is cut short loses the table that was saved before**: the file is opened for the table `u`,
and nothing is written. -/
theorem createU_stopped_loses :
    Catalog.filedT.Reached ∧
      Catalog.Filed.Save Catalog.createU Catalog.filedT.catalog (Catalog.catalogT.register Catalog.entryU)
        [⟨1, Catalog.entryU⟩, ⟨0, Catalog.entryT⟩] ∧
      ((Catalog.createU.call (WriteOutcome.stopped 0).ok).run Catalog.catalogT).2 = false ∧
      ¬ Catalog.Filed.ReadsBack ((WriteOutcome.stopped 0).apply Catalog.filedT.file
        (Catalog.saveMeta [⟨1, Catalog.entryU⟩, ⟨0, Catalog.entryT⟩])) Catalog.catalogT
        (Catalog.catalogT.register Catalog.entryU) := by
  refine ⟨Catalog.reached_filedT, Catalog.save_createU, by decide, ?_⟩
  rintro ⟨c, hreads, -⟩
  have hload := congrArg Prod.snd (hreads Catalog.empty)
  have hshort : (Catalog.empty.loadMeta (some [])).2 = false := by decide
  rw [WriteOutcome.apply_stopped, List.take_zero, hshort] at hload
  cases hload

end SimpleOlap
