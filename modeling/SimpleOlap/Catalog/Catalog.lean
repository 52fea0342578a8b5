import SimpleOlap.Storage.Metadata
import Mathlib.Data.Finmap

/-!
# The catalog

The logical metadata of all tables, and the file `catalog.meta` that keeps them.

* `TableCatalogEntry`, `CatalogMeta`: the records of the current and of the first format.
* `Catalog`, `loadMeta`, `saveMeta`: the two maps, read from a file and written to one. A hash table is
  gone through in an order that is a parameter.
* `codecs_roundTrip`, `loadMeta_saveMeta`: what was written is read back.

Source: `table_catalog_entry.h`, `catalog.h`, `catalog.cpp`. The root path is left out: a file is given
by its content.
-/

namespace SimpleOlap

open Lib

/-! ## Entries -/

/-- Source: `table_catalog_entry.h`. -/
structure TableCatalogEntry where
  tableId : TableId
  name : Bytes
  schema : TableSchema
  deriving DecidableEq, Repr

namespace TableCatalogEntry

/-- Source: `table_catalog_entry.h` TableCatalogEntry::Serialize. -/
def serialize (e : TableCatalogEntry) : Bytes :=
  writeString e.name ++ (writeUInt32 e.tableId ++ e.schema.serialize)

/-- Source: `table_catalog_entry.h` TableCatalogEntry::Deserialize. -/
def deserialize : Decoder TableCatalogEntry := do
  let name ← readString
  let tableId ← readUInt32
  let schema ← TableSchema.deserialize
  return ⟨tableId, name, schema⟩

/-- The older format, without keys. -/
def deserializeLegacy : Decoder TableCatalogEntry := do
  let name ← readString
  let tableId ← readUInt32
  let schema ← TableSchema.deserializeLegacy
  return ⟨tableId, name, schema⟩

/-- What a file can hold of an entry. -/
structure Fits (e : TableCatalogEntry) : Prop where
  tableId : Fits32 e.tableId
  name : Fits32 e.name.length
  schema : e.schema.Fits

/-- An entry is read back. -/
theorem decodes {e : TableCatalogEntry} (h : e.Fits) : Decodes deserialize e.serialize e := by
  refine Decodes.bind (decodes_readString h.name) ?_
  refine Decodes.bind (decodes_readUInt32 h.tableId) ?_
  rw [← List.append_nil e.schema.serialize]
  exact Decodes.bind (TableSchema.decodes h.schema) (Decodes.pure e)

/-- More bytes change no entry that was read. -/
theorem stable : Stable deserialize :=
  Stable.bind stable_readString fun _ => Stable.bind stable_readUInt32 fun _ =>
    Stable.bind TableSchema.stable fun _ => Stable.pure _

end TableCatalogEntry

/-- Assignment to a name in a map that is ordered by name. -/
def assignName (name : Bytes) (id : TableId) : List (Bytes × TableId) → List (Bytes × TableId)
  | [] => [(name, id)]
  | entry :: rest =>
    if name < entry.1 then (name, id) :: entry :: rest
    else if name = entry.1 then (name, id) :: rest
    else entry :: assignName name id rest

/-- The first format: an ordered map of names to ids. Source: `datastructs.h` CatalogMeta. -/
def readCatalogMeta : Decoder (List (Bytes × TableId)) := do
  let pairs ← readVector do
    let name ← readString
    let id ← readUInt32
    return (name, id)
  return pairs.foldl (fun names pair => assignName pair.1 pair.2 names) []

/-! ## The maps -/

/-- Source: `catalog.h`. -/
structure Catalog where
  nameIndex : Finmap fun _ : Bytes => TableId
  tables : Finmap fun _ : TableId => TableCatalogEntry
  deriving DecidableEq

namespace Catalog

/-- A catalog without tables. -/
def empty : Catalog := ⟨∅, ∅⟩

/-- One entry that was read. -/
def register (c : Catalog) (e : TableCatalogEntry) : Catalog :=
  ⟨c.nameIndex.insert e.name e.tableId, c.tables.insert e.tableId e⟩

/-- Source: `catalog.cpp` kCatalogMetaMagicV2. -/
def kCatalogMetaMagicV2 : ℕ := 0x324C4F43

/-- Source: `catalog.cpp` kCatalogMetaMagicV3. -/
def kCatalogMetaMagicV3 : ℕ := 0x334C4F43

/-- The formats of `catalog.meta`. -/
inductive MetaFormat
  | v1 | v2 | v3
  deriving DecidableEq, Repr

/-- The format that is guessed from the first word. -/
def metaFormat (buffer : Bytes) : MetaFormat :=
  if 4 ≤ buffer.length ∧ leNat (buffer.take 4) = kCatalogMetaMagicV3 then .v3
  else if 4 ≤ buffer.length ∧ leNat (buffer.take 4) = kCatalogMetaMagicV2 then .v2
  else .v1

/-- The entries are registered as they are read, up to the first that cannot be read. -/
def loadEntries (read : Decoder TableCatalogEntry) : ℕ → Bytes → Catalog → Catalog × Bool
  | 0, _, c => (c, true)
  | n + 1, buffer, c =>
    match read buffer with
    | none => (c, false)
    | some (e, rest) => loadEntries read n rest (c.register e)

/-- The entries behind the magic. -/
def loadCounted (read : Decoder TableCatalogEntry) (buffer : Bytes) : Catalog × Bool :=
  match readUInt32 (buffer.drop 4) with
  | none => (empty, false)
  | some (count, rest) => loadEntries read count rest empty

/-- The content of a file, and whether it could be read. Source: `catalog.cpp` LoadMeta. -/
def loadBuffer (buffer : Bytes) : Catalog × Bool :=
  match metaFormat buffer with
  | .v3 => loadCounted TableCatalogEntry.deserialize buffer
  | .v2 => loadCounted TableCatalogEntry.deserializeLegacy buffer
  | .v1 =>
    match readCatalogMeta buffer with
    | none => (empty, false)
    | some (names, _) =>
      (names.foldl (fun c entry => c.register ⟨entry.2, entry.1, ⟨[], none, []⟩⟩) empty, true)

/-- The catalog after the call, and its result; no file is `none`. Source: `catalog.cpp` LoadMeta. -/
def loadMeta (c : Catalog) (file : Option Bytes) : Catalog × Bool :=
  match file with
  | none => (c, false)
  | some buffer => loadBuffer buffer

/-- The bytes that are written, the tables being gone through in the given order. Source: `catalog.cpp`
SaveMeta. -/
def saveMeta (order : List (Σ _ : TableId, TableCatalogEntry)) : Bytes :=
  writeUInt32 kCatalogMetaMagicV3 ++
    writeVector (fun entry => TableCatalogEntry.serialize entry.2) order

/-- The two maps agree, and everything fits its field. -/
structure Agrees (c : Catalog) : Prop where
  ids : ∀ id e, c.tables.lookup id = some e → e.tableId = id
  names : ∀ name id, c.nameIndex.lookup name = some id ↔
    ∃ e, c.tables.lookup id = some e ∧ e.name = name

/-- All lengths fit their fields. -/
structure Fits (c : Catalog) : Prop where
  count : Fits32 c.tables.entries.card
  entries : ∀ id e, c.tables.lookup id = some e → e.Fits

/-! ## Loading what was saved -/

/-- A map that is filled from a list with distinct keys has the pairs of the list. -/
theorem lookup_foldl_insert {α κ ν : Type} [DecidableEq κ] (key : α → κ) (val : α → ν) {l : List α}
    (hl : (l.map key).Nodup) (k : κ) (v : ν) :
    (l.foldl (fun (m : Finmap fun _ : κ => ν) a => m.insert (key a) (val a)) ∅).lookup k = some v ↔
      ∃ a ∈ l, key a = k ∧ val a = v := by
  induction l using List.reverseRecOn with
  | nil => simp
  | append_singleton l a ih =>
    rw [List.map_append, List.nodup_append] at hl
    rw [List.foldl_append, List.foldl_cons, List.foldl_nil]
    by_cases hk : k = key a
    · subst hk
      rw [Finmap.lookup_insert, Option.some_inj]
      constructor
      · rintro rfl
        exact ⟨a, by simp, rfl, rfl⟩
      · rintro ⟨b, hb, hkey, rfl⟩
        rcases List.mem_append.mp hb with hb | hb
        · exact absurd hkey (hl.2.2 _ (List.mem_map_of_mem hb) _ (by simp))
        · rw [List.mem_singleton.mp hb]
    · rw [Finmap.lookup_insert_of_ne _ hk, ih hl.1]
      constructor
      · rintro ⟨b, hb, h⟩
        exact ⟨b, List.mem_append_left _ hb, h⟩
      · rintro ⟨b, hb, hkey, hval⟩
        rcases List.mem_append.mp hb with hb | hb
        · exact ⟨b, hb, hkey, hval⟩
        · rw [List.mem_singleton.mp hb] at hkey
          exact absurd hkey.symm hk

/-- Entries that were written are registered in order. -/
theorem loadEntries_serialize {entries : List TableCatalogEntry} (h : ∀ e ∈ entries, e.Fits)
    (t : Bytes) (c : Catalog) :
    loadEntries TableCatalogEntry.deserialize entries.length
      (entries.flatMap TableCatalogEntry.serialize ++ t) c = (entries.foldl register c, true) := by
  induction entries generalizing c with
  | nil => rfl
  | cons e entries ih =>
    rw [List.length_cons, loadEntries, List.flatMap_cons, List.append_assoc,
      TableCatalogEntry.decodes (h e List.mem_cons_self)]
    exact ih (fun e' he' => h e' (List.mem_cons_of_mem e he')) (c.register e)

/-- The two maps of a run of entries. -/
theorem foldl_register (entries : List TableCatalogEntry) (c : Catalog) :
    entries.foldl register c =
      ⟨entries.foldl (fun m e => m.insert e.name e.tableId) c.nameIndex,
        entries.foldl (fun m e => m.insert e.tableId e) c.tables⟩ := by
  induction entries generalizing c with
  | nil => rfl
  | cons e entries ih => exact ih (c.register e)

/-- A file that was saved is of the latest format. -/
theorem metaFormat_saveMeta (order : List (Σ _ : TableId, TableCatalogEntry)) :
    metaFormat (saveMeta order) = .v3 := by
  have hlen : (writeUInt32 kCatalogMetaMagicV3).length = 4 := length_leBytes 4 _
  have hword : leNat (writeUInt32 kCatalogMetaMagicV3) = kCatalogMetaMagicV3 :=
    leNat_leBytes (by decide)
  rw [metaFormat, if_pos]
  rw [saveMeta, List.length_append, hlen, List.take_append_of_le_length hlen.ge,
    List.take_of_length_le hlen.le]
  exact ⟨by omega, hword⟩

/-- The entries of a catalog whose maps agree, gone through in some order. -/
theorem Agrees.mem_entries {c : Catalog} (hagrees : c.Agrees)
    {order : List (Σ _ : TableId, TableCatalogEntry)} (horder : (order : Multiset _) = c.tables.entries)
    (e : TableCatalogEntry) :
    e ∈ order.map (fun entry => entry.2) ↔ c.tables.lookup e.tableId = some e := by
  have hmem : ∀ id e, ⟨id, e⟩ ∈ order ↔ c.tables.lookup id = some e := by
    intro id e
    rw [← Multiset.mem_coe, horder, Finmap.lookup_eq_some_iff]
  rw [List.mem_map]
  constructor
  · rintro ⟨entry, hentry, rfl⟩
    have hlookup := (hmem entry.1 entry.2).mp hentry
    rwa [hagrees.ids _ _ hlookup]
  · exact fun he => ⟨⟨e.tableId, e⟩, (hmem _ _).mpr he, rfl⟩

/-- No two of them have one id. -/
theorem Agrees.nodup_ids {c : Catalog} (hagrees : c.Agrees)
    {order : List (Σ _ : TableId, TableCatalogEntry)} (horder : (order : Multiset _) = c.tables.entries) :
    ((order.map fun entry => entry.2).map TableCatalogEntry.tableId).Nodup := by
  have hkeys := c.tables.nodupKeys
  rw [← horder] at hkeys
  have hnodup : (order.map Sigma.fst).Nodup := Multiset.coe_nodupKeys.mp hkeys
  have hid : ∀ entry ∈ order, entry.2.tableId = entry.1 := by
    intro entry hentry
    rw [← Multiset.mem_coe, horder] at hentry
    exact hagrees.ids _ _ (Finmap.lookup_eq_some_iff.mpr hentry)
  have hmap : (order.map fun entry => entry.2).map TableCatalogEntry.tableId = order.map Sigma.fst := by
    rw [List.map_map]
    exact List.map_congr_left hid
  rwa [hmap]

/-- No two of them have one name. -/
theorem Agrees.nodup_names {c : Catalog} (hagrees : c.Agrees)
    {order : List (Σ _ : TableId, TableCatalogEntry)} (horder : (order : Multiset _) = c.tables.entries) :
    ((order.map fun entry => entry.2).map TableCatalogEntry.name).Nodup := by
  have hmem := hagrees.mem_entries horder
  refine (List.nodup_map_iff_inj_on (hagrees.nodup_ids horder).of_map).mpr fun e he e' he' hname => ?_
  have h := (hagrees.names _ _).mpr ⟨e, (hmem e).mp he, rfl⟩
  have h' := (hagrees.names _ _).mpr ⟨e', (hmem e').mp he', hname.symm⟩
  have hsame : e.tableId = e'.tableId := Option.some_inj.mp (h.symm.trans h')
  have hlookup := (hmem e).mp he
  rw [hsame, (hmem e').mp he'] at hlookup
  exact (Option.some_inj.mp hlookup).symm

/-- **Loading what was saved restores the catalog.** -/
theorem loadMeta_saveMeta {c : Catalog} (hagrees : c.Agrees) (hfits : c.Fits)
    {order : List (Σ _ : TableId, TableCatalogEntry)} (horder : (order : Multiset _) = c.tables.entries)
    (before : Catalog) :
    before.loadMeta (some (saveMeta order)) = (c, true) := by
  have hlen : Fits32 order.length := by
    have := hfits.count
    rwa [← horder, Multiset.coe_card] at this
  -- the file holds the entries, in order
  set entries := order.map fun entry => entry.2 with hentries
  have hmemEntries := hagrees.mem_entries horder
  have hids := hagrees.nodup_ids horder
  have hnames := hagrees.nodup_names horder
  rw [← hentries] at hmemEntries hids hnames
  have hwords : saveMeta order = writeUInt32 kCatalogMetaMagicV3 ++
      (writeUInt32 entries.length ++ (entries.flatMap TableCatalogEntry.serialize ++ [])) := by
    rw [saveMeta, writeVector, hentries, List.length_map, List.flatMap_map, List.append_nil]
  have hmagic : (writeUInt32 kCatalogMetaMagicV3).length = 4 := length_leBytes 4 _
  have hload : before.loadMeta (some (saveMeta order)) = (entries.foldl register empty, true) := by
    rw [loadMeta, loadBuffer, metaFormat_saveMeta]
    show loadCounted _ _ = _
    rw [loadCounted, hwords, List.drop_append_of_le_length hmagic.ge,
      List.drop_of_length_le hmagic.le, List.nil_append,
      decodes_readUInt32 (by rwa [hentries, List.length_map])]
    exact loadEntries_serialize (fun e he => hfits.entries _ e ((hmemEntries e).mp he)) [] empty
  rw [hload, foldl_register]
  have htables : entries.foldl (fun m e => m.insert e.tableId e) empty.tables = c.tables := by
    apply Finmap.ext_lookup
    intro id
    apply Option.ext
    intro e
    refine (lookup_foldl_insert TableCatalogEntry.tableId (fun e => e) hids id e).trans ?_
    constructor
    · rintro ⟨e', he', rfl, rfl⟩
      exact (hmemEntries e').mp he'
    · intro he
      obtain rfl := hagrees.ids id e he
      exact ⟨e, (hmemEntries e).mpr he, rfl, rfl⟩
  have hindex : entries.foldl (fun m e => m.insert e.name e.tableId) empty.nameIndex =
      c.nameIndex := by
    apply Finmap.ext_lookup
    intro name
    apply Option.ext
    intro id
    refine (lookup_foldl_insert TableCatalogEntry.name TableCatalogEntry.tableId hnames name id).trans ?_
    rw [hagrees.names]
    constructor
    · rintro ⟨e, he, rfl, rfl⟩
      exact ⟨e, (hmemEntries e).mp he, rfl⟩
    · rintro ⟨e, he, rfl⟩
      obtain rfl := hagrees.ids id e he
      exact ⟨e, (hmemEntries e).mpr he, rfl, rfl⟩
  rw [htables, hindex]

/-- **The codecs round-trip.** What each record writes is read back, with anything behind it; and a
catalog whose maps agree is restored from its file, which is read as the current format. -/
theorem codecs_roundTrip :
    (∀ s : TableSchema, s.Fits → Decodes TableSchema.deserialize s.serialize s) ∧
    (∀ e : TableCatalogEntry, e.Fits → Decodes TableCatalogEntry.deserialize e.serialize e) ∧
    (∀ m : TableStorageMeta, m.Fits → Decodes TableStorageMeta.deserialize m.serialize m) ∧
    (∀ m : SegmentMeta, m.Fits → Decodes SegmentMeta.deserialize m.serialize m) ∧
    ∀ c : Catalog, c.Agrees → c.Fits →
      ∀ order : List (Σ _ : TableId, TableCatalogEntry), (order : Multiset _) = c.tables.entries →
        metaFormat (saveMeta order) = .v3 ∧
          ∀ before : Catalog, before.loadMeta (some (saveMeta order)) = (c, true) :=
  ⟨fun _ h => TableSchema.decodes h, fun _ h => TableCatalogEntry.decodes h,
    fun _ h => TableStorageMeta.decodes h, fun _ h => SegmentMeta.decodes h,
    fun _ hagrees hfits _ horder => ⟨metaFormat_saveMeta _, loadMeta_saveMeta hagrees hfits horder⟩⟩

/-- An entry without columns, under the name `t`. -/
def entryT : TableCatalogEntry := ⟨0, [116], ⟨[], none, []⟩⟩

/-- The catalog of that entry. -/
def catalogT : Catalog := empty.register entryT

/-- Its only entry. -/
theorem lookup_catalogT {id : TableId} {e : TableCatalogEntry} (h : catalogT.tables.lookup id = some e) :
    id = 0 ∧ e = entryT := by
  by_cases hid : id = 0
  · subst hid
    have hlookup : catalogT.tables.lookup 0 = some entryT := Finmap.lookup_insert _
    rw [hlookup, Option.some_inj] at h
    exact ⟨rfl, h.symm⟩
  · have hlookup : catalogT.tables.lookup id = none :=
      (Finmap.lookup_insert_of_ne _ hid).trans (Finmap.lookup_empty id)
    rw [hlookup] at h
    cases h

/-- It agrees. -/
theorem agrees_catalogT : catalogT.Agrees := by
  constructor
  · rintro id e he
    obtain ⟨rfl, rfl⟩ := lookup_catalogT he
    rfl
  · intro name id
    constructor
    · intro h
      by_cases hname : name = [116]
      · subst hname
        have hlookup : catalogT.nameIndex.lookup [116] = some 0 := Finmap.lookup_insert _
        rw [hlookup, Option.some_inj] at h
        exact ⟨entryT, h ▸ Finmap.lookup_insert _, rfl⟩
      · have hlookup : catalogT.nameIndex.lookup name = none :=
          (Finmap.lookup_insert_of_ne _ hname).trans (Finmap.lookup_empty name)
        rw [hlookup] at h
        cases h
    · rintro ⟨e, he, rfl⟩
      obtain ⟨rfl, rfl⟩ := lookup_catalogT he
      exact Finmap.lookup_insert _

/-- Its file can hold it. -/
theorem fits_catalogT : catalogT.Fits := by
  constructor
  · decide
  · rintro id e he
    obtain ⟨rfl, rfl⟩ := lookup_catalogT he
    exact ⟨by decide, by decide, ⟨by decide, by simp [entryT], by simp [entryT], by decide,
      by simp [entryT]⟩⟩

/-- The catalog is read back from its file. -/
theorem codecs_roundTrip_oneEntry :
    empty.loadMeta (some (saveMeta [⟨0, entryT⟩])) = (catalogT, true) :=
  (codecs_roundTrip.2.2.2.2 catalogT agrees_catalogT fits_catalogT [⟨0, entryT⟩] rfl).2 empty

end Catalog

end SimpleOlap
