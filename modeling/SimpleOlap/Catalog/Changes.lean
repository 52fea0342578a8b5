import SimpleOlap.Catalog.Catalog
import SimpleOlap.Lib.Transition

/-!
# Changing the catalog

`CreateTable`, `DropTable` and `LoadMeta` on the two maps, with any outcome of the write that saves them.

* `Catalog.nextTableId`, `createTable`, `dropTable`: the operations; a hash table is gone through in an
  order that is a parameter.
* `Agrees.register`, `Agrees.erase`, `agrees_loadBuffer_take`: what each operation does to the agreement
  of the maps.
* `catalog_agrees_and_keeps`: in every state that is reached the maps agree, and a call that reports
  failure leaves them alone, unless it is a drop whose save fails or a load of a file that is cut off.

Source: `catalog.cpp`.
-/

namespace SimpleOlap

open Lib

namespace Catalog

/-! ## The operations -/

/-- A hash table of the catalog's tables, in the order it is gone through. -/
def Lists (c : Catalog) (order : List TableId) : Prop :=
  order.Nodup ∧ ∀ id, id ∈ order ↔ id ∈ c.tables

/-- One above the greatest id, in 32 bits. Source: `catalog.cpp` NextTableId. -/
def nextTableId (order : List TableId) : TableId :=
  order.foldl (fun next id => if next ≤ id then (id + 1) % 2 ^ 32 else next) 0

/-- The catalog after the call, and its result; `saved` is the result of SaveMeta. Source: `catalog.cpp`
CreateTable. -/
def createTable (c : Catalog) (order : List TableId) (name : Bytes) (schema : TableSchema)
    (saved : Bool) : Catalog × Bool :=
  if name ∈ c.nameIndex then (c, false)
  else
    let c' := c.register ⟨nextTableId order, name, schema⟩
    if saved then (c', true)
    else
      let rolledBackId := (c'.nameIndex.lookup name).getD 0
      (⟨c'.nameIndex.erase name, c'.tables.erase rolledBackId⟩, false)

/-- The catalog after the call, and its result; `saved` is the result of SaveMeta. Source: `catalog.cpp`
DropTable. -/
def dropTable (c : Catalog) (name : Bytes) (saved : Bool) : Catalog × Bool :=
  match c.nameIndex.lookup name with
  | none => (c, false)
  | some id => (⟨c.nameIndex.erase name, c.tables.erase id⟩, saved)

/-! ## Fresh ids -/

/-- No id is the last of its type. -/
def IdsLeft (c : Catalog) : Prop := ∀ id ∈ c.tables, id + 1 < 2 ^ 32

/-- The next id is behind all listed ones, as long as none wraps. -/
theorem foldl_nextTableId {order : List TableId} (h : ∀ id ∈ order, id + 1 < 2 ^ 32) (next : TableId) :
    let last := order.foldl (fun next id => if next ≤ id then (id + 1) % 2 ^ 32 else next) next
    next ≤ last ∧ (∀ id ∈ order, id < last) ∧ (last = next ∨ ∃ id ∈ order, last = id + 1) := by
  induction order generalizing next with
  | nil => simp
  | cons id order ih =>
    have hid : (id + 1) % 2 ^ 32 = id + 1 := Nat.mod_eq_of_lt (h id List.mem_cons_self)
    rw [List.foldl_cons, hid]
    obtain ⟨hle, hlt, hlast⟩ :=
      ih (fun id' h' => h id' (List.mem_cons_of_mem id h')) (if next ≤ id then id + 1 else next)
    have hstep : next ≤ (if next ≤ id then id + 1 else next) ∧
        id < (if next ≤ id then id + 1 else next) := by
      split_ifs with hle'
      · exact ⟨Nat.le_succ_of_le hle', Nat.lt_succ_self id⟩
      · exact ⟨le_rfl, Nat.lt_of_not_le hle'⟩
    refine ⟨hstep.1.trans hle, ?_, ?_⟩
    · intro id' hid'
      rcases List.mem_cons.mp hid' with rfl | hid'
      · exact lt_of_lt_of_le hstep.2 hle
      · exact hlt id' hid'
    · rcases hlast with hlast | ⟨id', hid', hlast⟩
      · by_cases hle' : next ≤ id
        · rw [if_pos hle'] at hlast
          exact .inr ⟨id, List.mem_cons_self, by rwa [if_pos hle']⟩
        · rw [if_neg hle'] at hlast
          exact .inl (by rwa [if_neg hle'])
      · exact .inr ⟨id', List.mem_cons_of_mem id hid', hlast⟩

variable {c : Catalog}

/-- **The next id is above all ids in use.** -/
theorem lt_nextTableId {order : List TableId} (horder : c.Lists order) (hleft : c.IdsLeft) :
    ∀ id ∈ c.tables, id < nextTableId order := by
  have h := (foldl_nextTableId (fun id hid => hleft id ((horder.2 id).mp hid)) 0).2.1
  exact fun id hid => h id ((horder.2 id).mpr hid)

/-- **The next id is right above one in use**, or the first of all. -/
theorem nextTableId_eq {order : List TableId} (horder : c.Lists order) (hleft : c.IdsLeft) :
    nextTableId order = 0 ∨ ∃ id ∈ c.tables, nextTableId order = id + 1 := by
  have h := (foldl_nextTableId (fun id hid => hleft id ((horder.2 id).mp hid)) 0).2.2
  exact h.imp id fun ⟨id, hid, hnext⟩ => ⟨id, (horder.2 id).mp hid, hnext⟩

/-- The next id is a new one. -/
theorem nextTableId_notMem {order : List TableId} (horder : c.Lists order) (hleft : c.IdsLeft) :
    nextTableId order ∉ c.tables :=
  fun h => lt_irrefl _ (lt_nextTableId horder hleft _ h)

/-! ## The agreement of the maps -/

/-- The empty catalog agrees. -/
theorem agrees_empty : empty.Agrees := by
  constructor
  · intro id e h
    rw [empty, Finmap.lookup_empty] at h
    cases h
  · intro name id
    simp [empty]

/-- A new name with a new id. -/
theorem Agrees.register (h : c.Agrees) {e : TableCatalogEntry} (hname : e.name ∉ c.nameIndex)
    (hid : e.tableId ∉ c.tables) : (c.register e).Agrees := by
  have hnone : c.tables.lookup e.tableId = none := Finmap.lookup_eq_none.mpr hid
  constructor
  · intro id e' he'
    by_cases hk : id = e.tableId
    · subst hk
      rw [Catalog.register, Finmap.lookup_insert, Option.some_inj] at he'
      rw [← he']
    · rw [Catalog.register, Finmap.lookup_insert_of_ne _ hk] at he'
      exact h.ids id e' he'
  · intro name id
    simp only [Catalog.register]
    by_cases hn : name = e.name
    · subst hn
      rw [Finmap.lookup_insert, Option.some_inj]
      constructor
      · rintro rfl
        exact ⟨e, Finmap.lookup_insert _, rfl⟩
      · rintro ⟨e', he', hname'⟩
        by_contra hne
        rw [Finmap.lookup_insert_of_ne _ (Ne.symm hne)] at he'
        have hlookup := (h.names e.name id).mpr ⟨e', he', hname'⟩
        exact hname (Finmap.mem_of_lookup_eq_some hlookup)
    · rw [Finmap.lookup_insert_of_ne _ hn, h.names]
      constructor
      · rintro ⟨e', he', rfl⟩
        have hne : id ≠ e.tableId := by
          rintro rfl
          rw [hnone] at he'
          cases he'
        exact ⟨e', by rwa [Finmap.lookup_insert_of_ne _ hne], rfl⟩
      · rintro ⟨e', he', rfl⟩
        by_cases hk : id = e.tableId
        · subst hk
          rw [Finmap.lookup_insert, Option.some_inj] at he'
          exact absurd (congrArg TableCatalogEntry.name he').symm hn
        · rw [Finmap.lookup_insert_of_ne _ hk] at he'
          exact ⟨e', he', rfl⟩

/-- A name taken out with its id. -/
theorem Agrees.erase (h : c.Agrees) {name : Bytes} {id : TableId}
    (hid : c.nameIndex.lookup name = some id) :
    Agrees ⟨c.nameIndex.erase name, c.tables.erase id⟩ := by
  obtain ⟨e, he, hename⟩ := (h.names name id).mp hid
  constructor
  · intro id' e' he'
    by_cases hk : id' = id
    · subst hk
      rw [Finmap.lookup_erase] at he'
      cases he'
    · rw [Finmap.lookup_erase_ne hk] at he'
      exact h.ids id' e' he'
  · intro name' id'
    simp only
    by_cases hn : name' = name
    · subst hn
      rw [Finmap.lookup_erase]
      constructor
      · intro hnone
        cases hnone
      · rintro ⟨e', he', rfl⟩
        by_cases hk : id' = id
        · subst hk
          rw [Finmap.lookup_erase] at he'
          cases he'
        · rw [Finmap.lookup_erase_ne hk] at he'
          have hlookup := (h.names e'.name id').mpr ⟨e', he', rfl⟩
          rw [hid, Option.some_inj] at hlookup
          exact absurd hlookup.symm hk
    · rw [Finmap.lookup_erase_ne hn, h.names]
      constructor
      · rintro ⟨e', he', rfl⟩
        have hk : id' ≠ id := by
          rintro rfl
          rw [he, Option.some_inj] at he'
          exact hn (he' ▸ hename)
        exact ⟨e', by rwa [Finmap.lookup_erase_ne hk], rfl⟩
      · rintro ⟨e', he', rfl⟩
        by_cases hk : id' = id
        · subst hk
          rw [Finmap.lookup_erase] at he'
          cases he'
        · rw [Finmap.lookup_erase_ne hk] at he'
          exact ⟨e', he', rfl⟩

/-- Entries with new names and new ids. -/
theorem Agrees.foldl_register (h : c.Agrees) {entries : List TableCatalogEntry}
    (hids : (entries.map TableCatalogEntry.tableId).Nodup)
    (hnames : (entries.map TableCatalogEntry.name).Nodup)
    (hid : ∀ e ∈ entries, e.tableId ∉ c.tables) (hname : ∀ e ∈ entries, e.name ∉ c.nameIndex) :
    (entries.foldl Catalog.register c).Agrees := by
  induction entries generalizing c with
  | nil => exact h
  | cons e entries ih =>
    rw [List.map_cons, List.nodup_cons] at hids hnames
    refine ih (h.register (hname e List.mem_cons_self) (hid e List.mem_cons_self)) hids.2 hnames.2 ?_ ?_
    · intro e' he'
      rw [Catalog.register, Finmap.mem_insert, not_or]
      exact ⟨fun heq => hids.1 (heq ▸ List.mem_map_of_mem he'), hid e' (List.mem_cons_of_mem e he')⟩
    · intro e' he'
      rw [Catalog.register, Finmap.mem_insert, not_or]
      exact ⟨fun heq => hnames.1 (heq ▸ List.mem_map_of_mem he'), hname e' (List.mem_cons_of_mem e he')⟩

/-! ## Creating and dropping -/

/-- Taking a new key out again. -/
theorem erase_insert_of_notMem {κ ν : Type} [DecidableEq κ] {m : Finmap fun _ : κ => ν} {k : κ}
    (h : k ∉ m) (v : ν) : (m.insert k v).erase k = m := by
  apply Finmap.ext_lookup
  intro k'
  by_cases hk : k' = k
  · subst hk
    rw [Finmap.lookup_erase, Finmap.lookup_eq_none.mpr h]
  · rw [Finmap.lookup_erase_ne hk, Finmap.lookup_insert_of_ne _ hk]

/-- **Creating a table**: the entry is registered, or the catalog is what it was. -/
theorem createTable_cases {order : List TableId} {name : Bytes} (hid : name ∉ c.nameIndex →
    nextTableId order ∉ c.tables) (schema : TableSchema) (saved : Bool) :
    (c.createTable order name schema saved = (c, false) ∧ (name ∈ c.nameIndex ∨ saved = false)) ∨
    (c.createTable order name schema saved = (c.register ⟨nextTableId order, name, schema⟩, true) ∧
      name ∉ c.nameIndex ∧ saved = true) := by
  unfold createTable
  by_cases hname : name ∈ c.nameIndex
  · rw [if_pos hname]
    exact .inl ⟨rfl, .inl hname⟩
  · rw [if_neg hname]
    cases saved with
    | true => exact .inr ⟨rfl, hname, rfl⟩
    | false =>
      refine .inl ⟨?_, .inr rfl⟩
      simp only [Bool.false_eq_true, if_false, Catalog.register, Finmap.lookup_insert,
        Option.getD_some]
      rw [erase_insert_of_notMem hname, erase_insert_of_notMem (hid hname)]

/-- **Dropping a table**: it is not listed, or it is taken out of both maps. -/
theorem dropTable_cases (name : Bytes) (saved : Bool) :
    (c.dropTable name saved = (c, false) ∧ name ∉ c.nameIndex) ∨
    ∃ id, c.nameIndex.lookup name = some id ∧
      c.dropTable name saved = (⟨c.nameIndex.erase name, c.tables.erase id⟩, saved) := by
  unfold dropTable
  rcases hlookup : c.nameIndex.lookup name with _ | id
  · exact .inl ⟨rfl, Finmap.lookup_eq_none.mp hlookup⟩
  · exact .inr ⟨id, rfl, rfl⟩

/-! ## Loading a file that is cut off -/

/-- Of entries that were written and cut off, the first are registered. -/
theorem loadEntries_take {entries : List TableCatalogEntry} (h : ∀ e ∈ entries, e.Fits) (n : ℕ)
    (c : Catalog) :
    ∃ k, (loadEntries TableCatalogEntry.deserialize entries.length
      ((entries.flatMap TableCatalogEntry.serialize).take n) c).1 = (entries.take k).foldl register c := by
  induction entries generalizing n c with
  | nil => exact ⟨0, rfl⟩
  | cons e entries ih =>
    have he := TableCatalogEntry.decodes (h e List.mem_cons_self)
    rw [List.length_cons, loadEntries, List.flatMap_cons]
    by_cases hn : n < e.serialize.length
    · rw [List.take_append_of_le_length hn.le, he.take_eq_none TableCatalogEntry.stable hn]
      exact ⟨0, rfl⟩
    · rw [List.take_append, List.take_of_length_le (Nat.le_of_not_lt hn), he]
      obtain ⟨k, hk⟩ := ih (fun e' he' => h e' (List.mem_cons_of_mem e he')) (n - e.serialize.length)
        (c.register e)
      exact ⟨k + 1, hk⟩

/-- What is read of a file that is shorter than the magic. -/
theorem loadBuffer_short {buffer : Bytes} (h : buffer.length < 4) : loadBuffer buffer = (empty, false) := by
  have hformat : metaFormat buffer = .v1 := by
    rw [metaFormat, if_neg (fun hc => absurd hc.1 (by omega)),
      if_neg (fun hc => absurd hc.1 (by omega))]
  have hread : readCatalogMeta buffer = none := by
    have hword : readUInt32 buffer = none := by
      show (Decoder.take 4 buffer).bind _ = none
      rw [Decoder.take, if_neg (by omega)]
      rfl
    show ((readUInt32 buffer).bind _).bind _ = none
    rw [hword]
    rfl
  rw [loadBuffer, hformat]
  simp only [hread]

/-- The number of tables fits in the file. -/
theorem Fits.fits_length (h : c.Fits) {order : List (Σ _ : TableId, TableCatalogEntry)}
    (horder : (order : Multiset _) = c.tables.entries) : Fits32 order.length := by
  have hcount := h.count
  rwa [← horder, Multiset.coe_card] at hcount

/-- What is read of a file that is cut off behind the magic: nothing where the number of entries is cut off,
otherwise the entries that are left. -/
theorem loadBuffer_take {order : List (Σ _ : TableId, TableCatalogEntry)} (hlen : Fits32 order.length) (n : ℕ) :
    loadBuffer ((saveMeta order).take n) =
      if n < 8 then (empty, false)
      else loadEntries TableCatalogEntry.deserialize order.length
        ((order.flatMap fun entry => TableCatalogEntry.serialize entry.2).take (n - 8)) empty := by
  have hmagic : (writeUInt32 kCatalogMetaMagicV3).length = 4 := length_leBytes 4 _
  by_cases hn : n < 4
  · rw [if_pos (by omega), loadBuffer_short (lt_of_le_of_lt (List.length_take_le n _) hn)]
  -- the magic is whole, so the entries are read in the current format
  have htake : (saveMeta order).take n = writeUInt32 kCatalogMetaMagicV3 ++ (writeUInt32 order.length ++
      order.flatMap fun entry => TableCatalogEntry.serialize entry.2).take (n - 4) := by
    rw [saveMeta, writeVector, List.take_append, List.take_of_length_le (by omega), hmagic]
  have hformat : metaFormat ((saveMeta order).take n) = .v3 := by
    have hword : leNat (writeUInt32 kCatalogMetaMagicV3) = kCatalogMetaMagicV3 :=
      leNat_leBytes (by decide)
    rw [metaFormat, if_pos]
    rw [htake, List.length_append, hmagic, List.take_append_of_le_length hmagic.ge,
      List.take_of_length_le hmagic.le]
    exact ⟨by omega, hword⟩
  have hcount := decodes_readUInt32 hlen
  have hcountLen : (writeUInt32 order.length).length = 4 := length_leBytes 4 _
  rw [loadBuffer, hformat]
  show loadCounted _ _ = _
  rw [loadCounted, htake, List.drop_append_of_le_length hmagic.ge, List.drop_of_length_le hmagic.le,
    List.nil_append]
  by_cases hn8 : n < 8
  · rw [List.take_append_of_le_length (by omega),
      hcount.take_eq_none stable_readUInt32 (by omega), if_pos hn8]
  · rw [List.take_append, List.take_of_length_le (by omega), hcount, hcountLen, if_neg hn8, Nat.sub_sub]

/-- **A file that is cut off anywhere** is read as a catalog whose maps agree. -/
theorem agrees_loadBuffer_take (hagrees : c.Agrees) (hfits : c.Fits)
    {order : List (Σ _ : TableId, TableCatalogEntry)} (horder : (order : Multiset _) = c.tables.entries)
    (n : ℕ) : (loadBuffer ((saveMeta order).take n)).1.Agrees := by
  set entries := order.map fun entry => entry.2 with hentries
  have hids := hagrees.nodup_ids horder
  have hnames := hagrees.nodup_names horder
  have hmem := hagrees.mem_entries horder
  rw [← hentries] at hids hnames hmem
  have hwords : (order.flatMap fun entry => TableCatalogEntry.serialize entry.2) =
      entries.flatMap TableCatalogEntry.serialize := by rw [hentries, List.flatMap_map]
  have hlen : entries.length = order.length := by rw [hentries, List.length_map]
  rw [loadBuffer_take (hfits.fits_length horder), hwords, ← hlen]
  split_ifs with hn
  · exact agrees_empty
  · obtain ⟨k, hk⟩ := loadEntries_take (fun e he => hfits.entries _ e ((hmem e).mp he)) (n - 8) empty
    rw [hk]
    exact agrees_empty.foldl_register ((hids.sublist ((List.take_sublist k entries).map _)))
      (hnames.sublist ((List.take_sublist k entries).map _)) (fun _ _ => Finmap.notMem_empty)
      (fun _ _ => Finmap.notMem_empty)

/-! ## Runs -/

/-- A file that SaveMeta wrote of a catalog, of which only some bytes may be left. -/
structure SavedFile where
  catalog : Catalog
  /-- the order in which the tables were gone through -/
  order : List (Σ _ : TableId, TableCatalogEntry)
  /-- how many bytes are left -/
  length : ℕ

namespace SavedFile

/-- Its bytes. -/
def bytes (file : SavedFile) : Bytes := (saveMeta file.order).take file.length

/-- Some bytes of it are lost. -/
def Truncated (file : SavedFile) : Prop := file.length < (saveMeta file.order).length

/-- Whether the file is truncated can be decided. -/
instance (file : SavedFile) : Decidable file.Truncated := inferInstanceAs (Decidable (_ < _))

end SavedFile

/-- A call, with the outcome of its SaveMeta; a file that is missing or cannot be read is `none`. -/
inductive Call
  | create (order : List TableId) (name : Bytes) (schema : TableSchema) (saved : Bool)
  | drop (name : Bytes) (saved : Bool)
  | load (file : Option SavedFile)

namespace Call

/-- The catalog after the call, and its result. -/
def run (call : Call) (c : Catalog) : Catalog × Bool :=
  match call with
  | create order name schema saved => c.createTable order name schema saved
  | drop name saved => c.dropTable name saved
  | load file => c.loadMeta (file.map SavedFile.bytes)

/-- CREATE TABLE. -/
@[simp] theorem run_create (order : List TableId) (name : Bytes) (schema : TableSchema) (saved : Bool)
    (c : Catalog) : (create order name schema saved).run c = c.createTable order name schema saved := rfl

/-- DROP TABLE. -/
@[simp] theorem run_drop (name : Bytes) (saved : Bool) (c : Catalog) :
    (drop name saved).run c = c.dropTable name saved := rfl

/-- A load. -/
@[simp] theorem run_load (file : Option SavedFile) (c : Catalog) :
    (load file).run c = c.loadMeta (file.map SavedFile.bytes) := rfl

/-- The catalog whose file is loaded. -/
def loaded : Call → Option Catalog
  | load (some file) => some file.catalog
  | _ => none

/-- The orders are orders of the tables; a new table finds an id; what is loaded fitted its fields. -/
def Regular (call : Call) (c : Catalog) : Prop :=
  match call with
  | create order name _ _ => c.Lists order ∧ (name ∈ c.nameIndex ∨ c.IdsLeft)
  | drop _ _ => True
  | load none => True
  | load (some file) => (file.order : Multiset _) = file.catalog.tables.entries ∧ file.catalog.Fits

/-- A listed table is dropped and the save fails, or a file is loaded that is cut off. -/
def Careless (call : Call) (c : Catalog) : Prop :=
  match call with
  | create _ _ _ _ => False
  | drop name saved => name ∈ c.nameIndex ∧ saved = false
  | load none => False
  | load (some file) => file.Truncated

end Call

/-- The catalogs that runs of calls lead to. A file that is loaded was written in such a run. -/
inductive Reached : Catalog → Prop
  | empty : Reached Catalog.empty
  | call {c : Catalog} (h : Reached c) (call : Call) (hcall : call.Regular c)
      (hloaded : ∀ saved, call.loaded = some saved → Reached saved) : Reached (call.run c).1

/-- A call keeps the agreement of the maps. -/
theorem Agrees.run (h : c.Agrees) {call : Call} (hcall : call.Regular c)
    (hloaded : ∀ saved, call.loaded = some saved → saved.Agrees) : (call.run c).1.Agrees := by
  rcases call with ⟨order, name, schema, saved⟩ | ⟨name, saved⟩ | _ | file
  · have hid : name ∉ c.nameIndex → nextTableId order ∉ c.tables := fun hname =>
      nextTableId_notMem hcall.1 (hcall.2.resolve_left hname)
    rw [Call.run_create]
    obtain ⟨heq, -⟩ | ⟨heq, hname, -⟩ := createTable_cases hid schema saved
    · rwa [heq]
    · rw [heq]
      exact h.register hname (hid hname)
  · rw [Call.run_drop]
    obtain ⟨heq, -⟩ | ⟨id, hlookup, heq⟩ := dropTable_cases (c := c) name saved
    · rwa [heq]
    · rw [heq]
      exact h.erase hlookup
  · exact h
  · exact agrees_loadBuffer_take (hloaded _ rfl) hcall.2 hcall.1 file.length

/-- Every catalog that is reached agrees. -/
theorem Reached.agrees (h : Reached c) : c.Agrees := by
  induction h with
  | empty => exact agrees_empty
  | call _ _ hcall _ ih ihloaded => exact ih.run hcall ihloaded

/-- A call that fails keeps the maps. -/
theorem run_eq_of_failed {call : Call} (hcall : call.Regular c) (hcareful : ¬ call.Careless c)
    (hloaded : ∀ saved, call.loaded = some saved → saved.Agrees) (hfailed : (call.run c).2 = false) :
    (call.run c).1 = c := by
  rcases call with ⟨order, name, schema, saved⟩ | ⟨name, saved⟩ | _ | file
  · have hid : name ∉ c.nameIndex → nextTableId order ∉ c.tables := fun hname =>
      nextTableId_notMem hcall.1 (hcall.2.resolve_left hname)
    rw [Call.run_create] at hfailed ⊢
    obtain ⟨heq, -⟩ | ⟨heq, -⟩ := createTable_cases hid schema saved
    · rw [heq]
    · rw [heq] at hfailed
      cases hfailed
  · rw [Call.run_drop] at hfailed ⊢
    obtain ⟨heq, -⟩ | ⟨id, hlookup, heq⟩ := dropTable_cases (c := c) name saved
    · rw [heq]
    · rw [heq] at hfailed
      exact absurd ⟨Finmap.mem_of_lookup_eq_some hlookup, hfailed⟩ hcareful
  · rfl
  · -- the whole file is there, so the load does not fail
    have hwhole : file.bytes = saveMeta file.order := List.take_of_length_le (Nat.le_of_not_lt hcareful)
    have hload := loadMeta_saveMeta (hloaded _ rfl) hcall.2 hcall.1 c
    rw [← hwhole] at hload
    have hresult : (Call.load (some file)).run c = (file.catalog, true) := hload
    rw [hresult] at hfailed
    cases hfailed

/-- **The catalog over runs.** Whatever saves fail and wherever files are cut off, the maps agree in
every catalog that is reached. A call that fails leaves them as they were, unless it drops a listed
table or opens a file that is cut off. -/
theorem catalog_agrees_and_keeps (h : Reached c) :
    c.Agrees ∧
      ∀ call : Call, call.Regular c → (∀ saved, call.loaded = some saved → Reached saved) →
        ¬ call.Careless c → (call.run c).2 = false → (call.run c).1 = c :=
  ⟨h.agrees, fun _ hcall hloaded hcareful hfailed =>
    run_eq_of_failed hcall hcareful (fun saved hs => (hloaded saved hs).agrees) hfailed⟩

/-! ## One table -/

/-- The call that creates the table `t`. -/
def createT : Call := .create [] [116] ⟨[], none, []⟩ true

/-- The catalog is reached. -/
theorem reached_catalogT : Reached catalogT := by
  refine .call .empty createT ⟨⟨List.nodup_nil, fun id => ?_⟩, .inr ?_⟩ ?_
  · exact iff_of_false List.not_mem_nil Finmap.notMem_empty
  · intro id hid
    exact absurd hid Finmap.notMem_empty
  · intro saved hsaved
    cases hsaved

/-- It has ids left. -/
theorem idsLeft_catalogT : catalogT.IdsLeft := by
  intro id hid
  obtain ⟨e, he⟩ := Finmap.mem_iff.mp hid
  obtain ⟨rfl, -⟩ := lookup_catalogT he
  decide

/-- A second table whose save fails. -/
theorem catalog_agrees_and_keeps_create :
    ((Call.create [0] [117] ⟨[], none, []⟩ false).run catalogT).1 = catalogT := by
  have hlists : catalogT.Lists [0] := by
    refine ⟨List.nodup_singleton 0, fun id => ?_⟩
    rw [List.mem_singleton, catalogT, Catalog.register, Finmap.mem_insert]
    exact (or_iff_left Finmap.notMem_empty).symm
  refine (catalog_agrees_and_keeps reached_catalogT).2 _ ⟨hlists, .inr idsLeft_catalogT⟩ ?_ id ?_
  · intro saved hsaved
    cases hsaved
  · decide

/-- The file of the table `t`, cut off behind the magic. -/
def fileT : SavedFile := ⟨catalogT, [⟨0, entryT⟩], 4⟩

/-- **Calls that fail and change the maps**: the table `t` is dropped and the save fails; its file is
loaded, cut off. -/
theorem dropTable_failed_changes :
    Reached catalogT ∧
      ((Call.drop [116] false).run catalogT).2 = false ∧ ((Call.drop [116] false).run catalogT).1 ≠ catalogT ∧
      fileT.catalog = catalogT ∧ fileT.Truncated ∧
      ((Call.load (some fileT)).run catalogT).2 = false ∧
      ((Call.load (some fileT)).run catalogT).1 ≠ catalogT := by
  have hlookup : catalogT.nameIndex.lookup [116] = some 0 := Finmap.lookup_insert _
  refine ⟨reached_catalogT, by decide, ?_, rfl, by decide +kernel, by decide +kernel, ?_⟩
  · intro h
    have := congrArg (fun c => c.nameIndex.lookup [116]) h
    simp only [hlookup] at this
    cases this
  · intro h
    have := congrArg (fun c => c.nameIndex.lookup [116]) h
    simp only [hlookup] at this
    cases this

end Catalog

end SimpleOlap
