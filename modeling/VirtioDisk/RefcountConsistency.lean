import VirtioDisk.Extents
import VirtioDisk.QcowByteArray

/-!
The counts of the clusters of an image, and the references to them: those of the
header, the two tables whose places it has, the refcount blocks, the level 2 tables,
and the clusters of their entries. Tables and counts are those that the program has
in memory; what is not cached is in the file.
-/

namespace VirtioDisk.RefcountConsistency

open ByteStore Extents LruCache OwnedClusters QcowByteArray QcowImage QcowReference QcowWrite
open ReadWrite
open QcowRead (qcow1Version qcow2OflagCopied qcow2OflagCompressed qcow2OffsetMask)

/-! The references. -/

def namedTables (q : Qcow) : List UInt64 :=
  ((List.range q.tableSize).map fun index =>
    q.l1Table index &&& ~~~qcow2OflagCopied).filter (· ≠ 0)

def namedBlocks (q : Qcow) : List UInt64 :=
  ((List.range q.rfSize).map q.rfTable).filter (· ≠ 0)

def tableView (q : Qcow) (base : UInt64) : Nat → UInt64 :=
  match lookup L2Table.offset base q.l2Cache with
  | some l2t => l2t.table
  | none => storedTable q.disk.file q.l2tSize base.toNat

/-- A compressed cluster, as `qcow_write_cluster` frees it. -/
def compressedExtent (q : Qcow) (clustStart : UInt64) : Range :=
  let csizeShift := 62 - (q.header.clusterBits - 8)
  let mask := UInt64.ofNat (2 ^ csizeShift - 1)
  ⟨(clustStart &&& mask &&& ~~~511).toNat,
    (clustStart.toNat / 2 ^ csizeShift % 2 ^ (q.header.clusterBits - 8) + 1) * 512⟩

def entryExtents (q : Qcow) (entry : UInt64) : List Range :=
  let clustStart := entry &&& qcow2OffsetMask
  if entry &&& qcow2OflagCompressed ≠ 0 then [compressedExtent q clustStart]
  else if clustStart = 0 then []
  else [⟨clustStart.toNat, q.clusterSize⟩]

/-- The refcount blocks and the level 2 tables, of which the caches hold some. -/
def nodeExtents (q : Qcow) : List Range :=
  (namedBlocks q).map (fun block => ⟨block.toNat, q.clusterSize⟩) ++
    (namedTables q).map fun base => ⟨base.toNat, 8 * q.l2tSize⟩

def metadata (q : Qcow) : List Range :=
  [⟨0, q.clusterSize⟩, ⟨q.header.l1TableOffset.toNat, 8 * q.tableSize⟩,
    ⟨q.header.refcountTableOffset.toNat, 8 * q.rfSize⟩] ++ nodeExtents q

def data (q : Qcow) : List Range :=
  (namedTables q).flatMap fun base => (List.range q.l2tSize).flatMap fun index =>
    entryExtents q (tableView q base index)

def references (q : Qcow) (index : Nat) : Nat :=
  uses q.clusterSize (data q) index + uses q.clusterSize (metadata q) index

/-- A cluster that no refcount block covers counts as free. -/
def count (q : Qcow) (index : Nat) : Nat :=
  let block := index / 2 ^ (q.header.clusterBits - 1)
  if block < q.rfSize ∧ q.rfTable block ≠ 0 then (refcount q index).toNat else 0

def Consistent (q : Qcow) : Prop := ∀ index, count q index = references q index

section Named
variable {q : Qcow}

theorem named_table {index : Nat} (covered : index < q.tableSize)
    (named : q.l1Table index &&& ~~~qcow2OflagCopied ≠ 0) :
    q.l1Table index &&& ~~~qcow2OflagCopied ∈ namedTables q := by
  apply List.mem_filter.mpr
  exact ⟨List.mem_map.mpr ⟨index, List.mem_range.mpr covered, rfl⟩, by simpa using named⟩

theorem named_block {index : Nat} (covered : index < q.rfSize) (named : q.rfTable index ≠ 0) :
    q.rfTable index ∈ namedBlocks q := by
  apply List.mem_filter.mpr
  exact ⟨List.mem_map.mpr ⟨index, List.mem_range.mpr covered, rfl⟩, by simpa using named⟩

theorem listed_named (second : q.version ≠ qcow1Version) (listed : Listed q) {l2t : L2Table}
    (member : l2t ∈ q.l2Cache) : l2t.offset ∈ namedTables q := by
  obtain ⟨index, covered, named, same⟩ := listed l2t member
  rw [qcow2_format second] at named same
  rw [same]
  exact named_table covered named

theorem table_extent {base : UInt64} (named : base ∈ namedTables q) :
    (⟨base.toNat, 8 * q.l2tSize⟩ : Range) ∈ nodeExtents q :=
  List.mem_append_right _ (List.mem_map_of_mem named)

theorem block_extent {block : UInt64} (named : block ∈ namedBlocks q) :
    (⟨block.toNat, q.clusterSize⟩ : Range) ∈ nodeExtents q :=
  List.mem_append_left _ (List.mem_map_of_mem named)

/-- The header has a cluster that is never free. -/
theorem Consistent.header (consistent : Consistent q) : 0 < count q 0 := by
  have first : (⟨0, q.clusterSize⟩ : Range) ∈ metadata q := List.mem_cons_self
  have positive : 0 < q.clusterSize := Nat.two_pow_pos _
  have holds : (⟨0, q.clusterSize⟩ : Range).Holds 0 := ⟨Nat.le_refl 0, by simpa using positive⟩
  have used := uses_member first (touches_holds q.clusterSize holds)
  rw [Nat.zero_div] at used
  rw [consistent, references]
  omega

end Named

/-! The file. -/

/-- A file has no bytes behind its end. -/
def Clean (file : File) : Prop := ∀ position, file.size ≤ position → file.bytes position = 0

def storedCount (file : File) (base index : Nat) : UInt16 :=
  (cell file (base + 2 * index)).toUInt16 * 256 + (cell file (base + 2 * index + 1)).toUInt16

section Cells
variable {disk : ImageFile} {bytes : List UInt8} {turns offset : Nat}

theorem Clean.cell {file : File} (clean : Clean file) (position : Nat) :
    cell file position = file.bytes position := by
  unfold QcowReference.cell
  split
  · rfl
  · next behind => exact (clean position (Nat.not_lt.mp behind)).symm

/-- A write may extend the file, but changes no cell outside of its range. -/
structure WroteInside (disk after : ImageFile) (offset length : Nat) : Prop where
  clean : Clean after.file
  outside : ∀ position, position < offset ∨ offset + length ≤ position →
    cell after.file position = cell disk.file position

theorem wrote_nothing (clean : Clean disk.file) {after : ImageFile}
    (same : after.file = disk.file) (offset length : Nat) :
    WroteInside disk after offset length := by
  constructor
  · rwa [same]
  · intro position _
    rw [same]

theorem written_inside {after : ImageFile} {length : Nat} (clean : Clean disk.file)
    (fits : bytes.length ≤ length)
    (content : after.file.bytes = writeRange disk.file.bytes offset bytes)
    (size : after.file.size =
      if bytes.length = 0 then disk.file.size else max disk.file.size (offset + bytes.length)) :
    WroteInside disk after offset length := by
  have still : Clean after.file := by
    intro position behind
    rw [size] at behind
    rw [content, writeRange_outside _ _ _ _ (by split at behind <;> omega)]
    exact clean position (by split at behind <;> omega)
  refine ⟨still, ?_⟩
  intro position outside
  rw [still.cell, clean.cell, content]
  exact writeRange_outside _ _ _ _ (by omega)

theorem xpwrite_inside {nr : Option Nat} {after : ImageFile} (clean : Clean disk.file)
    (wrote : xpwrite disk bytes offset = (nr, after)) :
    WroteInside disk after offset bytes.length ∧
      ∀ moved, nr = some moved → moved ≤ bytes.length := by
  unfold xpwrite at wrote
  split at wrote
  · cases wrote
    refine ⟨wrote_nothing clean ?_ _ _, fun moved none => by cases none⟩
    rfl
  · cases wrote
    refine ⟨?_, fun moved same => by cases same; omega⟩
    generalize moved_ : min _ (min bytes.length _) = moved
    have length : (bytes.take moved).length = moved := by
      rw [List.length_take]
      omega
    apply written_inside clean (by omega) rfl
    rw [length]

theorem pwrite_loop_inside (clean : Clean disk.file) :
    WroteInside disk (pwriteLoop turns disk bytes offset).2 offset bytes.length := by
  induction turns generalizing disk bytes offset with
  | zero => exact wrote_nothing clean rfl _ _
  | succ turns ih =>
      unfold pwriteLoop
      split
      · exact wrote_nothing clean rfl _ _
      · split
        · next wrote => exact (xpwrite_inside clean wrote).1
        · next wrote => exact (xpwrite_inside clean wrote).1
        · next moved after _ wrote =>
            obtain ⟨first, fits⟩ := xpwrite_inside clean wrote
            have short := fits moved rfl
            have rest : WroteInside after (pwriteLoop turns after (bytes.drop moved)
                (offset + moved)).2 (offset + moved) (bytes.drop moved).length := ih first.clean
            refine ⟨rest.clean, ?_⟩
            intro position outside
            rw [rest.outside position (by rw [List.length_drop]; omega)]
            exact first.outside position outside

theorem pwrite_inside (clean : Clean disk.file) (bytes : List UInt8) (offset : UInt64) :
    WroteInside disk (pwriteInFull disk bytes offset).2 offset.toNat bytes.length := by
  unfold pwriteInFull
  split
  · exact wrote_nothing clean rfl _ _
  · exact pwrite_loop_inside clean

theorem sync_inside (clean : Clean disk.file) (bytes : List UInt8) (offset : UInt64) :
    WroteInside disk (qcowPwriteSync disk bytes offset).2 offset.toNat bytes.length := by
  have wrote := pwrite_inside clean bytes offset
  unfold qcowPwriteSync
  split
  · next failed =>
      rw [failed] at wrote
      exact wrote
  · next stored =>
      rw [stored] at wrote
      exact ⟨wrote.clean, wrote.outside⟩

theorem entries_length (entries : Nat → UInt16) (size : Nat) :
    (entriesBytes entries size).length = 2 * size := by
  simp [entriesBytes, be16Bytes, List.length_flatMap, Nat.mul_comm]

theorem stored_table_outside {file after : File} {base size : Nat}
    (same : ∀ position, (⟨base, 8 * size⟩ : Range).Holds position →
      cell after position = cell file position) :
    storedTable after size base = storedTable file size base := by
  unfold storedTable
  congr 1
  apply List.ext_getElem (by simp)
  intro i early _
  rw [length_readRange] at early
  rw [getElem_readRange, getElem_readRange]
  exact same _ ⟨Nat.le_add_right _ _, by simpa using early⟩

end Cells

/-! What the calls keep. -/

/-- A node that is a named block as the file holds it. -/
structure Filed (q : Qcow) (rfb : RefcountBlock) : Prop where
  size : rfb.size = q.clusterSize / 2
  named : rfb.offset ∈ namedBlocks q
  entries : ∀ index < q.clusterSize / 2,
    rfb.entries index = storedCount q.disk.file rfb.offset.toNat index

/-- The sizes for which `1 << cluster_bits` is an `int`, and a table fills a cluster. -/
structure Sizes (q : Qcow) : Prop where
  sectors : 9 ≤ q.header.clusterBits
  narrow : q.header.clusterBits ≤ 30
  l2Bits : q.header.l2Bits = q.header.clusterBits - 3

/-- An image between two calls: the caches hold what the file holds of the tables and the
blocks that are named. -/
structure Steady (q : Qcow) : Prop extends Sizes q where
  second : q.version ≠ qcow1Version
  coherent : Coherent q
  listed : Listed q
  filed : ∀ rfb ∈ q.rfCache, Filed q rfb
  clean : Clean q.disk.file

/-- The file may have changed, but not the tables that are named. -/
structure TablesKept (q after : Qcow) : Prop where
  same : { after with
    l2Cache := q.l2Cache, rfCache := q.rfCache, freeClustIdx := q.freeClustIdx
    copyBuff := q.copyBuff, disk := q.disk } = q
  tables : ∀ base ∈ namedTables q, storedTable after.disk.file q.l2tSize base.toNat =
    storedTable q.disk.file q.l2tSize base.toNat

/-- Nor the blocks. -/
structure Undisturbed (q after : Qcow) : Prop extends TablesKept q after where
  blocks : ∀ block ∈ namedBlocks q, ∀ index < q.clusterSize / 2,
    storedCount after.disk.file block.toNat index = storedCount q.disk.file block.toNat index

section Keeping
variable {q middle after : Qcow}

theorem Undisturbed.refl (q : Qcow) : Undisturbed q q :=
  ⟨⟨rfl, fun _ _ => rfl⟩, fun _ _ _ _ => rfl⟩

theorem TablesKept.header (kept : TablesKept q after) : after.header = q.header := by
  have same := congrArg Qcow.header kept.same
  exact same

theorem TablesKept.version (kept : TablesKept q after) : after.version = q.version := by
  have same := congrArg Qcow.version kept.same
  exact same

theorem TablesKept.cluster_size (kept : TablesKept q after) :
    after.clusterSize = q.clusterSize := by
  rw [Qcow.clusterSize, Qcow.clusterSize, kept.header]

theorem TablesKept.l2t_size (kept : TablesKept q after) : after.l2tSize = q.l2tSize := by
  rw [Qcow.l2tSize, Qcow.l2tSize, kept.header]

theorem TablesKept.sizes (kept : TablesKept q after) (sizes : Sizes q) : Sizes after := by
  have same := kept.header
  constructor
  · rw [same]
    exact sizes.sectors
  · rw [same]
    exact sizes.narrow
  · rw [same]
    exact sizes.l2Bits

theorem TablesKept.rf_size (kept : TablesKept q after) : after.rfSize = q.rfSize := by
  have same := congrArg Qcow.rfSize kept.same
  exact same

theorem TablesKept.rf_table (kept : TablesKept q after) : after.rfTable = q.rfTable := by
  have same := congrArg Qcow.rfTable kept.same
  exact same

theorem TablesKept.table_size (kept : TablesKept q after) :
    after.tableSize = q.tableSize := by
  have same := congrArg Qcow.tableSize kept.same
  exact same

theorem TablesKept.l1_table (kept : TablesKept q after) :
    after.l1Table = q.l1Table := by
  have same := congrArg Qcow.l1Table kept.same
  exact same

theorem TablesKept.format (kept : TablesKept q after) : after.format = q.format := by
  rw [Qcow.format, Qcow.format, kept.version]

theorem TablesKept.l2t_offset (kept : TablesKept q after) (offset : UInt64) :
    l2tOffset after offset = l2tOffset q offset := by
  rw [l2tOffset, l2tOffset, getL1Index, getL1Index, kept.l1_table, kept.header, kept.format]

theorem TablesKept.named_tables (kept : TablesKept q after) :
    namedTables after = namedTables q := by
  rw [namedTables, namedTables, kept.table_size, kept.l1_table]

theorem TablesKept.named_blocks (kept : TablesKept q after) :
    namedBlocks after = namedBlocks q := by
  rw [namedBlocks, namedBlocks, kept.rf_size, kept.rf_table]

theorem Undisturbed.filed (undisturbed : Undisturbed q after) {rfb : RefcountBlock}
    (filed : Filed q rfb) : Filed after rfb := by
  constructor
  · rw [undisturbed.cluster_size, filed.size]
  · rw [undisturbed.named_blocks]
    exact filed.named
  · intro index early
    rw [undisturbed.cluster_size] at early
    rw [filed.entries index early, undisturbed.blocks _ filed.named index early]

theorem TablesKept.trans (first : TablesKept q middle) (second : TablesKept middle after) :
    TablesKept q after := by
  constructor
  · have back := congrArg (fun r : Qcow => { r with
      l2Cache := q.l2Cache, rfCache := q.rfCache, freeClustIdx := q.freeClustIdx
      copyBuff := q.copyBuff, disk := q.disk }) second.same
    exact back.trans first.same
  · intro base named
    have again := second.tables base (by rwa [first.named_tables])
    rw [first.l2t_size] at again
    rw [again, first.tables base named]

theorem Undisturbed.trans (first : Undisturbed q middle) (second : Undisturbed middle after) :
    Undisturbed q after := by
  constructor
  · exact first.toTablesKept.trans second.toTablesKept
  · intro block named index early
    rw [second.blocks block (by rwa [first.named_blocks]) index (by rwa [first.cluster_size]),
      first.blocks block named index early]

theorem TablesKept.node_extents (kept : TablesKept q after) :
    nodeExtents after = nodeExtents q := by
  unfold nodeExtents
  rw [kept.named_tables, kept.named_blocks, kept.cluster_size, kept.l2t_size]

theorem TablesKept.metadata (kept : TablesKept q after) :
    metadata after = metadata q := by
  unfold RefcountConsistency.metadata
  rw [kept.node_extents, kept.header, kept.cluster_size, kept.table_size, kept.rf_size]

theorem view_stored (coherent : Coherent q) (base : UInt64) {index : Nat}
    (early : index < q.l2tSize) :
    tableView q base index = storedTable q.disk.file q.l2tSize base.toNat index := by
  unfold tableView
  cases found : lookup L2Table.offset base q.l2Cache with
  | none => rfl
  | some l2t => exact (lookup_key found) ▸ coherent l2t (lookup_mem found) index early

theorem TablesKept.data (kept : TablesKept q after) (before : Coherent q)
    (coherent : Coherent after) : data after = data q := by
  unfold RefcountConsistency.data
  rw [kept.named_tables, kept.l2t_size]
  apply List.flatMap_congr
  intro base named
  apply List.flatMap_congr
  intro index early
  rw [List.mem_range] at early
  have view : tableView after base index = tableView q base index := by
    rw [view_stored coherent base (by rwa [kept.l2t_size]), view_stored before base early,
      kept.l2t_size, kept.tables base named]
  rw [view]
  unfold entryExtents compressedExtent
  rw [kept.header, kept.cluster_size]

theorem half_cluster (steady : Steady q) :
    q.clusterSize / 2 = 2 ^ (q.header.clusterBits - 1) := by
  have sectors := steady.sectors
  have succ : q.header.clusterBits = q.header.clusterBits - 1 + 1 := by omega
  rw [Qcow.clusterSize, succ, Nat.pow_succ, Nat.mul_div_cancel _ (by decide)]
  rfl

theorem count_stored (steady : Steady q) {index : Nat}
    (covered : index / 2 ^ (q.header.clusterBits - 1) < q.rfSize)
    (named : q.rfTable (index / 2 ^ (q.header.clusterBits - 1)) ≠ 0) :
    count q index = (storedCount q.disk.file
      (q.rfTable (index / 2 ^ (q.header.clusterBits - 1))).toNat
      (index % 2 ^ (q.header.clusterBits - 1))).toNat := by
  have early : index % 2 ^ (q.header.clusterBits - 1) < q.clusterSize / 2 := by
    rw [half_cluster steady]
    exact Nat.mod_lt _ (Nat.two_pow_pos _)
  simp only [count, covered, named, ne_eq, not_false_eq_true, and_self, if_true, refcount]
  split
  · next rfb found => rw [(steady.filed rfb (lookup_mem found)).entries _ early, lookup_key found]
  · rfl

theorem Undisturbed.count (undisturbed : Undisturbed q after) (before : Steady q)
    (steady : Steady after) (index : Nat) : count after index = count q index := by
  by_cases covered : index / 2 ^ (q.header.clusterBits - 1) < q.rfSize ∧
      q.rfTable (index / 2 ^ (q.header.clusterBits - 1)) ≠ 0
  · have early : index % 2 ^ (q.header.clusterBits - 1) < q.clusterSize / 2 := by
      rw [half_cluster before]
      exact Nat.mod_lt _ (Nat.two_pow_pos _)
    have now : index / 2 ^ (after.header.clusterBits - 1) < after.rfSize ∧
        after.rfTable (index / 2 ^ (after.header.clusterBits - 1)) ≠ 0 := by
      rwa [undisturbed.header, undisturbed.rf_size, undisturbed.rf_table]
    rw [count_stored steady now.1 now.2, count_stored before covered.1 covered.2,
      undisturbed.header, undisturbed.rf_table,
      undisturbed.blocks _ (named_block covered.1 covered.2) _ early]
  · simp only [RefcountConsistency.count, undisturbed.header, undisturbed.rf_size,
      undisturbed.rf_table, if_neg covered]

theorem Undisturbed.steady (undisturbed : Undisturbed q after) (before : Steady q)
    (coherent : Coherent after) (listed : Listed after)
    (filed : ∀ rfb ∈ after.rfCache, Filed after rfb) (clean : Clean after.disk.file) :
    Steady after := by
  constructor
  · exact undisturbed.sizes before.toSizes
  · rw [undisturbed.version]
    exact before.second
  · exact coherent
  · exact listed
  · exact filed
  · exact clean

theorem TablesKept.listed (kept : TablesKept q after) (listed : Listed q)
    (same : after.l2Cache = q.l2Cache) : Listed after := by
  unfold Listed
  rw [same, kept.table_size, kept.l1_table, kept.format]
  exact listed

theorem TablesKept.coherent (kept : TablesKept q after) (before : Steady q)
    (same : after.l2Cache = q.l2Cache) : Coherent after := by
  intro l2t member index early
  rw [same] at member
  rw [kept.l2t_size] at early ⊢
  rw [before.coherent l2t member index early,
    kept.tables _ (listed_named before.second before.listed member)]

theorem Undisturbed.all_filed (undisturbed : Undisturbed q after) (before : Steady q)
    (same : after.rfCache = q.rfCache) : ∀ rfb ∈ after.rfCache, Filed after rfb := by
  intro rfb member
  rw [same] at member
  exact undisturbed.filed (before.filed rfb member)

theorem Undisturbed.consistent (undisturbed : Undisturbed q after) (before : Steady q)
    (steady : Steady after) (consistent : Consistent q) : Consistent after := by
  intro index
  rw [undisturbed.count before steady, consistent index, references, references,
    undisturbed.data before.coherent steady.coherent, undisturbed.metadata,
    undisturbed.cluster_size]

end Keeping

end VirtioDisk.RefcountConsistency
