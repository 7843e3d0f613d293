import VirtioDisk.QuietCalls

/-!
Calls whose allocation comes to a free cluster. Its count goes up, in the file or in
the cached block only, and the call fails in either case: it takes the cluster for an
error, or the error for a cluster. Nothing refers to the cluster afterwards.
-/

namespace VirtioDisk.LeakedClusters

open ByteStore Extents LruCache OwnedClusters QcowByteArray QcowImage QcowReference QcowWrite
open QuietCalls RefcountConsistency ReadWrite
open QcowRead (qcow1Version qcow2OflagCopied qcow2OflagCompressed qcow2OffsetMask)

/-- The scan comes to the cluster, which is free. The index in the source is a `u32`. -/
def SomeFree (m : Machine) (q : Qcow) (clustIdx : UInt64) : Prop :=
  ∃ middle, ScanReaches m q middle ∧ clustIdx = nextCluster middle ∧
    BlockThere middle clustIdx ∧ count middle clustIdx.toNat = 0 ∧ clustIdx.toNat + 1 < 2 ^ 32

def BlockAlone (q : Qcow) (clustIdx : UInt64) : Prop :=
  ∀ index, touches q.clusterSize index
    ⟨(q.rfTable (rftIndex q clustIdx)).toNat, q.clusterSize⟩ → count q index = 1

/-- A cluster that is counted, and to which nothing refers. -/
structure Leaked (q : Qcow) (index : Nat) : Prop where
  sizes : Sizes q
  second : q.version ≠ qcow1Version
  coherent : Coherent q
  unreferenced : references q index = 0
  counted : count q index = 1

theorem Leaked.inconsistent {q : Qcow} {index : Nat} (leaked : Leaked q index) :
    ¬ Consistent q := by
  intro consistent
  have none := consistent index
  rw [leaked.counted, leaked.unreferenced] at none
  cases none

section Scan
variable {m : Machine} {q : Qcow} {clustIdx : UInt64}

theorem scan_counted (steady : Steady q) (free : SomeFree m q clustIdx) :
    ∃ last after, scanClusters m m.fuel q 1 0 0 = .ok (some last, after) ∧ Scanned q after ∧
      BlockThere after clustIdx ∧ (last + 1).toUInt64 - UInt64.ofNat 1 = clustIdx := by
  obtain ⟨middle, reached, rfl, there, none, small⟩ := free
  obtain ⟨before, fuel, last, scan⟩ := reached_scan steady reached
  obtain ⟨ended, behind, _⟩ := scan_takes m before.steady (.counted there none) fuel last
  obtain ⟨_, after, _, same, _, _, cached⟩ := next_count m before.steady there
  rw [same] at cached
  exact ⟨middle.freeClustIdx.toUInt32, taken m middle, scan.trans ended, before.trans behind,
    cached, last_next _ small⟩

theorem SomeFree.free (free : SomeFree m q clustIdx) (steady : Steady q) :
    count q clustIdx.toNat = 0 := by
  obtain ⟨middle, reached, _, _, none, _⟩ := free
  obtain ⟨scanned, _⟩ := reached_scan steady reached
  rw [← scanned.undisturbed.count steady scanned.steady, none]

theorem SomeFree.turns (free : SomeFree m q clustIdx) : 0 < m.fuel := by
  obtain ⟨_, reached, _⟩ := free
  obtain ⟨fuel, turns⟩ := reached.turns
  omega

end Scan

/-! The count. -/

section Count
variable {m : Machine} {q after : Qcow} {clustIdx : UInt64}

theorem raised_leaks (disk : ImageFile) (rfb : RefcountBlock) (steady : Steady q) (consistent : Consistent q)
    (there : BlockThere q clustIdx) (alone : BlockAlone q clustIdx)
    (free : count q clustIdx.toNat = 0)
    (offset : rfb.offset = q.rfTable (rftIndex q clustIdx))
    (linked : (lookup RefcountBlock.offset rfb.offset q.rfCache).isSome)
    (raised : rfb.entries (rfbIndex q clustIdx) = 1)
    (wrote : WroteInside q.disk disk rfb.offset.toNat q.clusterSize) :
    TablesKept q (setBlock { q with disk := disk } rfb) ∧
      Leaked (setBlock { q with disk := disk } rfb) clustIdx.toNat := by
  have kept : TablesKept q (setBlock { q with disk := disk } rfb) := by
    refine ⟨rfl, ?_⟩
    intro base named
    apply stored_table_outside
    intro position holds
    have once (index : Nat) (here : touches q.clusterSize index
        ⟨(q.rfTable (rftIndex q clustIdx)).toNat, q.clusterSize⟩) :
        uses q.clusterSize ((namedBlocks q).map fun block => ⟨block.toNat, q.clusterSize⟩) index +
          uses q.clusterSize ((namedTables q).map fun base => ⟨base.toNat, 8 * q.l2tSize⟩) index
          ≤ 1 := by
      have one := alone index here
      rw [consistent, references, metadata, nodeExtents, uses_append, uses_append] at one
      omega
    have apart : ¬ (⟨rfb.offset.toNat, q.clusterSize⟩ : Range).Holds position := by
      rw [offset]
      intro shared
      exact used_once_apart once (List.mem_map_of_mem (named_block there.covered there.named))
        (List.mem_map_of_mem named) shared holds
    simp only [Range.Holds] at apart
    exact wrote.outside position (by omega)
  have coherent := kept.coherent steady rfl
  refine ⟨kept, kept.sizes steady.toSizes, ?_, coherent, ?_, ?_⟩
  · rw [kept.version]
    exact steady.second
  · rw [references, kept.data steady.coherent coherent, kept.metadata, kept.cluster_size,
      ← references, ← consistent, free]
  · obtain ⟨node, found⟩ := Option.isSome_iff_exists.mp linked
    have hit : lookup RefcountBlock.offset ((setBlock { q with disk := disk } rfb).rfTable
        (clustIdx.toNat / 2 ^ ((setBlock { q with disk := disk } rfb).header.clusterBits - 1)))
        (setBlock { q with disk := disk } rfb).rfCache = some rfb := by
      change lookup RefcountBlock.offset (q.rfTable (rftIndex q clustIdx)) _ = _
      rw [← offset]
      exact lookup_update found rfl
    have one : refcount (setBlock { q with disk := disk } rfb) clustIdx.toNat = 1 := by
      simp only [refcount, hit]
      exact raised
    have covered : clustIdx.toNat / 2 ^ (q.header.clusterBits - 1) < q.rfSize ∧
        q.rfTable (clustIdx.toNat / 2 ^ (q.header.clusterBits - 1)) ≠ 0 :=
      ⟨there.covered, there.named⟩
    have counts : count (setBlock { q with disk := disk } rfb) clustIdx.toNat =
        (refcount (setBlock { q with disk := disk } rfb) clustIdx.toNat).toNat := if_pos covered
    rw [counts, one]
    rfl

theorem BlockAlone.undisturbed (alone : BlockAlone q clustIdx) (undisturbed : Undisturbed q after)
    (before : Steady q) (steady : Steady after) : BlockAlone after clustIdx := by
  intro index here
  rw [rftIndex, undisturbed.header, undisturbed.rf_table, undisturbed.cluster_size] at here
  rw [undisturbed.count before steady]
  exact alone index here

theorem update_leaks (m : Machine) (fuel : Nat) (steady : Steady q) (consistent : Consistent q)
    (there : BlockThere q clustIdx) (alone : BlockAlone q clustIdx)
    (free : count q clustIdx.toNat = 0) :
    ∃ marked after, updateClusterRefcount m (fuel + 1) q clustIdx 1 = .ok (marked, after) ∧
      TablesKept q after ∧ after.l2Cache = q.l2Cache ∧ Leaked after clustIdx.toNat := by
  obtain ⟨rfb, next, read, found⟩ := read_block_found m steady there
  have same := found.undisturbed
  have cached := found_there there found
  have place : rftIndex next clustIdx = rftIndex q clustIdx := by
    rw [rftIndex, rftIndex, same.header]
  have none : count next clustIdx.toNat = 0 := by rw [same.count steady found.steady, free]
  have lone := alone.undisturbed same steady found.steady
  have block : rfb.offset = next.rfTable (rftIndex next clustIdx) := by
    rw [place, same.rf_table]
    exact found.offset
  obtain ⟨node, linked⟩ : ∃ node, lookup RefcountBlock.offset rfb.offset next.rfCache =
    some node := lookup_of_mem found.linked rfl
  have key := lookup_key linked
  have filed := found.steady.filed node (lookup_mem linked)
  have early := rfb_index_lt found.steady clustIdx
  have inside : ¬ node.size ≤ rfbIndex next clustIdx := by
    have size := filed.size
    omega
  have zero : node.entries (rfbIndex next clustIdx) = 0 := by
    apply UInt16.toNat_inj.mp
    rw [filed_counts found.steady cached filed (key.trans block), none]
    rfl
  have updated : updateClusterRefcount m (fuel + 1) q clustIdx 1 =
      updateBlock next rfb.offset clustIdx 1 := by
    simp only [updateClusterRefcount, read]
  rw [updated]
  simp only [updateBlock, linked, if_neg inside, writeRefcountBlock, if_true, zero]
  have wrote := sync_inside found.steady.clean (entriesBytes
    (fun i => if i = rfbIndex next clustIdx then 0 + 1 else node.entries i) node.size) node.offset
  have whole : 2 * node.size = next.clusterSize := by rw [filed.size, whole_cluster found.steady]
  rw [entries_length, whole] at wrote
  rcases stores : qcowPwriteSync next.disk (entriesBytes
    (fun i => if i = rfbIndex next clustIdx then 0 + 1 else node.entries i) node.size) node.offset
    with ⟨all, disk⟩
  rw [stores] at wrote
  have leaks (dirty : Bool) := raised_leaks disk ⟨node.offset, node.size, dirty,
    fun i => if i = rfbIndex next clustIdx then 0 + 1 else node.entries i⟩ found.steady
    (same.consistent steady found.steady consistent) cached lone none (key.trans block)
    (Option.isSome_iff_exists.mpr ⟨node, by rw [key]; exact linked⟩) (if_pos rfl) wrote
  cases all with
  | false =>
      obtain ⟨kept, leaked⟩ := leaks true
      exact ⟨false, _, rfl, same.toTablesKept.trans kept, found.tables, leaked⟩
  | true =>
      obtain ⟨kept, leaked⟩ := leaks false
      exact ⟨true, _, rfl, same.toTablesKept.trans kept, found.tables, leaked⟩

theorem alloc_leaks {size : Nat} (steady : Steady q) (consistent : Consistent q)
    (free : SomeFree m q clustIdx) (alone : BlockAlone q clustIdx)
    (one : (size + (q.clusterSize - 1)) / q.clusterSize = 1) :
    ∃ got after, qcowAllocClusters m q size true = .ok (got, after) ∧ TablesKept q after ∧
      after.l2Cache = q.l2Cache ∧ Leaked after clustIdx.toNat := by
  obtain ⟨last, next, scan, scanned, there, first⟩ := scan_counted steady free
  obtain ⟨fuel, turns⟩ := Nat.exists_eq_succ_of_ne_zero free.turns.ne'
  have none : count next clustIdx.toNat = 0 := by
    rw [scanned.undisturbed.count steady scanned.steady, free.free steady]
  obtain ⟨marked, after, updated, kept, tables, leaked⟩ := update_leaks m fuel scanned.steady
    (scanned.undisturbed.consistent steady scanned.steady consistent) there
    (alone.undisturbed scanned.undisturbed steady scanned.steady) none
  rw [← first] at updated
  have turns_ : m.fuel = fuel + 1 := turns
  rw [← turns_] at updated
  exact ⟨_, after, alloc_marks one scan updated, scanned.undisturbed.toTablesKept.trans kept,
    tables.trans scanned.tables, leaked⟩

end Count

/-! The calls. -/

section Calls
variable {m : Machine} {q after : Qcow} {offset clustIdx : UInt64} {index : Nat}

theorem Leaked.kept (leaked : Leaked q index) (kept : Kept q after) (coherent : Coherent after) :
    Leaked after index := by
  have same := (kept_undisturbed kept).toTablesKept
  have blocks : after.rfCache = q.rfCache := by
    have equal := congrArg Qcow.rfCache kept.same
    exact equal
  refine ⟨same.sizes leaked.sizes, by rw [same.version]; exact leaked.second, coherent, ?_, ?_⟩
  · rw [references, same.data leaked.coherent coherent, same.metadata, same.cluster_size,
      ← references, leaked.unreferenced]
  · rw [← leaked.counted]
    simp only [count, refcount, same.header, same.rf_size, same.rf_table, blocks, kept.disk.1]

theorem Leaked.buffered (leaked : Leaked q index) (buffer : Nat → UInt8) :
    Leaked { q with copyBuff := buffer } index :=
  ⟨⟨leaked.sizes.sectors, leaked.sizes.narrow, leaked.sizes.l2Bits⟩, leaked.second,
    leaked.coherent, leaked.unreferenced, leaked.counted⟩

/-- The error of an allocation that has counted the cluster, as the place of a table. -/
theorem move_leaks {l1tIdx l2tIdx : Nat} {old : UInt64} {found : Option (UInt64 × Nat)}
    (positive : 0 < m.fuel) (leaked : Leaked q index)
    (moved : moveTable m q l1tIdx l2tIdx old (-1) = .ok (found, after)) :
    found = none ∧ Leaked after index := by
  by_cases first : old = 0
  · rw [first, move_error positive leaked.sizes] at moved
    cases moved
    exact ⟨rfl, leaked⟩
  · simp only [moveTable, if_neg first] at moved
    rcases read : qcowReadL2Table q old with ⟨l2t, middle⟩
    rw [read] at moved
    cases l2t with
    | none =>
        have kept := read_table_kept read
        have still := leaked.kept kept (leaked.coherent.kept kept (read_table_none read))
        have freed := free_error positive still.sizes
        rw [(kept_undisturbed kept).cluster_size] at freed
        simp only [freed, bind, Except.bind] at moved
        cases moved
        exact ⟨rfl, still⟩
    | some l2t =>
        simp only at moved
        split at moved
        · cases moved
        · cases moved

theorem store_leaks {table start flags : UInt64} {l2tIdx clustOff : Nat} {src : List UInt8}
    {nr : Option Nat} (positive : 0 < m.fuel) (leaked : Leaked q index) (buffer : Nat → UInt8)
    (stored : storeCopy m { q with copyBuff := buffer } table l2tIdx (-1) start flags clustOff src =
      .ok (nr, after)) : nr = none ∧ Leaked after index := by
  rw [store_error positive (leaked.buffered buffer).sizes] at stored
  cases stored
  exact ⟨rfl, (leaked.buffered buffer).buffered _⟩

theorem copy_leaks {table start flags : UInt64} {l2tIdx clustOff : Nat} {src : List UInt8}
    {nr : Option Nat} {got : UInt64} {next : Qcow} (positive : 0 < m.fuel)
    (allocated : qcowAllocClusters m q q.clusterSize true = .ok (got, next))
    (leaked : Leaked next index)
    (cached : (lookup L2Table.offset (l2tOffset next offset) next.l2Cache).isSome)
    (copied : copyCluster m q table l2tIdx offset start flags clustOff src = .ok (nr, after)) :
    nr = none ∧ Leaked after index := by
  simp only [copyCluster, allocated, bind, Except.bind] at copied
  split at copied
  · cases copied
    exact ⟨rfl, leaked⟩
  · next error =>
      rw [not_not.mp error] at copied
      split at copied
      · rcases read : qcow2ReadCluster next (clusterStart next offset) next.clusterSize with
          ⟨result, behind⟩
        have reads : qcowReadCluster next (clusterStart next offset) next.clusterSize =
            (result, behind) := by
          rw [qcowReadCluster, if_neg leaked.second]
          exact read
        have base : l2tOffset next (clusterStart next offset) = l2tOffset next offset := by
          rw [l2tOffset, l2tOffset, (cluster_start_same leaked.sizes offset).1]
        have whole : tableWhole next (clusterStart next offset) := by
          rw [tableWhole, loadsWhole, base, cached, Bool.true_or, Bool.or_true]
        have kept := read_cluster_kept reads
        have still := leaked.kept kept (read_cluster_coherent leaked.coherent whole reads)
        have read_ : qcow2ReadCluster next (offset &&& ~~~(UInt64.ofNat next.clusterSize - 1))
          next.clusterSize = (result, behind) := read
        rw [read_] at copied
        cases result with
        | wild => cases copied
        | error =>
            simp only [free_error positive still.sizes] at copied
            cases copied
            exact ⟨rfl, still⟩
        | zero length => exact store_leaks positive still _ copied
        | data length bytes => exact store_leaks positive still _ copied
      · exact store_leaks positive leaked _ copied

/-- A call that needs a table, and for which a cluster is free, leaves the cluster counted. -/
theorem free_table_leaks {buf : List UInt8} {nr : Option Nat} (steady : Steady q)
    (consistent : Consistent q) (covered : getL1Index q offset < q.tableSize)
    (shared : l1Entry q offset.toNat &&& qcow2OflagCopied = 0) (free : SomeFree m q clustIdx)
    (alone : BlockAlone q clustIdx) (wrote : qcowWriteCluster m q offset buf = .ok (nr, after)) :
    nr = none ∧ Leaked after clustIdx.toNat := by
  obtain ⟨got, middle, allocated, _, _, leaked⟩ :=
    alloc_leaks steady consistent free alone (table_clusters steady.toSizes)
  have shared_ : ¬ q.l1Table (getL1Index q offset) &&& qcow2OflagCopied ≠ 0 := not_not.mpr shared
  simp only [qcowWriteCluster, if_neg (offset_inside q offset)] at wrote
  obtain ⟨⟨found, behind⟩, table, wrote⟩ := Transition.bind_ok wrote
  rw [getClusterTable, if_neg (Nat.not_le.mpr covered),
    if_neg (Nat.not_le.mpr (l2_index_lt q offset))] at table
  simp only [if_neg shared_, allocated, bind, Except.bind] at table
  split at table
  · cases table
    cases wrote
    exact ⟨rfl, leaked⟩
  · next error =>
      rw [not_not.mp error] at table
      obtain ⟨rfl, still⟩ := move_leaks free.turns leaked table
      cases wrote
      exact ⟨rfl, still⟩

theorem free_cluster_leaks {buf : List UInt8} {nr : Option Nat} (steady : Steady q)
    (consistent : Consistent q) (covered : getL1Index q offset < q.tableSize)
    (copied : l1Entry q offset.toNat &&& qcow2OflagCopied ≠ 0) (named : l2tOffset q offset ≠ 0)
    (whole : tableWhole q offset) (shared : l2Entry q offset.toNat &&& qcow2OflagCopied = 0)
    {l2t : L2Table} {middle : Qcow}
    (read : qcowReadL2Table q (l2tOffset q offset) = (some l2t, middle))
    (free : SomeFree m middle clustIdx) (alone : BlockAlone middle clustIdx)
    (wrote : qcowWriteCluster m q offset buf = .ok (nr, after)) :
    nr = none ∧ Leaked after clustIdx.toNat := by
  have undisturbed := kept_undisturbed (read_table_kept read)
  have still := read_table_steady steady covered named (table_loads covered named whole) read
  obtain ⟨cached, equal⟩ := read_call m buf steady covered copied named whole read
  rw [if_pos shared] at equal
  rw [equal] at wrote
  obtain ⟨got, next, allocated, kept, tables, leaked⟩ := alloc_leaks still
    (undisturbed.consistent steady still consistent) free alone (one_cluster middle)
  apply copy_leaks free.turns allocated leaked ?_ wrote
  rw [kept.l2t_offset, undisturbed.l2t_offset, tables]
  exact cached

end Calls

end VirtioDisk.LeakedClusters
