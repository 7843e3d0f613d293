import VirtioDisk.RefcountConsistency
import VirtioDisk.WordMasks

/-!
Calls of `qcow_write_cluster` that change no count and no reference: those that end
before they need a cluster, those that write in place, and those whose allocation
ends before it has found a free cluster. The last ones go on with the error as the
offset of the new cluster, which no write and no release accepts.
-/

namespace VirtioDisk.QuietCalls

open ByteStore Extents LruCache OwnedClusters QcowByteArray QcowImage QcowReference QcowWrite
open RefcountConsistency ReadWrite WordMasks
open QcowRead (int_one_pos int_one_small qcow1Version qcow2OflagCopied qcow2OflagCompressed
  qcow2OffsetMask part part_le)

/-! Tables. -/

section Tables
variable {q after : Qcow} {found : Option L2Table}

theorem kept_undisturbed (kept : Kept q after) : Undisturbed q after := by
  refine ⟨⟨?_, ?_⟩, ?_⟩
  · have back := congrArg (fun r : Qcow => { r with
      rfCache := q.rfCache, freeClustIdx := q.freeClustIdx, copyBuff := q.copyBuff }) kept.same
    exact back
  · intro base _
    rw [kept.disk.1]
  · intro block _ index _
    rw [kept.disk.1]

theorem kept_steady (kept : Kept q after) (steady : Steady q) (coherent : Coherent after)
    (listed : Listed after) : Steady after := by
  have blocks := congrArg Qcow.rfCache kept.same
  have undisturbed := kept_undisturbed kept
  apply undisturbed.steady steady coherent listed (undisturbed.all_filed steady blocks)
  rw [kept.disk.1]
  exact steady.clean

theorem read_table_steady {index : Nat} (steady : Steady q) (covered : index < q.tableSize)
    (named : q.l1Table index &&& q.format.l2Mask ≠ 0)
    (whole : loadsWhole q (q.l1Table index &&& q.format.l2Mask))
    (read : qcowReadL2Table q (q.l1Table index &&& q.format.l2Mask) = (found, after)) :
    Steady after :=
  kept_steady (read_table_kept read) steady (read_table_spec steady.coherent whole read).1
    (read_table_listed steady.listed covered named read)

theorem unread_table_steady {base : UInt64} (steady : Steady q)
    (read : qcowReadL2Table q base = (none, after)) : Steady after := by
  have kept := read_table_kept read
  have cached := read_table_none read
  exact kept_steady kept steady (steady.coherent.kept kept cached)
    ((kept_undisturbed kept).listed steady.listed cached)

end Tables

/-! Blocks. -/

/-- The refcount block of the cluster is cached, or the host reads all of it. -/
structure BlockThere (q : Qcow) (clustIdx : UInt64) : Prop where
  covered : rftIndex q clustIdx < q.rfSize
  named : q.rfTable (rftIndex q clustIdx) ≠ 0
  whole : (lookup RefcountBlock.offset (q.rfTable (rftIndex q clustIdx)) q.rfCache).isSome ∨
    ∃ bytes, (preadInFull q.disk q.clusterSize (q.rfTable (rftIndex q clustIdx))).1 = some bytes ∧
      bytes.length = q.clusterSize

/-- What reading a block gives, and leaves. -/
structure BlockFound (q after : Qcow) (clustIdx : UInt64) (rfb : RefcountBlock) : Prop where
  undisturbed : Undisturbed q after
  steady : Steady after
  tables : after.l2Cache = q.l2Cache
  free : after.freeClustIdx = q.freeClustIdx
  linked : rfb ∈ after.rfCache
  offset : rfb.offset = q.rfTable (rftIndex q clustIdx)
  counts : (rfb.entries (rfbIndex q clustIdx)).toNat = count q clustIdx.toNat

section Blocks
variable {q after : Qcow} {clustIdx : UInt64} {m : Machine}

theorem rfb_index_lt (steady : Steady q) (clustIdx : UInt64) :
    rfbIndex q clustIdx < q.clusterSize / 2 := by
  rw [half_cluster steady]
  exact Nat.mod_lt _ (Nat.two_pow_pos _)

theorem filed_counts (steady : Steady q) (there : BlockThere q clustIdx) {rfb : RefcountBlock}
    (filed : Filed q rfb) (offset : rfb.offset = q.rfTable (rftIndex q clustIdx)) :
    (rfb.entries (rfbIndex q clustIdx)).toNat = count q clustIdx.toNat := by
  rw [count_stored steady there.covered there.named, filed.entries _ (rfb_index_lt steady _),
    offset]
  rfl

/-- New memory that was filled by the read up to its end. -/
theorem loaded_filed (there : BlockThere q clustIdx) (heap : Nat → UInt8)
    {bytes : List UInt8}
    (read : (preadInFull q.disk q.clusterSize (q.rfTable (rftIndex q clustIdx))).1 = some bytes)
    (length : bytes.length = q.clusterSize) :
    Filed q ⟨q.rfTable (rftIndex q clustIdx), q.clusterSize / 2, false, be16 heap bytes⟩ := by
  refine ⟨rfl, named_block there.covered there.named, ?_⟩
  intro index early
  obtain ⟨nr, _, inside, content⟩ := pread_in_full_spec read
  rw [content, length_readRange] at length
  subst length
  have positive : 0 < q.clusterSize := Nat.two_pow_pos _
  have within := inside positive
  have byte (i : Nat) (less : i < q.clusterSize) :
      bytes.getD i (heap i) =
        cell q.disk.file ((q.rfTable (rftIndex q clustIdx)).toNat + i) := by
    rw [content, List.getD_eq_getElem?_getD, List.getElem?_eq_getElem (by simpa using less),
      getElem_readRange, cell, if_pos (by omega)]
    rfl
  simp only [be16, storedCount]
  rw [byte _ (by omega), byte _ (by omega)]
  rfl

theorem whole_cluster (steady : Steady q) : 2 * (q.clusterSize / 2) = q.clusterSize := by
  have sectors := steady.sectors
  have succ : q.header.clusterBits = q.header.clusterBits - 1 + 1 := by omega
  rw [half_cluster steady, Qcow.clusterSize]
  conv_rhs => rw [succ, Nat.pow_succ]
  omega

theorem reblocked {nodes : List RefcountBlock} {disk : ImageFile} (steady : Steady q)
    (same : SameFile q.disk disk) (filed : ∀ rfb ∈ nodes, Filed q rfb) :
    Undisturbed q { q with rfCache := nodes, disk := disk } ∧
      Steady { q with rfCache := nodes, disk := disk } := by
  have undisturbed : Undisturbed q { q with rfCache := nodes, disk := disk } := by
    refine ⟨⟨rfl, ?_⟩, ?_⟩
    · intro base _
      rw [same.1]
    · intro block _ index _
      rw [same.1]
  refine ⟨undisturbed, undisturbed.steady steady (undisturbed.coherent steady rfl)
    (undisturbed.listed steady.listed rfl) ?_ ?_⟩
  · exact fun rfb member => undisturbed.filed (filed rfb member)
  · rw [same.1]
    exact steady.clean

theorem read_block_found (m : Machine) (steady : Steady q) (there : BlockThere q clustIdx) :
    ∃ rfb after, qcowReadRefcountBlock m q clustIdx = (.found rfb, after) ∧
      BlockFound q after clustIdx rfb := by
  unfold qcowReadRefcountBlock
  rw [if_neg (Nat.not_le.mpr there.covered)]
  simp only [if_neg there.named, refcountBlockSearch]
  cases hit : lookup RefcountBlock.offset (q.rfTable (rftIndex q clustIdx)) q.rfCache with
  | some rfb =>
      have filed := steady.filed rfb (lookup_mem hit)
      have touched : ∀ other ∈ touch RefcountBlock.offset (q.rfTable (rftIndex q clustIdx))
        q.rfCache, Filed q other := forall_touch steady.filed
      obtain ⟨undisturbed, still⟩ := reblocked steady ⟨rfl, rfl⟩ touched
      exact ⟨rfb, _, rfl, undisturbed, still, rfl, rfl, touch_mem hit, lookup_key hit,
        filed_counts steady there filed (lookup_key hit)⟩
  | none =>
      obtain ⟨bytes, read, length⟩ := there.whole.resolve_left (by simp [hit])
      have whole := whole_cluster steady
      have same := pread_in_full_same q.disk q.clusterSize (q.rfTable (rftIndex q clustIdx))
      rcases loaded : preadInFull q.disk q.clusterSize (q.rfTable (rftIndex q clustIdx)) with
        ⟨got, disk⟩
      rw [loaded] at same read
      cases read
      simp only [Option.map_none, whole, loaded]
      have filed := loaded_filed there m.heap (congrArg Prod.fst loaded) length
      have inserted : ∀ other ∈ insert maxCacheNodes _ q.rfCache, Filed q other :=
        forall_insert filed steady.filed
      obtain ⟨undisturbed, still⟩ := reblocked steady same inserted
      exact ⟨_, _, rfl, undisturbed, still, rfl, rfl, insert_mem _ _ _, rfl,
        filed_counts steady there filed rfl⟩

/-- What was read once is cached. -/
theorem found_there {rfb : RefcountBlock} (there : BlockThere q clustIdx)
    (found : BlockFound q after clustIdx rfb) : BlockThere after clustIdx := by
  have place : rftIndex after clustIdx = rftIndex q clustIdx := by
    rw [rftIndex, rftIndex, found.undisturbed.header]
  constructor
  · rw [place, found.undisturbed.rf_size]
    exact there.covered
  · rw [place, found.undisturbed.rf_table]
    exact there.named
  · left
    rw [place, found.undisturbed.rf_table]
    exact Option.isSome_iff_exists.mpr (lookup_of_mem found.linked found.offset)

theorem refcount_found {rfb : RefcountBlock} (steady : Steady q)
    (read : qcowReadRefcountBlock m q clustIdx = (.found rfb, after))
    (found : BlockFound q after clustIdx rfb) :
    qcowGetRefcount m q clustIdx = (rfb.entries (rfbIndex q clustIdx), after) := by
  have place : rfbIndex after clustIdx = rfbIndex q clustIdx := by
    rw [rfbIndex, rfbIndex, found.undisturbed.header]
  have inside : ¬ rfb.size ≤ rfbIndex q clustIdx := by
    have size := (found.steady.filed rfb found.linked).size
    rw [found.undisturbed.cluster_size] at size
    have early := rfb_index_lt steady clustIdx
    omega
  simp only [qcowGetRefcount, read, place, if_neg inside]

end Blocks

/-! The scan. -/

def nextCluster (q : Qcow) : UInt64 := q.freeClustIdx.toUInt32.toUInt64

def advanced (q : Qcow) : Qcow := { q with freeClustIdx := q.freeClustIdx + 1 }

/-- The scan of `qcow_alloc_clusters` passes over so many used clusters. -/
inductive Passed (m : Machine) : Nat → Qcow → Qcow → Prop where
  | here (q : Qcow) : Passed m 0 q q
  | used {n : Nat} {q after : Qcow} : BlockThere q (nextCluster q) →
      0 < count q (nextCluster q).toNat → count q (nextCluster q).toNat < 65535 →
      Passed m n (qcowReadRefcountBlock m (advanced q) (nextCluster q)).2 after →
      Passed m (n + 1) q after

/-- The host refuses the block of the next cluster, or its count is taken for an error. -/
inductive ScanFails (q : Qcow) : Prop where
  | refused : rftIndex q (nextCluster q) < q.rfSize → q.rfTable (rftIndex q (nextCluster q)) ≠ 0 →
      lookup RefcountBlock.offset (q.rfTable (rftIndex q (nextCluster q))) q.rfCache = none →
      (preadInFull q.disk q.clusterSize (q.rfTable (rftIndex q (nextCluster q)))).1 = none →
      ScanFails q
  | saturated : BlockThere q (nextCluster q) → count q (nextCluster q).toNat = 65535 → ScanFails q

/-- There is no block for the next cluster, but a place for it in the refcount table. -/
structure Blockless (q : Qcow) : Prop where
  covered : rftIndex q (nextCluster q) < q.rfSize
  unnamed : q.rfTable (rftIndex q (nextCluster q)) = 0

/-- The next cluster is free, as the allocator sees it. -/
inductive ScanTakes (q : Qcow) : Prop where
  | counted : BlockThere q (nextCluster q) → count q (nextCluster q).toNat = 0 → ScanTakes q
  | blockless : Blockless q → ScanTakes q
  | beyond : q.rfSize ≤ rftIndex q (nextCluster q) → ScanTakes q

/-- What the scan keeps. -/
structure Scanned (q after : Qcow) : Prop where
  undisturbed : Undisturbed q after
  steady : Steady after
  tables : after.l2Cache = q.l2Cache

section Scan
variable {m : Machine} {q middle after : Qcow} {n fuel : Nat} {last : UInt32}

theorem Scanned.refl (steady : Steady q) : Scanned q q := ⟨Undisturbed.refl q, steady, rfl⟩

theorem Scanned.trans (first : Scanned q middle) (second : Scanned middle after) :
    Scanned q after :=
  ⟨first.undisturbed.trans second.undisturbed, second.steady, second.tables.trans first.tables⟩

theorem advanced_scanned (steady : Steady q) : Scanned q (advanced q) := by
  have undisturbed : Undisturbed q (advanced q) := ⟨⟨rfl, fun _ _ => rfl⟩, fun _ _ _ _ => rfl⟩
  exact ⟨undisturbed, undisturbed.steady steady steady.coherent steady.listed
    (undisturbed.all_filed steady rfl) steady.clean, rfl⟩

theorem scan_turn (m : Machine) (fuel : Nat) (q : Qcow) (last : UInt32) :
    scanClusters m (fuel + 1) q 1 0 last =
      match qcowGetRefcount m (advanced q) (nextCluster q) with
      | (refcount, after) =>
          if refcount = -1 then .ok (none, after)
          else if 0 < refcount then scanClusters m fuel after 1 0 q.freeClustIdx.toUInt32
          else scanClusters m fuel after 1 1 q.freeClustIdx.toUInt32 := rfl

/-- The count of the next cluster, and the state behind it. -/
theorem next_count (m : Machine) (steady : Steady q) (there : BlockThere q (nextCluster q)) :
    ∃ refcount after, qcowGetRefcount m (advanced q) (nextCluster q) = (refcount, after) ∧
      after = (qcowReadRefcountBlock m (advanced q) (nextCluster q)).2 ∧
      refcount.toNat = count q (nextCluster q).toNat ∧ Scanned q after ∧
      BlockThere after (nextCluster q) := by
  have first := advanced_scanned steady
  have here : BlockThere (advanced q) (nextCluster q) :=
    ⟨there.covered, there.named, there.whole⟩
  obtain ⟨rfb, after, read, found⟩ := read_block_found m first.steady here
  refine ⟨_, after, refcount_found first.steady read found, by rw [read], found.counts, ?_,
    found_there here found⟩
  exact first.trans ⟨found.undisturbed, found.steady, found.tables⟩

theorem passed_scan (steady : Steady q) (passed : Passed m n q middle) :
    Scanned q middle ∧ ∀ fuel last, ∃ last',
      scanClusters m (n + fuel) q 1 0 last = scanClusters m fuel middle 1 0 last' := by
  induction passed with
  | here q => exact ⟨Scanned.refl steady, fun fuel last => ⟨last, by rw [Nat.zero_add]⟩⟩
  | @used n q middle there some_ small rest ih =>
      obtain ⟨refcount, next, got, same, counts, first, _⟩ := next_count m steady there
      rw [← same] at ih
      obtain ⟨later, onward⟩ := ih first.steady
      refine ⟨first.trans later, ?_⟩
      intro fuel last
      obtain ⟨last', scan⟩ := onward fuel q.freeClustIdx.toUInt32
      have positive : 0 < refcount := by
        rw [UInt16.lt_iff_toNat_lt, counts]
        exact some_
      have sound : refcount ≠ -1 := by
        rintro rfl
        have top : (-1 : UInt16).toNat = 65535 := rfl
        omega
      refine ⟨last', ?_⟩
      have turns : n + 1 + fuel = n + fuel + 1 := by omega
      rw [turns, scan_turn, got]
      simp only [if_neg sound, if_pos positive]
      exact scan

theorem scan_fails (m : Machine) (steady : Steady q) (fails : ScanFails q) (fuel : Nat)
    (last : UInt32) :
    ∃ after, scanClusters m (fuel + 1) q 1 0 last = .ok (none, after) ∧ Scanned q after := by
  have first := advanced_scanned steady
  cases fails with
  | refused covered named missing refuses =>
      rw [scan_turn]
      have whole : 2 * (q.clusterSize / 2) = q.clusterSize := whole_cluster steady
      have same := pread_in_full_same q.disk q.clusterSize (q.rfTable (rftIndex q (nextCluster q)))
      rcases loaded : preadInFull q.disk q.clusterSize (q.rfTable (rftIndex q (nextCluster q))) with
        ⟨got, disk⟩
      rw [loaded] at same refuses
      cases refuses
      have read : qcowGetRefcount m (advanced q) (nextCluster q) =
          (-1, { advanced q with disk := disk }) := by
        have inside : ¬ (advanced q).rfSize ≤ rftIndex (advanced q) (nextCluster q) :=
          Nat.not_le.mpr covered
        have some_ : ¬ (advanced q).rfTable (rftIndex (advanced q) (nextCluster q)) = 0 := named
        have absent : refcountBlockSearch (advanced q)
            ((advanced q).rfTable (rftIndex (advanced q) (nextCluster q))) = none := by
          simp only [refcountBlockSearch, Option.map_eq_none_iff]
          exact missing
        have fails : preadInFull (advanced q).disk (2 * ((advanced q).clusterSize / 2))
            ((advanced q).rfTable (rftIndex (advanced q) (nextCluster q))) = (none, disk) := by
          rw [← loaded, ← whole]
          rfl
        simp only [qcowGetRefcount, qcowReadRefcountBlock, if_neg inside, if_neg some_, absent,
          fails]
      obtain ⟨undisturbed, still⟩ := reblocked first.steady same first.steady.filed
      refine ⟨_, ?_, first.trans ⟨undisturbed, still, rfl⟩⟩
      rw [read]
      rfl
  | saturated there full =>
      obtain ⟨refcount, after, got, _, counts, scanned, _⟩ := next_count m steady there
      have top : refcount = -1 := by
        apply UInt16.toNat_inj.mp
        rw [counts, full]
        rfl
      refine ⟨after, ?_, scanned⟩
      rw [scan_turn, got]
      simp only [if_pos top]

/-- The state behind the count of the next cluster. -/
def taken (m : Machine) (q : Qcow) : Qcow :=
  (qcowReadRefcountBlock m (advanced q) (nextCluster q)).2

theorem blockless_read (m : Machine) (blockless : Blockless q) :
    qcowReadRefcountBlock m (advanced q) (nextCluster q) = (.absent, advanced q) := by
  have inside : ¬ (advanced q).rfSize ≤ rftIndex (advanced q) (nextCluster q) :=
    Nat.not_le.mpr blockless.covered
  have unnamed : (advanced q).rfTable (rftIndex (advanced q) (nextCluster q)) = 0 :=
    blockless.unnamed
  simp only [qcowReadRefcountBlock, if_neg inside, if_pos unnamed]

theorem beyond_read (m : Machine) (reached : q.rfSize ≤ rftIndex q (nextCluster q)) :
    qcowReadRefcountBlock m (advanced q) (nextCluster q) = (.absent, advanced q) := by
  have absent : (advanced q).rfSize ≤ rftIndex (advanced q) (nextCluster q) := reached
  simp only [qcowReadRefcountBlock, if_pos absent]

theorem scan_takes (m : Machine) (steady : Steady q) (takes : ScanTakes q) (fuel : Nat)
    (last : UInt32) :
    scanClusters m (fuel + 2) q 1 0 last = .ok (some q.freeClustIdx.toUInt32, taken m q) ∧
      Scanned q (taken m q) ∧ count q (nextCluster q).toNat = 0 := by
  have first := advanced_scanned steady
  have absent (read : qcowReadRefcountBlock m (advanced q) (nextCluster q) =
      (.absent, advanced q)) :
      scanClusters m (fuel + 2) q 1 0 last = .ok (some q.freeClustIdx.toUInt32, taken m q) ∧
        Scanned q (taken m q) := by
    rw [taken, read, scan_turn, qcowGetRefcount, read]
    exact ⟨rfl, first⟩
  cases takes with
  | counted there none =>
      obtain ⟨refcount, after, got, same, counts, scanned, _⟩ := next_count m steady there
      have zero : refcount = 0 := by
        apply UInt16.toNat_inj.mp
        rw [counts, none]
        rfl
      rw [taken, ← same]
      refine ⟨?_, scanned, none⟩
      rw [scan_turn, got, zero]
      rfl
  | blockless blockless =>
      obtain ⟨scan, scanned⟩ := absent (blockless_read m blockless)
      refine ⟨scan, scanned, if_neg ?_⟩
      rintro ⟨_, named⟩
      exact named blockless.unnamed
  | beyond reached =>
      obtain ⟨scan, scanned⟩ := absent (beyond_read m reached)
      refine ⟨scan, scanned, if_neg ?_⟩
      rintro ⟨covered, _⟩
      exact absurd covered (Nat.not_lt.mpr reached)

theorem update_beyond (m : Machine) (fuel : Nat) {clustIdx : UInt64} (append : UInt16)
    (reached : q.rfSize ≤ rftIndex q clustIdx) :
    updateClusterRefcount m (fuel + 1) q clustIdx append = .ok (false, q) := by
  simp only [updateClusterRefcount, qcowReadRefcountBlock, qcowGrowRefcountBlock, if_pos reached,
    bind, Except.bind]

/-- The index that follows the last one of a `u32` wraps. -/
theorem last_word (index : UInt32) :
    ((index + 1).toUInt64 - UInt64.ofNat 1).toNat =
      if index.toNat + 1 < 2 ^ 32 then index.toNat else 2 ^ 64 - 1 := by
  have word := index.toNat_lt
  have one : (UInt64.ofNat 1).toNat = 1 := rfl
  have unit : (1 : UInt32).toNat = 1 := rfl
  rw [UInt64.toNat_sub, UInt32.toNat_toUInt64, UInt32.toNat_add, one, unit]
  split <;> omega

theorem last_le (index : UInt32) :
    index.toUInt64.toNat ≤ ((index + 1).toUInt64 - UInt64.ofNat 1).toNat := by
  have word := index.toNat_lt
  rw [last_word, UInt32.toNat_toUInt64]
  split <;> omega

theorem last_next (index : UInt32) (small : index.toUInt64.toNat + 1 < 2 ^ 32) :
    (index + 1).toUInt64 - UInt64.ofNat 1 = index.toUInt64 := by
  apply UInt64.toNat_inj.mp
  rw [UInt32.toNat_toUInt64] at small ⊢
  rw [last_word, if_pos small]

/-- The scan of an allocation comes to the state. -/
def ScanReaches (m : Machine) (q middle : Qcow) : Prop :=
  ∃ n, n + 2 ≤ m.fuel ∧ Passed m n q middle

theorem reached_scan (steady : Steady q) (reached : ScanReaches m q middle) :
    Scanned q middle ∧ ∃ fuel last,
      scanClusters m m.fuel q 1 0 0 = scanClusters m (fuel + 2) middle 1 0 last := by
  obtain ⟨n, enough, passed⟩ := reached
  obtain ⟨scanned, onward⟩ := passed_scan steady passed
  obtain ⟨fuel, turns⟩ : ∃ fuel, m.fuel = n + (fuel + 2) := ⟨m.fuel - n - 2, by omega⟩
  obtain ⟨last, scan⟩ := onward (fuel + 2) 0
  exact ⟨scanned, fuel, last, by rw [turns, scan]⟩

end Scan

/-! A write apart from the tables. -/

/-- The bytes are in no block and no table. -/
def Apart (q : Qcow) (start length : Nat) : Prop :=
  ∀ node ∈ nodeExtents q, ∀ position, node.Holds position →
    position < start ∨ start + length ≤ position

section Writes
variable {q : Qcow} {disk : ImageFile} {start length index : Nat}

theorem apart_quiet (steady : Steady q) (apart : Apart q start length)
    (wrote : WroteInside q.disk disk start length) :
    Undisturbed q { q with disk := disk } ∧ Steady { q with disk := disk } := by
  have undisturbed : Undisturbed q { q with disk := disk } := by
    refine ⟨⟨rfl, ?_⟩, ?_⟩
    · intro base named
      apply stored_table_outside
      intro position holds
      exact wrote.outside position (apart _ (table_extent named) position holds)
    · intro block named index early
      have low := wrote.outside _ (apart _ (block_extent named) (block.toNat + 2 * index)
        ⟨by dsimp only; omega, by dsimp only; omega⟩)
      have high := wrote.outside _ (apart _ (block_extent named) (block.toNat + 2 * index + 1)
        ⟨by dsimp only; omega, by dsimp only; omega⟩)
      simp only [storedCount, low, high]
  exact ⟨undisturbed, undisturbed.steady steady (undisturbed.coherent steady rfl)
    (undisturbed.listed steady.listed rfl) (undisturbed.all_filed steady rfl) wrote.clean⟩

/-- No block and no table is in a free cluster. -/
theorem free_apart (consistent : Consistent q) (free : count q index = 0) :
    Apart q (index * q.clusterSize) q.clusterSize := by
  intro node member position holds
  by_contra inside
  have positive : 0 < q.clusterSize := Nat.two_pow_pos _
  have place : position / q.clusterSize = index := by
    apply Nat.div_eq_of_lt_le
    · omega
    · rw [Nat.add_mul]
      omega
  have here := touches_holds q.clusterSize holds
  rw [consistent, references] at free
  rw [place] at here
  have none : uses q.clusterSize (metadata q) index = 0 := by omega
  exact uses_none none (List.mem_append_right _ member) here

end Writes

/-! The allocation. -/

/-- The growth of the refcount blocks fails: its own scan does, or the host does not write the
new block. -/
inductive GrowthFails (m : Machine) (q : Qcow) : Prop where
  | scan {middle : Qcow} : ScanReaches m q middle → ScanFails middle → GrowthFails m q
  | write {middle : Qcow} : ScanReaches m q middle → ScanTakes middle →
      (nextCluster middle).toNat + 1 < 2 ^ 32 →
      (qcowPwriteSync (taken m middle).disk (entriesBytes (fun _ => 0) (q.clusterSize / 2))
        (nextCluster middle <<< UInt64.ofNat q.header.clusterBits)).1 = false → GrowthFails m q

/-- The allocation fails and changes no count: its scan fails, or goes beyond the refcount
table, or comes to a cluster without a block and none can be made. -/
inductive NoneFree (m : Machine) (q : Qcow) : Prop where
  | scan {middle : Qcow} : ScanReaches m q middle → ScanFails middle → NoneFree m q
  | beyond {middle : Qcow} : ScanReaches m q middle →
      middle.rfSize ≤ rftIndex middle (nextCluster middle) → NoneFree m q
  | growth {middle : Qcow} : ScanReaches m q middle → Blockless middle →
      (nextCluster middle).toNat + 1 < 2 ^ 32 → GrowthFails m (advanced middle) → NoneFree m q

section Allocation
variable {m : Machine} {q middle after : Qcow} {clustIdx : UInt64}

theorem ScanReaches.turns (reached : ScanReaches m q middle) : ∃ fuel, m.fuel = fuel + 1 := by
  obtain ⟨n, enough, _⟩ := reached
  exact ⟨m.fuel - 1, by omega⟩

theorem NoneFree.turns (scarce : NoneFree m q) : 0 < m.fuel := by
  have positive {middle : Qcow} (reached : ScanReaches m q middle) : 0 < m.fuel := by
    obtain ⟨fuel, turns⟩ := reached.turns
    omega
  cases scarce with
  | scan reached _ => exact positive reached
  | beyond reached _ => exact positive reached
  | growth reached _ _ _ => exact positive reached

theorem one_cluster (q : Qcow) : (q.clusterSize + (q.clusterSize - 1)) / q.clusterSize = 1 := by
  have positive : 0 < q.clusterSize := Nat.two_pow_pos _
  exact Nat.div_eq_of_lt_le (by omega) (by omega)

theorem cluster_place (sizes : Sizes q) (clustIdx : UInt64) (small : clustIdx.toNat < 2 ^ 32) :
    (clustIdx <<< UInt64.ofNat q.header.clusterBits).toNat = clustIdx.toNat * q.clusterSize := by
  have narrow := sizes.narrow
  have size : q.clusterSize ≤ 2 ^ 30 := Nat.pow_le_pow_right (by decide) narrow
  have fits : clustIdx.toNat * q.clusterSize ≤ 2 ^ 32 * 2 ^ 30 :=
    Nat.mul_le_mul small.le size
  have bits : (UInt64.ofNat q.header.clusterBits).toNat % 64 = q.header.clusterBits := by
    rw [UInt64.toNat_ofNat']
    omega
  rw [UInt64.toNat_shiftLeft, bits, Nat.shiftLeft_eq]
  exact Nat.mod_eq_of_lt (Nat.lt_of_le_of_lt fits (by decide))

theorem growth_fails (update : Update) (steady : Steady q) (consistent : Consistent q)
    (covered : rftIndex q clustIdx < q.rfSize) (fails : GrowthFails m q) :
    ∃ after, qcowGrowRefcountBlock m update q clustIdx = .ok (none, after) ∧
      Scanned q after := by
  cases fails with
  | @scan middle reached fails =>
      obtain ⟨before, fuel, last, scan⟩ := reached_scan steady reached
      obtain ⟨after, ended, behind⟩ := scan_fails m before.steady fails (fuel + 1) last
      refine ⟨after, ?_, before.trans behind⟩
      simp only [qcowGrowRefcountBlock, if_neg (Nat.not_le.mpr covered), allocClusters,
        one_cluster, scan, ended, bind, Except.bind, if_true]
  | @write middle reached takes small refused =>
      obtain ⟨before, fuel, last, scan⟩ := reached_scan steady reached
      obtain ⟨ended, behind, free⟩ := scan_takes m before.steady takes fuel last
      have scanned := before.trans behind
      have size : (taken m middle).clusterSize = q.clusterSize := scanned.undisturbed.cluster_size
      have bits : (taken m middle).header = q.header := scanned.undisturbed.header
      have next : (middle.freeClustIdx.toUInt32 + 1).toUInt64 - UInt64.ofNat 1 =
          nextCluster middle := last_next _ small
      have place := cluster_place steady.toSizes (nextCluster middle) (by omega)
      have sound : nextCluster middle <<< UInt64.ofNat q.header.clusterBits ≠ -1 := by
        intro minus
        have top : (-1 : UInt64).toNat = 2 ^ 64 - 1 := rfl
        have narrow : q.clusterSize ≤ 2 ^ 30 :=
          Nat.pow_le_pow_right (by decide) steady.narrow
        have fits := Nat.mul_le_mul (by omega : (nextCluster middle).toNat ≤ 2 ^ 32) narrow
        rw [← place, minus, top] at fits
        exact absurd fits (by decide)
      have none : count (taken m middle) (nextCluster middle).toNat = 0 := by
        rw [behind.undisturbed.count before.steady scanned.steady, free]
      have apart := free_apart (scanned.undisturbed.consistent steady scanned.steady consistent)
        none
      have wrote := sync_inside scanned.steady.clean
        (entriesBytes (fun _ => 0) (q.clusterSize / 2)) (nextCluster middle <<< UInt64.ofNat q.header.clusterBits)
      rw [entries_length, whole_cluster steady, place] at wrote
      rcases stores : qcowPwriteSync (taken m middle).disk (entriesBytes (fun _ => 0)
        (q.clusterSize / 2)) (nextCluster middle <<< UInt64.ofNat q.header.clusterBits) with
        ⟨all, disk⟩
      rw [stores] at refused wrote
      cases refused
      rw [size] at apart
      obtain ⟨undisturbed, still⟩ := apart_quiet scanned.steady apart wrote
      refine ⟨_, ?_, scanned.trans ⟨undisturbed, still, rfl⟩⟩
      simp only [qcowGrowRefcountBlock, if_neg (Nat.not_le.mpr covered), allocClusters,
        one_cluster, scan, ended, next, bits, size, bind, Except.bind, if_neg sound,
        writeRefcountBlock, if_true, stores, Bool.false_eq_true, if_false]

theorem alloc_marks {size : Nat} {last : UInt32} {marked : Bool}
    (one : (size + (q.clusterSize - 1)) / q.clusterSize = 1)
    (scan : scanClusters m m.fuel q 1 0 0 = .ok (some last, middle))
    (updated : updateClusterRefcount m m.fuel middle ((last + 1).toUInt64 - UInt64.ofNat 1) 1 =
      .ok (marked, after)) :
    qcowAllocClusters m q size true = .ok (if marked then
      ((last + 1).toUInt64 - UInt64.ofNat 1) <<< UInt64.ofNat middle.header.clusterBits else -1,
      after) := by
  have first : (last + 1).toUInt64 - UInt64.ofNat 1 + UInt64.ofNat 0 =
      (last + 1).toUInt64 - UInt64.ofNat 1 := UInt64.add_zero _
  rw [qcowAllocClusters, allocClusters, one, scan]
  simp only [bind, Except.bind, if_true, markClusters, first, updated]
  cases marked with
  | false => rfl
  | true => rfl

theorem alloc_refused {size : Nat} (steady : Steady q) (consistent : Consistent q)
    (scarce : NoneFree m q) (one : (size + (q.clusterSize - 1)) / q.clusterSize = 1) :
    ∃ after, qcowAllocClusters m q size true = .ok (-1, after) ∧ Scanned q after := by
  cases scarce with
  | @scan middle reached fails =>
      obtain ⟨before, fuel, last, scan⟩ := reached_scan steady reached
      obtain ⟨after, ended, behind⟩ := scan_fails m before.steady fails (fuel + 1) last
      refine ⟨after, ?_, before.trans behind⟩
      rw [qcowAllocClusters, allocClusters, one, scan, ended]
      rfl
  | @beyond middle reached beyond =>
      obtain ⟨before, fuel, last, scan⟩ := reached_scan steady reached
      obtain ⟨ended, behind, _⟩ := scan_takes m before.steady (.beyond beyond) fuel last
      obtain ⟨turns, fuel_⟩ := reached.turns
      have absent : (taken m middle).rfSize ≤ rftIndex (taken m middle)
          ((middle.freeClustIdx.toUInt32 + 1).toUInt64 - UInt64.ofNat 1) := by
        rw [behind.undisturbed.rf_size, rftIndex, behind.undisturbed.header]
        -- The increment wraps only behind the last index of a `u32`.
        exact beyond.trans (Nat.div_le_div_right (last_le _))
      have refused := update_beyond m turns 1 absent
      rw [← fuel_] at refused
      rw [ended] at scan
      exact ⟨taken m middle, alloc_marks one scan refused, before.trans behind⟩
  | @growth middle reached blockless small fails =>
      obtain ⟨before, fuel, last, scan⟩ := reached_scan steady reached
      obtain ⟨ended, behind, _⟩ := scan_takes m before.steady (.blockless blockless) fuel last
      obtain ⟨turns, fuel_⟩ := reached.turns
      have next : (middle.freeClustIdx.toUInt32 + 1).toUInt64 - UInt64.ofNat 1 =
          nextCluster middle := last_next _ small
      have read := blockless_read m blockless
      have same : taken m middle = advanced middle := congrArg Prod.snd read
      rw [same] at ended behind
      have scanned := before.trans behind
      obtain ⟨after, refused, final⟩ := growth_fails (updateClusterRefcount m turns)
        scanned.steady (scanned.undisturbed.consistent steady scanned.steady consistent)
        blockless.covered fails
      have updated : updateClusterRefcount m m.fuel (advanced middle) (nextCluster middle) 1 =
          .ok (false, after) := by
        simp only [fuel_, updateClusterRefcount, read, refused, bind, Except.bind]
      rw [ended] at scan
      rw [← next] at updated
      exact ⟨after, alloc_marks one scan updated, scanned.trans final⟩

end Allocation

/-! The error as an offset. -/

section Refused
variable {m : Machine} {q after : Qcow} {offset : UInt64}

theorem error_range : ∀ bits < 31, 9 ≤ bits →
    ¬ (-1 : UInt64) &&& ~~~(UInt64.ofNat (2 ^ bits) - 1) ≤
      ((-1) + UInt64.ofNat (2 ^ bits) - 1) &&& ~~~(UInt64.ofNat (2 ^ bits) - 1) := by
  decide

/-- No cluster is from the error on, so that nothing is released. -/
theorem free_error (positive : 0 < m.fuel) (sizes : Sizes q) :
    qcowFreeClusters m q (-1) (UInt64.ofNat q.clusterSize) = .ok q := by
  obtain ⟨fuel, turns⟩ : ∃ fuel, m.fuel = fuel + 1 := ⟨m.fuel - 1, by omega⟩
  have sectors := sizes.sectors
  have narrow := sizes.narrow
  have none := error_range q.header.clusterBits (by omega) sectors
  rw [qcowFreeClusters, turns, freeEach]
  exact if_neg none

theorem move_error (positive : 0 < m.fuel) (sizes : Sizes q) (l1tIdx l2tIdx : Nat) :
    moveTable m q l1tIdx l2tIdx 0 (-1) = .ok (none, q) := by
  have table := table_bytes_some (fun _ => 0) (int_one_pos q.header.l2Bits)
  simp only [moveTable, qcowL2CacheWrite, Qcow.l2tSize, if_true]
  rw [pwrite_sync_refused q.disk table]
  simp only [free_error positive sizes, bind, Except.bind]

/-- A buffer does not matter. -/
theorem buffer_steady (steady : Steady q) (buffer : Nat → UInt8) :
    Undisturbed q { q with copyBuff := buffer } ∧ Steady { q with copyBuff := buffer } := by
  have undisturbed : Undisturbed q { q with copyBuff := buffer } :=
    ⟨⟨rfl, fun _ _ => rfl⟩, fun _ _ _ _ => rfl⟩
  exact ⟨undisturbed, undisturbed.steady steady steady.coherent steady.listed
    (undisturbed.all_filed steady rfl) steady.clean⟩

theorem store_error (positive : 0 < m.fuel) (sizes : Sizes q) (table : UInt64) (l2tIdx : Nat)
    (start flags : UInt64) (clustOff : Nat) (src : List UInt8) :
    storeCopy m q table l2tIdx (-1) start flags clustOff src =
      .ok (none, { q with copyBuff := writeRange q.copyBuff clustOff src }) := by
  have beyond : fileMax < (-1 : UInt64).toNat := by decide
  have some_ :
      readRange (writeRange q.copyBuff clustOff src) 0 (2 ^ q.header.clusterBits) ≠ [] := by
    intro none
    have zero := congrArg List.length none
    rw [length_readRange] at zero
    exact absurd zero (Nat.two_pow_pos q.header.clusterBits).ne'
  simp only [storeCopy, pwriteInFull, if_pos beyond, Qcow.clusterSize, some_, decide_false]
  have still : Sizes { q with copyBuff := writeRange q.copyBuff clustOff src } :=
    ⟨sizes.sectors, sizes.narrow, sizes.l2Bits⟩
  have freed := free_error positive still
  simp only [Qcow.clusterSize] at freed
  simp only [freed, bind, Except.bind]

/-- The start of the cluster, as the copy reads it. -/
def clusterStart (q : Qcow) (offset : UInt64) : UInt64 :=
  offset &&& ~~~(UInt64.ofNat q.clusterSize - 1)

theorem cluster_start_index (sizes : Sizes q) (offset : UInt64) :
    (clusterStart q offset).toNat / 2 ^ q.header.clusterBits =
      offset.toNat / 2 ^ q.header.clusterBits := by
  have narrow := sizes.narrow
  rw [clusterStart, Qcow.clusterSize, block_start_toNat offset (by omega),
    Nat.mul_div_cancel_left _ (Nat.two_pow_pos _)]

theorem cluster_start_same (sizes : Sizes q) (offset : UInt64) :
    getL1Index q (clusterStart q offset) = getL1Index q offset ∧
      getL2Index q (clusterStart q offset) = getL2Index q offset := by
  have same := cluster_start_index sizes offset
  constructor
  · rw [getL1Index, getL1Index, upper_index, upper_index, same]
  · rw [getL2Index, getL2Index, same]

/-- The sectors of a compressed cluster go into the buffer for them. -/
def Fits (q : Qcow) (offset : UInt64) : Prop :=
  l2Entry q offset.toNat &&& qcow2OflagCompressed ≠ 0 →
    (qcow2Extent q.header.clusterBits (l2Entry q offset.toNat)).2 ≤ q.clusterSize

theorem compressed_fits {f : EntryFormat} {entry : UInt64}
    (fits : (f.extent q.header.clusterBits entry).2 ≤ q.clusterSize)
    (read : readCompressed f q entry = (.wild, after)) : False := by
  rcases extent : f.extent q.header.clusterBits entry with ⟨place, count⟩
  rw [extent] at fits
  simp only [readCompressed, extent] at read
  split at read
  · cases read
  · next bytes disk loaded =>
      obtain ⟨nr, short, _, content⟩ := pread_in_full_spec (congrArg Prod.fst loaded)
      have length := congrArg List.length content
      rw [length_readRange] at length
      have inside : ¬ q.clusterSize < bytes.length := by omega
      rw [if_neg inside] at read
      cases read

/-- The old cluster of a copy is read without overrunning a buffer. -/
theorem old_cluster_read (steady : Steady q) (cached : loadsWhole q (l2tOffset q offset))
    (fits : Fits q offset) {result : ClusterRead}
    {length : Nat} (read : qcow2ReadCluster q (clusterStart q offset) length = (result, after)) :
    result ≠ .wild ∧ Undisturbed q after ∧ Steady after := by
  have reads : qcowReadCluster q (clusterStart q offset) length = (result, after) := by
    rw [qcowReadCluster, if_neg steady.second]
    exact read
  obtain ⟨upper, lower⟩ := cluster_start_same steady.toSizes offset
  have base : l2tOffset q (clusterStart q offset) = l2tOffset q offset := by
    rw [l2tOffset, l2tOffset, upper]
  have kept := read_cluster_kept reads
  have whole : tableWhole q (clusterStart q offset) := by
    rw [tableWhole, base, cached, Bool.or_true]
  refine ⟨?_, kept_undisturbed kept, kept_steady kept steady
    (read_cluster_coherent steady.coherent whole reads) (read_cluster_listed steady.listed reads)⟩
  rintro rfl
  cases read_cluster_cases reads with
  | compressed _ _ loaded squeezed rest =>
      rw [base] at loaded
      rw [lower] at squeezed rest
      have entry := (read_table_spec steady.coherent cached loaded).2 _ rfl _ (l2_index_lt q offset)
      have same : l2Entry q offset.toNat = storedTable q.disk.file q.l2tSize
          (l2tOffset q offset).toNat (getL2Index q offset) := rfl
      rw [entry, ← same, qcow2_format steady.second] at squeezed rest
      apply compressed_fits ?_ rest
      rw [Qcow.clusterSize, (read_table_kept loaded).header]
      exact fits squeezed
  | plain _ _ _ _ rest =>
      unfold readPlain at rest
      split at rest
      · cases rest
      · split at rest <;> cases rest

theorem same_entry (undisturbed : Undisturbed q after) (second : q.version ≠ qcow1Version)
    (covered : getL1Index q offset < q.tableSize) (named : l2tOffset q offset ≠ 0) :
    l2tOffset after offset = l2tOffset q offset ∧
      l2Entry after offset.toNat = l2Entry q offset.toNat := by
  have base := undisturbed.l2t_offset offset
  refine ⟨base, ?_⟩
  have entry (r : Qcow) : l2Entry r offset.toNat = storedTable r.disk.file r.l2tSize
      (l2tOffset r offset).toNat (getL2Index r offset) := rfl
  have there : l2tOffset q offset ∈ namedTables q := by
    rw [l2tOffset, qcow2_format second] at named ⊢
    exact named_table covered named
  rw [entry, entry, base, undisturbed.l2t_size, undisturbed.tables _ there, getL2Index, getL2Index,
    undisturbed.header]

theorem stored_error {middle : Qcow} {table start flags : UInt64} {l2tIdx clustOff : Nat}
    {src : List UInt8} (positive : 0 < m.fuel) (undisturbed : Undisturbed q middle)
    (steady : Steady middle) (buffer : Nat → UInt8) :
    ∃ after, storeCopy m { middle with copyBuff := buffer } table l2tIdx (-1) start flags clustOff
      src = .ok (none, after) ∧ Undisturbed q after ∧ Steady after := by
  obtain ⟨filled, full⟩ := buffer_steady steady buffer
  obtain ⟨last, final⟩ := buffer_steady full (writeRange buffer clustOff src)
  exact ⟨_, store_error positive full.toSizes table l2tIdx start flags clustOff src,
    (undisturbed.trans filled).trans last, final⟩

theorem copy_error {table start flags : UInt64} {l2tIdx clustOff : Nat} {src : List UInt8}
    (steady : Steady q) (covered : getL1Index q offset < q.tableSize)
    (named : l2tOffset q offset ≠ 0)
    (cached : (lookup L2Table.offset (l2tOffset q offset) q.l2Cache).isSome)
    (fits : Fits q offset) (consistent : Consistent q) (scarce : NoneFree m q) :
    ∃ after, copyCluster m q table l2tIdx offset start flags clustOff src = .ok (none, after) ∧
      Undisturbed q after ∧ Steady after := by
  have positive := scarce.turns
  obtain ⟨middle, allocated, scanned⟩ := alloc_refused steady consistent scarce (one_cluster q)
  obtain ⟨base, entry⟩ := same_entry scanned.undisturbed steady.second covered named
  have error : ¬ (-1 : UInt64) ≠ -1 := by decide
  simp only [copyCluster, allocated, bind, Except.bind, if_neg error]
  split
  · have loads : loadsWhole middle (l2tOffset middle offset) := by
      rw [loadsWhole, base, scanned.tables, cached, Bool.true_or]
    rcases read : qcow2ReadCluster middle (clusterStart middle offset) middle.clusterSize with
      ⟨result, behind⟩
    have fits_ : Fits middle offset := by
      rw [Fits, entry, scanned.undisturbed.header, scanned.undisturbed.cluster_size]
      exact fits
    obtain ⟨sound, undisturbed, still⟩ := old_cluster_read scanned.steady loads fits_ read
    have all := scanned.undisturbed.trans undisturbed
    have read_ : qcow2ReadCluster middle (offset &&& ~~~(UInt64.ofNat middle.clusterSize - 1))
      middle.clusterSize = (result, behind) := read
    rw [read_]
    cases result with
    | wild => exact absurd rfl sound
    | error =>
        refine ⟨behind, ?_, all, still⟩
        simp only [free_error positive still.toSizes]
    | zero length =>
        exact stored_error positive all still _
    | data length bytes =>
        exact stored_error positive all still _
  · exact stored_error positive scanned.undisturbed scanned.steady _

end Refused

/-! The calls. -/

structure WriteCall where
  offset : UInt64
  buf : List UInt8

/-- Where a write in place begins, and how many bytes it has. -/
def inPlaceStart (q : Qcow) (offset : UInt64) : UInt64 :=
  (l2Entry q offset.toNat &&& qcow2OffsetMask) + UInt64.ofNat (getClusterOffset q offset)

def partLength (q : Qcow) (c : WriteCall) : Nat :=
  min (q.clusterSize - getClusterOffset q c.offset) c.buf.length

/-- There is no old table of the entry, or the host refuses it behind an allocation. -/
def TableMissing (m : Machine) (q : Qcow) (offset : UInt64) : Prop :=
  l1Entry q offset.toNat = 0 ∨
    ∀ after, qcowAllocClusters m q (8 * q.l2tSize) true = .ok (-1, after) →
      (qcowReadL2Table after (l1Entry q offset.toNat)).1 = none

/-- A call that comes to no free cluster. -/
inductive Quiet (m : Machine) (q : Qcow) (c : WriteCall) : Prop where
  | beyond : q.tableSize ≤ getL1Index q c.offset → Quiet m q c
  | unread : getL1Index q c.offset < q.tableSize →
      l1Entry q c.offset.toNat &&& qcow2OflagCopied ≠ 0 →
      (qcowReadL2Table q (l2tOffset q c.offset)).1 = none → Quiet m q c
  | inPlace : getL1Index q c.offset < q.tableSize →
      l1Entry q c.offset.toNat &&& qcow2OflagCopied ≠ 0 → l2tOffset q c.offset ≠ 0 →
      tableWhole q c.offset → l2Entry q c.offset.toNat &&& qcow2OflagCopied ≠ 0 →
      Apart q (inPlaceStart q c.offset).toNat (partLength q c) → Quiet m q c
  | noTable : getL1Index q c.offset < q.tableSize →
      l1Entry q c.offset.toNat &&& qcow2OflagCopied = 0 → TableMissing m q c.offset →
      NoneFree m q → Quiet m q c
  | noCluster : getL1Index q c.offset < q.tableSize →
      l1Entry q c.offset.toNat &&& qcow2OflagCopied ≠ 0 → l2tOffset q c.offset ≠ 0 →
      tableWhole q c.offset → l2Entry q c.offset.toNat &&& qcow2OflagCopied = 0 →
      Fits q c.offset → NoneFree m (qcowReadL2Table q (l2tOffset q c.offset)).2 → Quiet m q c

section Calls
variable {m : Machine} {q middle after : Qcow} {offset : UInt64}

theorem offset_inside (q : Qcow) (offset : UInt64) :
    ¬ q.clusterSize ≤ getClusterOffset q offset :=
  Nat.not_le.mpr (Nat.mod_lt _ (Nat.two_pow_pos _))

theorem table_clusters (sizes : Sizes q) :
    (8 * q.l2tSize + (q.clusterSize - 1)) / q.clusterSize = 1 := by
  have sectors := sizes.sectors
  have narrow := sizes.narrow
  have size : 8 * q.l2tSize = q.clusterSize := by
    have eight : 8 = 2 ^ 3 := rfl
    rw [Qcow.l2tSize, Qcow.clusterSize, sizes.l2Bits, int_one_small (by omega), eight,
      ← Nat.pow_add]
    congr 1
    omega
  rw [size]
  exact one_cluster q

theorem unread_call (m : Machine) (buf : List UInt8) (steady : Steady q)
    (covered : getL1Index q offset < q.tableSize)
    (copied : l1Entry q offset.toNat &&& qcow2OflagCopied ≠ 0)
    (read : qcowReadL2Table q (l2tOffset q offset) = (none, after)) :
    qcowWriteCluster m q offset buf = .ok (none, after) ∧ Undisturbed q after ∧ Steady after := by
  have table := copied_table m steady.second covered copied
  rw [read] at table
  refine ⟨?_, kept_undisturbed (read_table_kept read), unread_table_steady steady read⟩
  simp only [qcowWriteCluster, if_neg (offset_inside q offset), table, bind, Except.bind]

/-- The call behind the read of its table. -/
theorem read_call (m : Machine) (buf : List UInt8) (steady : Steady q)
    (covered : getL1Index q offset < q.tableSize)
    (copied : l1Entry q offset.toNat &&& qcow2OflagCopied ≠ 0) (named : l2tOffset q offset ≠ 0)
    (whole : tableWhole q offset) {l2t : L2Table}
    (read : qcowReadL2Table q (l2tOffset q offset) = (some l2t, middle)) :
    (lookup L2Table.offset (l2tOffset q offset) middle.l2Cache).isSome ∧
      qcowWriteCluster m q offset buf =
        if l2Entry q offset.toNat &&& qcow2OflagCopied = 0 then
          copyCluster m middle l2t.offset (getL2Index q offset) offset
            (l2Entry q offset.toNat &&& qcow2OffsetMask)
            (l2Entry q offset.toNat &&& (qcow2OflagCopied ||| qcow2OflagCompressed))
            (getClusterOffset q offset) (buf.take (partLength q ⟨offset, buf⟩))
        else
          match pwriteInFull middle.disk (buf.take (partLength q ⟨offset, buf⟩))
            (inPlaceStart q offset) with
          | (false, disk) => .ok (none, { middle with disk := disk })
          | (true, disk) => .ok (some (buf.take (partLength q ⟨offset, buf⟩)).length,
              { middle with disk := disk }) := by
  have loads := table_loads covered named whole
  have table := copied_table m steady.second covered copied
  rw [read] at table
  obtain ⟨same, member⟩ := read_table_found read
  obtain ⟨node, linked⟩ : ∃ node, lookup L2Table.offset l2t.offset middle.l2Cache = some node :=
    lookup_of_mem member rfl
  have entry := cached_entry read (read_table_spec steady.coherent loads read).1 linked
  have flags : l2Entry q offset.toNat &&& (qcow2OflagCopied ||| qcow2OflagCompressed) &&&
      qcow2OflagCopied = l2Entry q offset.toNat &&& qcow2OflagCopied := by
    rw [UInt64.and_assoc, flags_copied]
  constructor
  · rw [← same, linked]
    rfl
  · simp only [qcowWriteCluster, if_neg (offset_inside q offset), table, bind, Except.bind, linked,
      entry, flags]
    rfl

theorem in_place_call (m : Machine) (buf : List UInt8) (steady : Steady q)
    (covered : getL1Index q offset < q.tableSize)
    (copied : l1Entry q offset.toNat &&& qcow2OflagCopied ≠ 0) (named : l2tOffset q offset ≠ 0)
    (whole : tableWhole q offset) (marked : l2Entry q offset.toNat &&& qcow2OflagCopied ≠ 0)
    (apart : Apart q (inPlaceStart q offset).toNat (partLength q ⟨offset, buf⟩)) :
    ∃ nr after, qcowWriteCluster m q offset buf = .ok (nr, after) ∧ Undisturbed q after ∧
      Steady after := by
  rcases read : qcowReadL2Table q (l2tOffset q offset) with ⟨found, middle⟩
  cases found with
  | none => exact ⟨none, middle, unread_call m buf steady covered copied read⟩
  | some l2t =>
      have undisturbed := kept_undisturbed (read_table_kept read)
      have still := read_table_steady steady covered named (table_loads covered named whole) read
      obtain ⟨_, wrote⟩ := read_call m buf steady covered copied named whole read
      rw [if_neg marked] at wrote
      generalize items_ : buf.take (partLength q ⟨offset, buf⟩) = items at wrote
      have length : items.length = partLength q ⟨offset, buf⟩ := by
        rw [← items_, List.length_take, partLength]
        exact Nat.min_eq_left (Nat.min_le_right _ _)
      have inside := pwrite_inside still.clean items (inPlaceStart q offset)
      rw [length] at inside
      rcases stores : pwriteInFull middle.disk items (inPlaceStart q offset) with ⟨all, disk⟩
      rw [stores] at inside
      have apart_ : Apart middle (inPlaceStart q offset).toNat (partLength q ⟨offset, buf⟩) := by
        rw [Apart, undisturbed.node_extents]
        exact apart
      obtain ⟨written, final⟩ := apart_quiet still apart_ inside
      rw [wrote, stores]
      cases all with
      | false => exact ⟨_, _, rfl, undisturbed.trans written, final⟩
      | true => exact ⟨_, _, rfl, undisturbed.trans written, final⟩

theorem move_missing {old : UInt64} (positive : 0 < m.fuel) (steady : Steady q)
    (l1tIdx l2tIdx : Nat) (missing : old = 0 ∨ (qcowReadL2Table q old).1 = none) :
    ∃ after, moveTable m q l1tIdx l2tIdx old (-1) = .ok (none, after) ∧ Undisturbed q after ∧
      Steady after := by
  by_cases none : old = 0
  · subst none
    exact ⟨q, move_error positive steady.toSizes _ _, Undisturbed.refl q, steady⟩
  · have refused := missing.resolve_left none
    rcases read : qcowReadL2Table q old with ⟨found, after⟩
    rw [read] at refused
    cases refused
    have undisturbed := kept_undisturbed (read_table_kept read)
    have still := unread_table_steady steady read
    have freed := free_error positive still.toSizes
    rw [undisturbed.cluster_size] at freed
    refine ⟨after, ?_, undisturbed, still⟩
    simp only [moveTable, if_neg none, read, freed, bind, Except.bind]

theorem no_table_call (buf : List UInt8) (steady : Steady q) (consistent : Consistent q)
    (covered : getL1Index q offset < q.tableSize)
    (shared : l1Entry q offset.toNat &&& qcow2OflagCopied = 0)
    (missing : TableMissing m q offset) (scarce : NoneFree m q) :
    ∃ after, qcowWriteCluster m q offset buf = .ok (none, after) ∧ Undisturbed q after ∧
      Steady after := by
  obtain ⟨middle, allocated, scanned⟩ :=
    alloc_refused steady consistent scarce (table_clusters steady.toSizes)
  have error : ¬ (-1 : UInt64) ≠ -1 := by decide
  have shared_ : ¬ q.l1Table (getL1Index q offset) &&& qcow2OflagCopied ≠ 0 := not_not.mpr shared
  obtain ⟨after, moved, undisturbed, still⟩ := move_missing scarce.turns scanned.steady
    (getL1Index q offset) (getL2Index q offset)
    (missing.imp_right fun refused => refused middle allocated)
  have lost : getClusterTable m q offset = .ok (none, after) := by
    have inside := Nat.not_le.mpr (l2_index_lt q offset)
    rw [getClusterTable, if_neg (Nat.not_le.mpr covered), if_neg inside]
    simp only [if_neg shared_, allocated, bind, Except.bind, if_neg error]
    exact moved
  refine ⟨after, ?_, scanned.undisturbed.trans undisturbed, still⟩
  simp only [qcowWriteCluster, if_neg (offset_inside q offset), lost, bind, Except.bind]

theorem no_cluster_call (buf : List UInt8) (steady : Steady q) (consistent : Consistent q)
    (covered : getL1Index q offset < q.tableSize)
    (copied : l1Entry q offset.toNat &&& qcow2OflagCopied ≠ 0) (named : l2tOffset q offset ≠ 0)
    (whole : tableWhole q offset) (shared : l2Entry q offset.toNat &&& qcow2OflagCopied = 0)
    (fits : Fits q offset) (scarce : NoneFree m (qcowReadL2Table q (l2tOffset q offset)).2) :
    ∃ after, qcowWriteCluster m q offset buf = .ok (none, after) ∧ Undisturbed q after ∧
      Steady after := by
  rcases read : qcowReadL2Table q (l2tOffset q offset) with ⟨found, middle⟩
  rw [read] at scarce
  cases found with
  | none => exact ⟨middle, unread_call m buf steady covered copied read⟩
  | some l2t =>
      have undisturbed := kept_undisturbed (read_table_kept read)
      have still := read_table_steady steady covered named (table_loads covered named whole) read
      obtain ⟨cached, wrote⟩ := read_call m buf steady covered copied named whole read
      rw [if_pos shared] at wrote
      obtain ⟨base, entry⟩ := same_entry undisturbed steady.second covered named
      have upper : getL1Index middle offset < middle.tableSize := by
        rw [getL1Index, undisturbed.header, undisturbed.table_size]
        exact covered
      have fits_ : Fits middle offset := by
        rw [Fits, entry, undisturbed.header, undisturbed.cluster_size]
        exact fits
      obtain ⟨after, stored, later, final⟩ := copy_error still upper (by rwa [base])
        (by rwa [base]) fits_ (undisturbed.consistent steady still consistent) scarce
      rw [stored] at wrote
      exact ⟨after, wrote, undisturbed.trans later, final⟩

/-- A quiet call comes back, and changes no count and no reference. -/
theorem quiet_call {c : WriteCall} (steady : Steady q) (consistent : Consistent q)
    (quiet : Quiet m q c) :
    ∃ nr after, qcowWriteCluster m q c.offset c.buf = .ok (nr, after) ∧ Undisturbed q after ∧
      Steady after := by
  cases quiet with
  | beyond reached =>
      refine ⟨none, q, ?_, Undisturbed.refl q, steady⟩
      simp only [qcowWriteCluster, if_neg (offset_inside q c.offset), getClusterTable,
        if_pos reached, bind, Except.bind]
  | unread covered copied refused =>
      rcases read : qcowReadL2Table q (l2tOffset q c.offset) with ⟨found, after⟩
      rw [read] at refused
      cases refused
      exact ⟨none, after, unread_call m c.buf steady covered copied read⟩
  | inPlace covered copied named whole marked apart =>
      exact in_place_call m c.buf steady covered copied named whole marked apart
  | noTable covered shared missing scarce =>
      obtain ⟨after, wrote, kept⟩ :=
        no_table_call c.buf steady consistent covered shared missing scarce
      exact ⟨none, after, wrote, kept⟩
  | noCluster covered copied named whole shared fits scarce =>
      obtain ⟨after, wrote, kept⟩ :=
        no_cluster_call c.buf steady consistent covered copied named whole shared fits scarce
      exact ⟨none, after, wrote, kept⟩

end Calls

end VirtioDisk.QuietCalls
