import VirtioDisk.LeakedClusters

/-!
Runs of `qcow_write_cluster` on an image whose counts are those of its references.
They stay equal as long as no call comes to a free cluster. The first call that
does leaves a cluster counted to which nothing refers.
-/

namespace VirtioDisk.RefcountRuns

open ByteStore Extents LeakedClusters LruCache OwnedClusters QcowByteArray QcowImage
open QcowReference QcowWrite QuietCalls RefcountConsistency ReadWrite Transition
open QcowRead (qcow1Version qcow2OflagCopied qcow2OflagCompressed qcow2OffsetMask)

def writeCall (m : Machine) (q : Qcow) (c : WriteCall) : Except Fault Qcow := do
  let (_, after) ← qcowWriteCluster m q c.offset c.buf
  .ok after

/-- The counts behind a call, and what follows from them. -/
structure CountsKept (q after : Qcow) (nr : Option Nat) : Prop where
  consistent : Consistent after
  referenced : ∀ index, 0 < references after index → 0 < count after index
  header : 0 < count after 0
  bounded : ∀ index, references after index ≤ 65535
  givenBack : nr = none → ∀ index, count after index = count q index

def CallKept (m : Machine) (q : Qcow) (c : WriteCall) : Prop :=
  ∃ nr after, qcowWriteCluster m q c.offset c.buf = .ok (nr, after) ∧ CountsKept q after nr

/-- An image of the second version that was just opened. -/
structure Fresh (q : Qcow) : Prop extends Sizes q where
  version : q.version = 2
  tables : q.l2Cache = []
  blocks : q.rfCache = []
  clean : Clean q.disk.file

theorem Fresh.steady {q : Qcow} (fresh : Fresh q) : Steady q := by
  constructor
  · exact fresh.toSizes
  · rw [fresh.version]
    decide
  · intro l2t member
    rw [fresh.tables] at member
    cases member
  · intro l2t member
    rw [fresh.tables] at member
    cases member
  · intro rfb member
    rw [fresh.blocks] at member
    cases member
  · exact fresh.clean

theorem count_le (q : Qcow) (index : Nat) : count q index ≤ 65535 := by
  have word := (refcount q index).toNat_lt
  simp only [count]
  split <;> omega

theorem consistent_kept {q after : Qcow} (consistent : Consistent after)
    (same : ∀ index, count after index = count q index) (nr : Option Nat) :
    CountsKept q after nr := by
  constructor
  · exact consistent
  · intro index some_
    rw [consistent]
    exact some_
  · exact consistent.header
  · intro index
    rw [← consistent]
    exact count_le after index
  · exact fun _ => same

/-- The counts of an image are those of its references in every run of quiet calls. -/
theorem quiet_runs_keep_counts (m : Machine) {q : Qcow} (fresh : Fresh q)
    (consistent : Consistent q) (calls : List WriteCall)
    (quiet : Meets (writeCall m) (Quiet m) q calls) :
    Meets (writeCall m) (CallKept m) q calls := by
  apply meets_imp (fun q => Steady q ∧ Consistent q) ?_ ⟨fresh.steady, consistent⟩ quiet
  rintro q c ⟨steady, consistent⟩ permitted
  obtain ⟨nr, after, wrote, undisturbed, still⟩ := quiet_call steady consistent permitted
  have kept := undisturbed.consistent steady still consistent
  constructor
  · exact ⟨nr, after, wrote, consistent_kept kept (undisturbed.count steady still) nr⟩
  · simp only [writeCall, wrote, bind, Except.bind]
    exact ⟨still, kept⟩

/-! Two images. -/

/-- Behind the last cluster of the ranges nothing is used. -/
theorem uses_behind {size index : Nat} {ranges : List Range}
    (behind : ∀ range ∈ ranges, (range.base + range.len - 1) / size < index) :
    uses size ranges index = 0 := by
  apply List.countP_eq_zero.mpr
  intro range member here
  have last := behind range member
  simp only [touches, decide_eq_true_eq] at here
  omega

/-- An image whose first block is the only one, with counts up to `last`. -/
theorem single_block {q : Qcow} (last base : Nat) (fresh : Fresh q)
    (single : ∀ index ≠ 0, q.rfTable index = 0) (block : (q.rfTable 0).toNat = base)
    (ranges : ∀ range ∈ data q ++ metadata q, (range.base + range.len - 1) / q.clusterSize ≤ last)
    (counts : ∀ index ≤ last, count q index = references q index)
    (zeroes : ∀ position, base + 2 * last + 2 ≤ position → q.disk.file.bytes position = 0) :
    Consistent q := by
  intro index
  by_cases used : index ≤ last
  · exact counts index used
  · have unused : uses q.clusterSize (data q ++ metadata q) index = 0 := by
      apply uses_behind
      intro range member
      have bound := ranges range member
      omega
    rw [references, ← uses_append, unused]
    by_cases early : index < 2 ^ (q.header.clusterBits - 1)
    · have none : lookup RefcountBlock.offset (q.rfTable 0) q.rfCache = none := by
        rw [fresh.blocks]
        rfl
      have high := zeroes (base + 2 * index) (by omega)
      have low := zeroes (base + 2 * index + 1) (by omega)
      have free : refcount q index = 0 := by
        simp only [refcount, Nat.div_eq_of_lt early, Nat.mod_eq_of_lt early, none, block,
          fresh.clean.cell, high, low]
        rfl
      simp only [count, free]
      exact ite_self _
    · apply if_neg
      rintro ⟨_, named⟩
      exact named (single _ (Nat.div_pos (by omega) (Nat.two_pow_pos _)).ne')

theorem empty_zeroes {position : Nat} (behind : 1544 ≤ position) :
    emptyImage.disk.file.bytes position = 0 := by
  have bytes : emptyImage.disk.file.bytes position =
    if position = 1030 then 6 else if position ∈ [1537, 1539, 1541, 1543] then 1 else 0 := rfl
  rw [bytes, if_neg (by omega), if_neg (by simp; omega)]

theorem empty_fresh : Fresh emptyImage := by
  refine ⟨⟨by decide, by decide, rfl⟩, rfl, rfl, rfl, ?_⟩
  intro position behind
  have size : emptyImage.disk.file.size = 2048 := rfl
  exact empty_zeroes (by omega)

theorem empty_nodes : namedTables emptyImage = [] ∧ namedBlocks emptyImage = [1536] := by
  decide

theorem empty_ranges : data emptyImage = [] ∧
    metadata emptyImage = [⟨0, 512⟩, ⟨512, 8⟩, ⟨1024, 512⟩, ⟨1536, 512⟩] := by
  obtain ⟨tables, blocks⟩ := empty_nodes
  constructor
  · rw [data, tables]
    rfl
  · rw [metadata, nodeExtents, tables, blocks]
    rfl

theorem empty_consistent : Consistent emptyImage := by
  obtain ⟨data_, metadata_⟩ := empty_ranges
  apply single_block 3 1536 empty_fresh (fun index other => if_neg other) rfl
  · rw [data_, metadata_]
    decide
  · simp only [references, data_, metadata_]
    decide
  · exact fun position behind => empty_zeroes behind

theorem copied_zeroes {position : Nat} (behind : 2572 ≤ position) :
    copiedImage.disk.file.bytes position = 0 := by
  have bytes : copiedImage.disk.file.bytes position =
    if position = 512 ∨ position = 1024 then 128 else if position = 518 then 4
    else if position = 1030 then 6 else if position = 2054 then 10
    else if position ∈ [2561, 2563, 2565, 2567, 2569, 2571] then 1 else 0 := rfl
  rw [bytes, if_neg (by omega), if_neg (by omega), if_neg (by omega), if_neg (by omega),
    if_neg (by simp; omega)]

theorem copied_fresh : Fresh copiedImage := by
  refine ⟨⟨by decide, by decide, rfl⟩, rfl, rfl, rfl, ?_⟩
  intro position behind
  have size : copiedImage.disk.file.size = 3072 := rfl
  exact copied_zeroes (by omega)

theorem copied_nodes : namedTables copiedImage = [1024] ∧ namedBlocks copiedImage = [2560] := by
  decide

theorem copied_data : data copiedImage = [⟨1536, 512⟩] := by
  have entries : ∀ index < 64, entryExtents copiedImage (tableView copiedImage 1024 index) =
      if index = 0 then [⟨1536, 512⟩] else [] := by
    intro index early
    have stored : tableView copiedImage 1024 index =
        if index = 0 then qcow2OflagCopied ||| 1536 else 0 := by
      rw [← copied_entries index early]
      exact stored_entry early
    rw [stored]
    split
    · decide
    · decide
  have size : copiedImage.l2tSize = 64 := rfl
  rw [data, copied_nodes.1, List.flatMap_singleton, size,
    List.flatMap_congr fun index member => entries index (List.mem_range.mp member)]
  decide

theorem copied_extents : nodeExtents copiedImage = [⟨2560, 512⟩, ⟨1024, 512⟩] := by
  obtain ⟨tables, blocks⟩ := copied_nodes
  rw [nodeExtents, tables, blocks]
  rfl

theorem copied_metadata : metadata copiedImage =
    [⟨0, 512⟩, ⟨512, 8⟩, ⟨2048, 512⟩, ⟨2560, 512⟩, ⟨1024, 512⟩] := by
  rw [metadata, copied_extents]
  rfl

theorem copied_consistent : Consistent copiedImage := by
  apply single_block 5 2560 copied_fresh (fun index other => if_neg other) rfl
  · rw [copied_data, copied_metadata]
    decide
  · simp only [references, copied_data, copied_metadata]
    decide
  · exact fun position behind => copied_zeroes behind

def firstCluster : WriteCall := ⟨0, List.replicate 512 7⟩

/-- The write is in place. -/
theorem copied_quiet : Quiet steadyMachine copiedImage firstCluster := by
  have owned : Owned copiedImage (0 : UInt64).toNat := copied_owned (by decide)
  have base : l2tOffset copiedImage 0 = 1024 := rfl
  have entry : l2Entry copiedImage (0 : UInt64).toNat = qcow2OflagCopied ||| 1536 := by
    rw [copied_entry]
    exact copied_entries 0 (by decide)
  have start : inPlaceStart copiedImage 0 = 1536 := by
    rw [inPlaceStart, entry]
    decide
  have word : (1536 : UInt64).toNat = 1536 := rfl
  have length : partLength copiedImage firstCluster = 512 := by
    simp only [partLength, firstCluster, List.length_replicate]
    decide
  apply Quiet.inPlace
  · decide
  · exact owned.table
  · rw [firstCluster, base]
    decide
  · have loads : loadsWhole copiedImage 1024 :=
      ReferenceReads.loads_served (fun _ => ⟨65536, by decide, rfl⟩) (by decide)
    rw [firstCluster, tableWhole, base, loads, Bool.or_true]
  · exact owned.entry
  · rw [length, firstCluster, start, Apart, copied_extents, word]
    intro node member position holds
    simp only [List.mem_cons, List.not_mem_nil, or_false] at member
    rcases member with rfl | rfl
    · simp only [Range.Holds] at holds
      omega
    · simp only [Range.Holds] at holds
      omega

theorem copied_image_keeps_counts :
    Meets (writeCall steadyMachine) (CallKept steadyMachine) copiedImage [firstCluster] := by
  apply quiet_runs_keep_counts steadyMachine copied_fresh copied_consistent
  refine ⟨copied_quiet, ?_⟩
  generalize writeCall steadyMachine _ _ = result
  cases result with
  | error fault => trivial
  | ok next => trivial

section Passing
variable {m : Machine} {q : Qcow}

theorem next_toNat (small : q.freeClustIdx.toNat < 2 ^ 32) :
    (nextCluster q).toNat = q.freeClustIdx.toNat := by
  rw [nextCluster, UInt32.toNat_toUInt64, UInt64.toNat_toUInt32]
  omega

theorem read_block_free (m : Machine) (q : Qcow) (clustIdx : UInt64) :
    (qcowReadRefcountBlock m q clustIdx).2.freeClustIdx = q.freeClustIdx := by
  simp only [qcowReadRefcountBlock, refcountBlockSearch]
  split
  · rfl
  · split
    · rfl
    · split
      · next found =>
          rw [Option.map_eq_some_iff] at found
          obtain ⟨_, _, same⟩ := found
          cases same
          rfl
      · split
        · rfl
        · rfl

theorem there_shared {clustIdx other : UInt64} (there : BlockThere q clustIdx)
    (same : rftIndex q other = rftIndex q clustIdx) : BlockThere q other := by
  constructor
  · rw [same]
    exact there.covered
  · rw [same]
    exact there.named
  · rw [same]
    exact there.whole

/-- The scan passes over used clusters that are counted in one block. -/
theorem block_passed (m : Machine) (left : Nat) (steady : Steady q)
    (there : BlockThere q (nextCluster q)) (small : q.freeClustIdx.toNat + left < 2 ^ 32)
    (same : (q.freeClustIdx.toNat + left) / 2 ^ (q.header.clusterBits - 1) =
      q.freeClustIdx.toNat / 2 ^ (q.header.clusterBits - 1))
    (used : ∀ i < left, 0 < count q (q.freeClustIdx.toNat + i) ∧
      count q (q.freeClustIdx.toNat + i) < 65535) :
    ∃ middle, Passed m left q middle ∧ BlockThere middle (nextCluster middle) ∧
      (nextCluster middle).toNat = q.freeClustIdx.toNat + left := by
  induction left generalizing q with
  | zero => exact ⟨q, .here q, there, next_toNat (by omega)⟩
  | succ left ih =>
      obtain ⟨_, after, _, behind, _, scanned, cached⟩ := next_count m steady there
      have here := next_toNat (q := q) (by omega)
      have free : after.freeClustIdx.toNat = q.freeClustIdx.toNat + 1 := by
        have one : (1 : UInt64).toNat = 1 := rfl
        rw [behind, read_block_free, advanced, UInt64.toNat_add, one]
        omega
      have bits : after.header = q.header := scanned.undisturbed.header
      have next := next_toNat (q := after) (by omega)
      have between : (q.freeClustIdx.toNat + 1) / 2 ^ (q.header.clusterBits - 1) =
          q.freeClustIdx.toNat / 2 ^ (q.header.clusterBits - 1) := by
        apply Nat.le_antisymm
        · rw [← same]
          exact Nat.div_le_div_right (by omega)
        · exact Nat.div_le_div_right (by omega)
      have shared : BlockThere after (nextCluster after) := by
        apply there_shared cached
        rw [rftIndex, rftIndex, bits, next, here, free]
        exact between
      obtain ⟨middle, passed, later, place⟩ := ih scanned.steady shared (by omega)
        (by
          rw [bits, free, between, ← same]
          congr 1
          omega)
        (by
          intro i early
          have counts := used (i + 1) (by omega)
          rw [scanned.undisturbed.count steady scanned.steady, free, Nat.add_assoc, Nat.add_comm 1]
          exact counts)
      obtain ⟨some_, below⟩ := used 0 (by omega)
      rw [Nat.add_zero, ← here] at some_ below
      rw [behind] at passed
      exact ⟨middle, .used there some_ below passed, later, by omega⟩

end Passing

/-- Cluster 4 is the first that is free. -/
theorem empty_some_free : SomeFree steadyMachine emptyImage 4 := by
  have steady := empty_fresh.steady
  have there : BlockThere emptyImage (nextCluster emptyImage) := by
    have read : (preadInFull emptyImage.disk 512 1536).1 = some _ :=
      pread_in_full_served (fun _ => ⟨65536, by decide, rfl⟩) (by decide) (by decide)
    exact ⟨by decide, by decide, Or.inr ⟨_, read, length_readRange _ _ _⟩⟩
  obtain ⟨middle, passed, later, place⟩ := block_passed steadyMachine 4 steady there
    (by decide) (by decide) (by decide)
  have four : nextCluster middle = 4 := UInt64.toNat_inj.mp place
  obtain ⟨scanned, _⟩ := passed_scan steady passed
  rw [four] at later
  refine ⟨middle, ⟨4, by decide, passed⟩, four.symm, later, ?_, by decide⟩
  rw [scanned.undisturbed.count steady scanned.steady]
  decide

theorem empty_block_alone : BlockAlone emptyImage 4 := by
  intro index here
  have third : index = 3 := by
    have block : (emptyImage.rfTable (rftIndex emptyImage 4)).toNat = 1536 := by decide
    have size : emptyImage.clusterSize = 512 := rfl
    rw [block, size] at here
    simp only [touches, decide_eq_true_eq] at here
    omega
  rw [third]
  decide

/-- The first write to a new image leaves cluster 4 counted. -/
theorem first_write_leaks : Fresh emptyImage ∧ Consistent emptyImage ∧
    ¬ Meets (writeCall steadyMachine) (CallKept steadyMachine) emptyImage [firstCluster] := by
  refine ⟨empty_fresh, empty_consistent, ?_⟩
  rintro ⟨⟨nr, after, wrote, kept⟩, _⟩
  have leaked := (free_table_leaks empty_fresh.steady empty_consistent (by decide) (by decide)
    empty_some_free empty_block_alone wrote).2
  exact leaked.inconsistent kept.consistent

end VirtioDisk.RefcountRuns
