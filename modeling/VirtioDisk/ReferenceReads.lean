import VirtioDisk.QcowCourse

/-!
Reads of a well-formed image of either version on a host that serves the bytes
of the file. Such an image has neither a backing file nor encryption, of which
the driver keeps nothing. However many reads came before and whatever the cache
holds of them, a read inside the disk returns its length and the bytes that the
tables of the file refer to.
-/

namespace VirtioDisk.ReferenceReads

open ByteStore QcowCourse QcowImage QcowReference RawImage ReadWrite
open QcowRead (part part_positive part_le shifted_toNat)

/-- The image as its file describes it: the level 1 table is the stored one. -/
def described (q : Qcow) : Qcow :=
  { q with
    tableSize := q.header.l1Size.toNat
    l1Table := storedTable q.disk.file q.header.l1Size.toNat q.header.l1TableOffset.toNat }

/-- What the tables in memory refer to is inside the file, and no cluster is compressed. -/
structure Linked (q : Qcow) : Prop where
  tables : ∀ index < q.tableSize, q.l1Table index &&& q.format.l2Mask ≠ 0 →
    (q.l1Table index &&& q.format.l2Mask).toNat + 8 * q.l2tSize ≤ q.disk.file.size
  plain : ∀ index < q.tableSize, q.l1Table index &&& q.format.l2Mask ≠ 0 → ∀ entry < q.l2tSize,
    storedTable q.disk.file q.l2tSize (q.l1Table index &&& q.format.l2Mask).toNat entry &&&
      q.format.compressed = 0
  clusters : ∀ index < q.tableSize, q.l1Table index &&& q.format.l2Mask ≠ 0 →
    ∀ entry < q.l2tSize,
      storedTable q.disk.file q.l2tSize (q.l1Table index &&& q.format.l2Mask).toNat entry &&&
        q.format.startMask ≠ 0 →
      (storedTable q.disk.file q.l2tSize (q.l1Table index &&& q.format.l2Mask).toNat entry &&&
        q.format.startMask).toNat + q.clusterSize ≤ q.disk.file.size

structure WellFormed (q : Qcow) : Prop where
  version : q.version = 1 ∨ q.version = 2
  sectors : 9 ≤ q.header.clusterBits
  narrow : q.header.clusterBits ≤ 30
  first : q.version = 1 → q.header.l2Bits + q.header.clusterBits < 31
  second : q.version = 2 → q.header.l2Bits = q.header.clusterBits - 3
  bounded : q.disk.file.size ≤ fileMax
  l1Table : q.header.l1TableOffset.toNat + 8 * q.header.l1Size.toNat ≤ q.disk.file.size
  linked : Linked (described q)

/-- An open image on whose next read can be relied. -/
structure Ready (q : Qcow) : Prop where
  sectors : 9 ≤ q.header.clusterBits
  narrow : q.header.clusterBits ≤ 30
  bounded : q.disk.file.size ≤ fileMax
  linked : Linked q
  serves : Serves q.disk
  coherent : Coherent q

section Reading
variable {q after : Qcow} {offset sector : UInt64} {left : Nat}

theorem Linked.kept (linked : Linked q) (kept : Kept q after) : Linked after := by
  constructor
  · rw [kept.table_size, kept.l1_table, kept.format, kept.l2t_size, kept.disk.1]
    exact linked.tables
  · rw [kept.table_size, kept.l1_table, kept.format, kept.l2t_size, kept.disk.1]
    exact linked.plain
  · rw [kept.table_size, kept.l1_table, kept.format, kept.l2t_size, kept.disk.1,
      Qcow.clusterSize, kept.header]
    exact linked.clusters

theorem Ready.kept (ready : Ready q) (kept : Kept q after) (coherent : Coherent after) :
    Ready after := by
  constructor
  · rw [kept.header]
    exact ready.sectors
  · rw [kept.header]
    exact ready.narrow
  · rw [kept.disk.1]
    exact ready.bounded
  · exact ready.linked.kept kept
  · intro call
    rw [kept.disk.2]
    exact ready.serves call
  · exact coherent

theorem loads_served {base : UInt64} (serves : Serves q.disk)
    (bounded : q.disk.file.size ≤ fileMax) : loadsWhole q base := by
  rw [loadsWhole, Bool.or_eq_true]
  refine Or.inr ?_
  split
  · rfl
  · next bytes read =>
      have whole := pread_in_full_whole serves read
      rw [decide_eq_true_eq]
      omega

theorem table_served (serves : Serves q.disk) (bounded : q.disk.file.size ≤ fileMax)
    (offset : UInt64) : tableWhole q offset := by
  have loads : loadsWhole q (l2tOffset q offset) := loads_served serves bounded
  rw [tableWhole, loads, Bool.or_true]

theorem Ready.loads (ready : Ready q) (covered : getL1Index q offset < q.tableSize)
    (named : l2tOffset q offset ≠ 0) :
    (preadInFull q.disk (8 * q.l2tSize) (l2tOffset q offset)).1 =
      some (readRange q.disk.file.bytes (l2tOffset q offset).toNat (8 * q.l2tSize)) :=
  pread_in_full_served ready.serves ready.bounded (ready.linked.tables _ covered named)

theorem Ready.table_whole (ready : Ready q) (offset : UInt64) : tableWhole q offset :=
  table_served ready.serves ready.bounded offset

theorem Ready.reads_cluster {result : ClusterRead} (ready : Ready q)
    (read : qcowReadCluster q offset left = (result, after)) : Ready after :=
  ready.kept (read_cluster_kept read)
    (read_cluster_coherent ready.coherent (ready.table_whole offset) read)

/-- A covered cluster is read in full. -/
theorem Ready.delivers {result : ClusterRead} (ready : Ready q)
    (covered : getL1Index q offset < q.tableSize)
    (read : qcowReadCluster q offset left = (result, after)) :
    (ClusterRead.delivered result).isSome := by
  cases read_cluster_cases read with
  | uncovered beyond => omega
  | unallocated => rfl
  | unloaded _ named failed =>
      have loads := ready.loads covered named
      unfold qcowReadL2Table at failed
      split at failed
      · cases failed
      · split at failed
        · next refused =>
            rw [refused] at loads
            cases loads
        · cases failed
  | @compressed l2t middle _ _ _ named loaded squeezed _ =>
      have whole := table_loads covered named (ready.table_whole offset)
      have table := (read_table_spec ready.coherent whole loaded).2 l2t rfl _ (l2_index_lt q offset)
      rw [table] at squeezed
      exact absurd (ready.linked.plain _ covered named _ (l2_index_lt q offset)) squeezed
  | @plain l2t middle _ _ _ named loaded flat rest =>
      have whole := table_loads covered named (ready.table_whole offset)
      have table := (read_table_spec ready.coherent whole loaded).2 l2t rfl _ (l2_index_lt q offset)
      have kept := read_table_kept loaded
      have onward : Serves middle.disk := by
        intro call
        rw [kept.disk.2]
        exact ready.serves call
      have bounded : middle.disk.file.size ≤ fileMax := by
        rw [kept.disk.1]
        exact ready.bounded
      apply read_plain_served onward bounded ?_ rest
      intro some_
      rw [table] at some_ ⊢
      have inside := ready.linked.clusters _ covered named _ (l2_index_lt q offset) some_
      have below := Nat.mod_lt offset.toNat (Nat.two_pow_pos q.header.clusterBits)
      have short : getClusterOffset q offset + part q.header.clusterBits offset left ≤
          q.clusterSize := by
        unfold getClusterOffset part Qcow.clusterSize
        omega
      rw [kept.disk.1]
      unfold l2tOffset
      omega

end Reading

section Ranges
variable {q : Qcow} {sector : UInt64} {left turns : Nat}

/-- The range from `offset` on is inside the disk and inside what the level 1 table covers. -/
structure Inside (q : Qcow) (offset length : Nat) : Prop where
  size : offset + length ≤ q.header.size.toNat
  table : offset + length ≤ q.tableSize * 2 ^ (q.header.l2Bits + q.header.clusterBits)

theorem Inside.kept {after : Qcow} {offset length : Nat} (inside : Inside q offset length)
    (kept : Kept q after) : Inside after offset length := by
  constructor
  · rw [kept.header]
    exact inside.size
  · rw [kept.table_size, kept.header]
    exact inside.table

theorem Inside.rest {offset length done : Nat} (inside : Inside q offset length)
    (fits : done ≤ length) : Inside q (offset + done) (length - done) := by
  have first := inside.size
  have second := inside.table
  constructor
  · omega
  · omega

theorem buffer_course_finished (turns : Nat) (q : Qcow) (begun whole : Bool) (sector : UInt64) :
    bufferCourse turns q begun whole sector 0 = .passed whole q := by
  cases turns with
  | zero => rfl
  | succ turns => rw [bufferCourse, if_pos rfl]

theorem Ready.buffer_passes (ready : Ready q) (begun : Bool) (enough : left ≤ turns)
    (inside : Inside q (sector <<< sectorShift).toNat left) :
    ∃ after, bufferCourse turns q begun true sector left = .passed true after ∧ Ready after := by
  induction turns generalizing q begun sector left with
  | zero => exact ⟨q, rfl, ready⟩
  | succ turns ih =>
      by_cases none : left = 0
      · rw [bufferCourse, if_pos none]
        exact ⟨q, rfl, ready⟩
      · have size := inside.size
        have below : ¬ q.header.size ≤ sector <<< sectorShift := by
          rw [UInt64.not_le, UInt64.lt_iff_toNat_lt]
          omega
        have covered : getL1Index q (sector <<< sectorShift) < q.tableSize := by
          have table := inside.table
          rw [getL1Index, Nat.div_lt_iff_lt_mul (Nat.two_pow_pos _)]
          omega
        rcases result : qcowReadCluster q (sector <<< sectorShift) left with ⟨read, after⟩
        have full := ready.delivers covered result
        have next := ready.reads_cluster result
        have tame : read ≠ .wild := by
          rintro rfl
          cases full
        have good : read ≠ .error := by
          rintro rfl
          cases full
        have fits := part_le q.header.clusterBits (sector <<< sectorShift) left
        have positive := part_positive q.header.clusterBits (sector <<< sectorShift)
          (Nat.pos_of_ne_zero none)
        have word := q.header.size.toNat_lt
        have onward := part_onward ready.sectors (by omega :
          (sector <<< sectorShift).toNat + left ≤ 2 ^ 64)
        have whole : (true && tableWhole q (sector <<< sectorShift) &&
            (ClusterRead.delivered read).isSome) = true := by
          rw [ready.table_whole, full]
          rfl
        rw [course_read none below result tame good, whole]
        rcases Nat.lt_or_eq_of_le fits with short | all
        · apply ih next true (by omega)
          rw [onward short]
          exact (inside.rest fits).kept (read_cluster_kept result)
        · rw [all, Nat.sub_self, buffer_course_finished]
          exact ⟨after, rfl, next⟩

theorem Ready.read_passes {iov : List Range} (ready : Ready q)
    (inside : Inside q (sector <<< sectorShift).toNat (total iov)) :
    ∃ after, readCourse iov q true sector = .passed true after := by
  induction iov generalizing q sector with
  | nil => exact ⟨q, rfl⟩
  | cons entry rest ih =>
      have size := inside.size
      have table := inside.table
      have word := q.header.size.toNat_lt
      simp only [total] at size table
      have here : Inside q (sector <<< sectorShift).toNat entry.len := ⟨by omega, by omega⟩
      obtain ⟨middle, passed, next⟩ := ready.buffer_passes false (Nat.le_refl entry.len) here
      have place := sector_rounded (by omega : (sector <<< sectorShift).toNat + entry.len < 2 ^ 64)
      have down := Nat.div_mul_le_self entry.len 512
      have behind : Inside q ((sector + UInt64.ofNat (entry.len / 512)) <<< sectorShift).toNat
          (total rest) := by
        rw [place]
        exact ⟨by omega, by omega⟩
      rw [readCourse, passed]
      exact ih next (behind.kept (buffer_course_kept passed))

end Ranges

/-! An image that was opened and read from. -/

theorem readRange_cell {file : File} {base len : Nat} (inside : base + len ≤ file.size) :
    readRange (cell file) base len = readRange file.bytes base len := by
  apply List.ext_getElem (by simp)
  intro i here _
  rw [length_readRange] at here
  rw [getElem_readRange, getElem_readRange, cell, if_pos (by omega)]

section Opening
variable {image q : Qcow}

theorem opened_described (formed : WellFormed image) (serves : Serves image.disk)
    (opened : qcowReadL1Table image = (true, q)) : Kept (described image) q ∧
      q.l2Cache = image.l2Cache := by
  have read := pread_in_full_served serves formed.bounded formed.l1Table
  have same := pread_in_full_same image.disk (8 * image.header.l1Size.toNat)
    image.header.l1TableOffset
  simp only [qcowReadL1Table] at opened
  split at opened
  · cases opened
  · next loaded =>
      rw [loaded] at read same
      obtain ⟨_, rfl⟩ := Prod.mk.inj opened
      cases read
      constructor
      · constructor
        · simp only [described, storedTable, readRange_cell formed.l1Table]
        · exact same
      · rfl

theorem opened_ready (formed : WellFormed image) (serves : Serves image.disk)
    (fresh : image.l2Cache = []) (opened : qcowReadL1Table image = (true, q)) : Ready q := by
  obtain ⟨kept, cached⟩ := opened_described formed serves opened
  have ready : Ready (described image) := by
    constructor
    · exact formed.sectors
    · exact formed.narrow
    · exact formed.bounded
    · exact formed.linked
    · exact serves
    · intro l2t member
      simp [described, fresh] at member
  apply ready.kept kept
  intro l2t member
  simp [cached, fresh] at member

/-- A call of `qcow_read_sector`. -/
structure ReadCall where
  memory : Nat → UInt8
  sector : UInt64
  iov : List Range

def afterReads (fuel : Nat) (q : Qcow) (earlier : List ReadCall) : Qcow :=
  earlier.foldl (fun q call => (qcowReadSector fuel q call.memory call.sector call.iov).disk) q

theorem after_reads_ready (fuel : Nat) (earlier : List ReadCall) (ready : Ready q) :
    Kept q (afterReads fuel q earlier) ∧ Ready (afterReads fuel q earlier) := by
  unfold afterReads
  induction earlier generalizing q with
  | nil => exact ⟨Kept.refl q, ready⟩
  | cons call rest ih =>
      have next : Kept q (qcowReadSector fuel q call.memory call.sector call.iov).disk ∧
          Ready (qcowReadSector fuel q call.memory call.sector call.iov).disk := by
        apply each_invariant fun after => Kept q after ∧ Ready after
        · rintro middle offset left result after ⟨kept, now⟩ read
          exact ⟨kept.trans (read_cluster_kept read), now.reads_cluster read⟩
        · exact ⟨Kept.refl q, ready⟩
      obtain ⟨kept, last⟩ := ih next.2
      exact ⟨next.1.trans kept, last⟩

/-- A read of an open image that any reads were made of returns its length, and fills its
buffers with the bytes that the file's own tables refer to. -/
theorem reads_return_reference (formed : WellFormed image) (serves : Serves image.disk)
    (fresh : image.l2Cache = []) (opened : qcowReadL1Table image = (true, q))
    (earlier : List ReadCall) (fuel : Nat) (enough : 2 ^ 32 ≤ fuel) (memory : Nat → UInt8)
    (sector : UInt64) (iov : List Range) (short : Described iov)
    (aligned : ∀ entry ∈ iov, 512 ∣ entry.len)
    (inside : sector.toNat * 512 + total iov ≤ image.header.size.toNat)
    (covered : sector.toNat * 512 + total iov ≤
      image.header.l1Size.toNat * 2 ^ (image.header.l2Bits + image.header.clusterBits)) :
    (qcowReadSector fuel (afterReads fuel q earlier) memory sector iov).total =
        some (total iov : Int) ∧
      (qcowReadSector fuel (afterReads fuel q earlier) memory sector iov).bytes =
        scatter memory iov
          (readRange (reference (described image)) (sector.toNat * 512) (total iov)) := by
  have opening := (opened_described formed serves opened).1
  have ready := opened_ready formed serves fresh opened
  obtain ⟨kept, now⟩ := after_reads_ready fuel earlier ready
  have since := opening.trans kept
  have word := image.header.size.toNat_lt
  have start : (sector <<< sectorShift).toNat = sector.toNat * 512 := by
    rw [shifted_toNat]
    omega
  have range : Inside (afterReads fuel q earlier) (sector <<< sectorShift).toNat (total iov) := by
    have described : Inside (described image) (sector <<< sectorShift).toNat (total iov) := by
      rw [start]
      exact ⟨inside, covered⟩
    exact described.kept since
  obtain ⟨last, passed⟩ := now.read_passes range
  have answers := each_answers (afterReads fuel q earlier) sector true 0 short enough
    (fun address outside => rfl : Confined memory memory iov) fun _ member => member
  rw [passed, Int.zero_add] at answers
  have narrow := now.narrow
  have filled := each_fills memory 0 now.sectors (by omega) now.coherent short
    (SectorSplit.whole_all aligned) enough (by omega) passed
  rw [since.reference, start] at filled
  exact ⟨answers.1, filled.2⟩

end Opening

/-! An image of the first version: a cluster of sevens and one that is not allocated. -/

def sevens : ImageFile where
  file := ⟨fun i => if i = 518 then 4 else if i = 1030 then 6 else if 1536 ≤ i then 7 else 0, 2048,
    false⟩
  calls := 0
  host := fun _ => .moves 4096

def sevensImage : Qcow where
  version := 1
  header := ⟨1024, 512, 1, 9, 1, 0, 0⟩
  tableSize := 0
  l1Table := fun _ => 0
  l2Cache := []
  rfSize := 0
  rfTable := fun _ => 0
  rfCache := []
  freeClustIdx := 0
  copyBuff := fun _ => 0
  disk := sevens

theorem sevens_linked : Linked (described sevensImage) := by
  constructor
  · decide
  · decide
  · decide

theorem sevens_well_formed : WellFormed sevensImage := by
  constructor
  · exact Or.inl rfl
  · decide
  · decide
  · decide
  · decide
  · decide
  · decide
  · exact sevens_linked

theorem sevens_opens : qcowReadL1Table sevensImage = (true, (qcowReadL1Table sevensImage).2) := by
  have loaded : (qcowReadL1Table sevensImage).1 = true := by decide
  exact Prod.ext loaded rfl

theorem sevens_serves : Serves sevensImage.disk := fun _ => ⟨4096, by decide, rfl⟩

/-- After a read of the second cluster, both are read into two buffers. -/
theorem sevens_read :
    (qcowReadSector (2 ^ 32) (afterReads (2 ^ 32) (qcowReadL1Table sevensImage).2
        [⟨fun _ => 1, 1, [⟨0, 512⟩]⟩]) (fun _ => 1) 0 [⟨0, 512⟩, ⟨4096, 512⟩]).total =
        some 1024 ∧
      (qcowReadSector (2 ^ 32) (afterReads (2 ^ 32) (qcowReadL1Table sevensImage).2
          [⟨fun _ => 1, 1, [⟨0, 512⟩]⟩]) (fun _ => 1) 0 [⟨0, 512⟩, ⟨4096, 512⟩]).bytes =
        scatter (fun _ => 1) [⟨0, 512⟩, ⟨4096, 512⟩]
          (readRange (reference (described sevensImage)) 0 1024) :=
  reads_return_reference sevens_well_formed sevens_serves rfl sevens_opens _ (2 ^ 32)
    (Nat.le_refl _) _ 0 _ (by decide) (by decide) (by decide) (by decide)

end VirtioDisk.ReferenceReads
