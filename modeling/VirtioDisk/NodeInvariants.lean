import VirtioDisk.QcowNodes

/-!
What every write keeps. An invariant of the image that is kept by the steps in
which a node, a table or the file changes is kept by the whole of a write, also
where it fails or uses freed memory.
-/

namespace VirtioDisk.NodeInvariants

open ByteStore (Range)
open NodeCache QcowNodes
open QcowWrite (Machine)

def Takes {Result : Type} (before behind : Image → Prop) (op : Op Result) : Prop :=
  ∀ s, before s → behind (op s).2

def Keeps {Result : Type} (holds : Image → Prop) (op : Op Result) : Prop := Takes holds holds op

section Rules
variable {First Second : Type} {holds : Image → Prop}

theorem keeps_pure (result : First) : Keeps holds (pure result : Op First) := fun _ held => held

theorem keeps_fail (fault : Fault) : Keeps holds (fail fault : Op First) := fun _ held => held

theorem keeps_read (get : Image → First) : Keeps holds (read get) := fun _ held => held

theorem bind_ok {first : Op First} {rest : First → Op Second} {s after : Image} {result : First}
    (ran : first s = (.ok result, after)) : (first >>= rest) s = rest result after := by
  simp only [bind, ran]

theorem bind_error {first : Op First} {rest : First → Op Second} {s after : Image}
    {fault : Fault} (ran : first s = (.error fault, after)) :
    (first >>= rest) s = (.error fault, after) := by
  simp only [bind, ran]

theorem bind_same {first second : Op First} {s other : Image} (rest : First → Op Second)
    (same : first s = second other) : (first >>= rest) s = (second >>= rest) other := by
  simp only [bind, same]

theorem Takes.bind {before middle behind : Image → Prop} {first : Op First}
    {rest : First → Op Second} (onward : Takes before middle first)
    (faulted : ∀ s, middle s → behind s) (further : ∀ result, Takes middle behind (rest result)) :
    Takes before behind (first >>= rest) := by
  intro s held
  have reached := onward s held
  cases ran : first s with
  | mk outcome next =>
      rw [ran] at reached
      cases outcome with
      | ok result =>
          rw [bind_ok ran]
          exact further result next reached
      | error fault =>
          rw [bind_error ran]
          exact faulted next reached

theorem Keeps.bind {first : Op First} {rest : First → Op Second} (before : Keeps holds first)
    (behind : ∀ result, Keeps holds (rest result)) : Keeps holds (first >>= rest) :=
  Takes.bind before (fun _ held => held) behind

theorem note_if_true {happens : Image → Bool} {s : Image} (turn : Turn)
    (happened : happens s = true) : noteIf happens turn s = (.ok (), noted turn s) := by
  rw [noteIf, change, if_pos happened]

theorem note_if_false {happens : Image → Bool} {s : Image} (turn : Turn)
    (not : ¬ happens s = true) : noteIf happens turn s = (.ok (), s) := by
  rw [noteIf, change, if_neg not]

theorem note_if_ran (happens : Image → Bool) (turn : Turn) (s : Image) :
    noteIf happens turn s =
      (.ok (), { s with turns := (if happens s then [turn] else []) ++ s.turns }) := by
  rw [noteIf, change]
  split <;> rfl

/-- What a write to the file adds to the turns. -/
def writeTurns (s : Image) (owner : Owner) (length : Nat) (offset : UInt64) : List Turn :=
  (if OverL1Table s owner offset.toNat length then [.overL1Table] else []) ++
    if OverBlock s owner offset.toNat length then [.overBlock] else []

theorem note_write_ran (owner : Owner) (length : Nat) (offset : UInt64) (s : Image) :
    noteWrite owner length offset s =
      (.ok (), { s with turns := writeTurns s owner length offset ++ s.turns }) := by
  unfold noteWrite writeTurns
  by_cases block : OverBlock s owner offset.toNat length
  · rw [bind_ok (note_if_true _ (decide_eq_true block)), if_pos block]
    by_cases table : OverL1Table s owner offset.toNat length
    · rw [if_pos table]
      exact note_if_true _ (decide_eq_true table)
    · rw [if_neg table]
      exact note_if_false _ (by rwa [decide_eq_true_iff])
  · rw [bind_ok (note_if_false _ (by rwa [decide_eq_true_iff])), if_neg block]
    by_cases table : OverL1Table s owner offset.toNat length
    · rw [if_pos table]
      exact note_if_true _ (decide_eq_true table)
    · rw [if_neg table]
      exact note_if_false _ (by rwa [decide_eq_true_iff])

theorem sync_ran (owner : Owner) (bytes : List UInt8) (offset : UInt64) (s : Image) :
    qcowPwriteSync owner bytes offset s =
      (.ok (QcowWrite.qcowPwriteSync s.disk bytes offset).1, { s with
        turns := writeTurns s owner bytes.length offset ++ s.turns
        disk := (QcowWrite.qcowPwriteSync s.disk bytes offset).2 }) := by
  unfold qcowPwriteSync
  exact bind_ok (note_write_ran owner bytes.length offset s)

theorem write_ran (bytes : List UInt8) (offset : UInt64) (s : Image) :
    pwrite bytes offset s =
      (.ok (QcowWrite.pwriteInFull s.disk bytes offset).1, { s with
        turns := writeTurns s .data bytes.length offset ++ s.turns
        disk := (QcowWrite.pwriteInFull s.disk bytes offset).2 }) := by
  unfold pwrite
  exact bind_ok (note_write_ran .data bytes.length offset s)

theorem table_alive {s : Image} {p : Nat} {c : QcowImage.L2Table}
    (there : s.l2.cells p = some c) : tableAt p s = (.ok c, s) := by
  rw [tableAt, there]

theorem block_alive {s : Image} {p : Nat} {rfb : QcowImage.RefcountBlock}
    (there : s.rf.cells p = some rfb) : blockAt p s = (.ok rfb, s) := by
  rw [blockAt, there]

theorem table_dead {s : Image} {p : Nat} (gone : s.l2.cells p = none) :
    tableAt p s = (.error .freed, s) := by
  rw [tableAt, gone]

theorem block_dead {s : Image} {p : Nat} (gone : s.rf.cells p = none) :
    blockAt p s = (.error .freed, s) := by
  rw [blockAt, gone]

theorem keeps_note_if {turn : Turn} (keeps : ∀ s, holds s → holds (noted turn s))
    (happens : Image → Bool) : Keeps holds (noteIf happens turn) := by
  intro s held
  change holds (if happens s then noted turn s else s)
  split
  · exact keeps s held
  · exact held

theorem keeps_table_at (p : Nat) : Keeps holds (tableAt p) := by
  intro s held
  rw [tableAt]
  split <;> exact held

theorem keeps_block_at (p : Nat) : Keeps holds (blockAt p) := by
  intro s held
  rw [blockAt]
  split <;> exact held

end Rules

theorem Keeps.and {Result : Type} {holds other : Image → Prop} {op : Op Result}
    (first : Keeps holds op) (second : Keeps other op) :
    Keeps (fun s => holds s ∧ other s) op :=
  fun s both => ⟨first s both.1, second s both.2⟩

/-! Where a block is. -/

/-- The refcount table has a block at this offset. -/
def Named (s : Image) (offset : UInt64) : Prop :=
  ∃ i < s.rfSize, s.rfTable i = offset ∧ offset ≠ 0

/-- The refcount table has no block for this entry. -/
def Absent (s : Image) (rftIdx : Nat) : Prop := rftIdx < s.rfSize ∧ s.rfTable rftIdx = 0

/-- The refcount table has no block for this cluster, or no entry either. -/
def Uncovered (s : Image) (clustIdx : UInt64) : Prop :=
  s.rfSize ≤ rftIndex s clustIdx ∨ s.rfTable (rftIndex s clustIdx) = 0

section Blocks
variable {m : Machine} {s after : Image} {clustIdx : UInt64}

theorem search_block_ran (offset : UInt64) (s : Image) :
    ∃ found rf, refcountBlockSearch offset s = (found, { s with rf := rf }) ∧
      (found = .ok none → find blockKey offset.toNat rf = none) := by
  rw [refcountBlockSearch, search]
  by_cases dangles : Dangles s.rf
  · rw [if_pos dangles]
    exact ⟨_, s.rf, rfl, fun missing => by cases missing⟩
  · rw [if_neg dangles]
    cases found : find blockKey offset.toNat s.rf with
    | none => exact ⟨_, s.rf, rfl, fun _ => found⟩
    | some p => exact ⟨_, _, rfl, fun missing => by cases missing⟩

theorem read_block_uncovered (m : Machine) (gone : Uncovered s clustIdx) :
    qcowReadRefcountBlock m clustIdx s = (.ok .absent, s) := by
  have start : QcowNodes.read id s = (.ok s, s) := rfl
  rw [qcowReadRefcountBlock, bind_ok start]
  by_cases covered : s.rfSize ≤ rftIndex s clustIdx
  · rw [if_pos covered]
    rfl
  · rw [if_neg covered, if_pos (gone.resolve_left covered)]
    rfl

/-- The block of a cluster is searched in the cache, and then in the file. -/
theorem read_block_covered (m : Machine) (there : ¬ Uncovered s clustIdx) :
    Named s (s.rfTable (rftIndex s clustIdx)) ∧ qcowReadRefcountBlock m clustIdx s = (do
      let found ← refcountBlockSearch (s.rfTable (rftIndex s clustIdx))
      match found with
      | some rfb => pure (.found rfb)
      | none => loadRefcountBlock m (s.rfTable (rftIndex s clustIdx)) : Op BlockRead) s := by
  have start : QcowNodes.read id s = (.ok s, s) := rfl
  obtain ⟨covered, named⟩ := not_or.mp there
  refine ⟨⟨_, Nat.not_le.mp covered, rfl, named⟩, ?_⟩
  rw [qcowReadRefcountBlock, bind_ok start, if_neg covered]
  exact congrFun (if_neg named) s

theorem load_block_found {offset : UInt64}
    (ran : loadRefcountBlock m offset s = (.ok .absent, after)) : False := by
  have size : QcowNodes.read (fun s => s.clusterSize / 2) s = (.ok (s.clusterSize / 2), s) := rfl
  rw [loadRefcountBlock, bind_ok size] at ran
  cases read : pread (2 * (s.clusterSize / 2)) offset s with
  | mk outcome middle =>
      cases outcome with
      | error fault =>
          rw [bind_error read] at ran
          cases ran
      | ok bytes =>
          rw [bind_ok read] at ran
          cases bytes with
          | none => cases ran
          | some bytes =>
              -- What follows gives a node, or a fault.
              have tail {Between : Type} {op : Op Between} {p : Nat} {s : Image}
                  (ran : (op >>= fun _ => pure (BlockRead.found p)) s = (.ok .absent, after)) :
                  False := by
                cases first : op s with
                | mk outcome middle =>
                    cases outcome with
                    | error fault =>
                        rw [bind_error first] at ran
                        cases ran
                    | ok result =>
                        rw [bind_ok first] at ran
                        cases ran
              exact tail ran

/-- An absent block is reported before anything else is done. -/
theorem read_block_absent (ran : qcowReadRefcountBlock m clustIdx s = (.ok .absent, after)) :
    after = s ∧ Uncovered s clustIdx := by
  by_cases gone : Uncovered s clustIdx
  · rw [read_block_uncovered m gone] at ran
    cases ran
    exact ⟨rfl, gone⟩
  · rw [(read_block_covered m gone).2] at ran
    obtain ⟨found, rf, searched, _⟩ := search_block_ran (s.rfTable (rftIndex s clustIdx)) s
    cases found with
    | error fault =>
        rw [bind_error searched] at ran
        cases ran
    | ok found =>
        rw [bind_ok searched] at ran
        cases found with
        | some p => cases ran
        | none => exact (load_block_found ran).elim

end Blocks

/-- The steps of the scan in which something changes. -/
structure Scanned (m : Machine) (holds : Image → Prop) : Prop where
  searchBlock : ∀ offset, Keeps holds (refcountBlockSearch offset)
  loadBlock : ∀ offset,
    Takes (fun s => holds s ∧ Named s offset ∧ find blockKey offset.toNat s.rf = none) holds
      (loadRefcountBlock m offset)
  nextIndex : Keeps holds nextClustIdx

/-- The steps of a write in which something changes. A new level 2 table and the copy of a
cluster have the offset -1. -/
structure Kept (m : Machine) (holds : Image → Prop) : Prop extends Scanned m holds where
  searchTable : ∀ offset, Keeps holds (l2TableSearch offset)
  loadTable : ∀ offset, Keeps holds (loadTable offset)
  read : ∀ count offset, Keeps holds (pread count offset)
  write : ∀ bytes offset, Keeps holds (pwrite bytes offset)
  grow : ∀ rftIdx offset,
    Takes (fun s => holds s ∧ Absent s rftIdx) holds (linkGrown rftIdx offset)
  undo : ∀ rfb rftIdx, Keeps holds (undoGrowth rfb rftIdx)
  writeTable : Keeps holds qcowWriteRefcountTable
  noteGone : ∀ happens, Keeps holds (noteIf happens .blockGone)
  updateBlock : ∀ p clustIdx append, Keeps holds (updateBlock p clustIdx append)
  copyBuff : ∀ base bytes, Keeps holds (setCopyBuff base bytes)
  cacheWrite : ∀ p, Keeps holds (qcowL2CacheWrite p)
  storeCopy : (∀ start size, Keeps holds (qcowFreeClusters m start size)) →
    ∀ table l2tIdx start flags clustOff src,
      Keeps holds (storeCopy m table l2tIdx (-1) start flags clustOff src)
  moveTable : (∀ start size, Keeps holds (qcowFreeClusters m start size)) →
    ∀ l1tIdx l2tOffset, Keeps holds (moveTable m l1tIdx l2tOffset (-1))

section Functions
variable {m : Machine} {holds : Image → Prop}

theorem Scanned.read_block (scanned : Scanned m holds) (clustIdx : UInt64) :
    Keeps holds (qcowReadRefcountBlock m clustIdx) := by
  intro s held
  by_cases gone : Uncovered s clustIdx
  · rw [read_block_uncovered m gone]
    exact held
  · obtain ⟨named, body⟩ := read_block_covered m gone
    rw [body]
    generalize s.rfTable (rftIndex s clustIdx) = offset at named
    obtain ⟨found, rf, ran, missing⟩ := search_block_ran offset s
    have reached := scanned.searchBlock offset s held
    rw [ran] at reached
    cases found with
    | error fault =>
        rw [bind_error ran]
        exact reached
    | ok found =>
        rw [bind_ok ran]
        cases found with
        | none => exact scanned.loadBlock offset _ ⟨reached, named, missing rfl⟩
        | some rfb => exact reached

theorem Scanned.get_refcount (scanned : Scanned m holds) (clustIdx : UInt64) :
    Keeps holds (qcowGetRefcount m clustIdx) := by
  unfold qcowGetRefcount
  refine Keeps.bind (scanned.read_block clustIdx) ?_
  intro block
  cases block with
  | absent => exact keeps_pure _
  | failed => exact keeps_pure _
  | found p =>
      refine Keeps.bind (keeps_block_at p) ?_
      intro rfb
      refine Keeps.bind (keeps_read _) ?_
      intro index
      split <;> exact keeps_pure _

theorem Scanned.scan (scanned : Scanned m holds) (fuel count i : Nat) (clustIdx : UInt32) :
    Keeps holds (scanClusters m fuel count i clustIdx) := by
  induction fuel generalizing i clustIdx with
  | zero => exact keeps_fail _
  | succ fuel ih =>
      rw [scanClusters]
      split
      · exact keeps_pure _
      · refine Keeps.bind scanned.nextIndex ?_
        intro index
        refine Keeps.bind (scanned.get_refcount _) ?_
        intro refcount
        split
        · exact keeps_pure _
        · split
          · exact ih _ _
          · exact ih _ _

theorem keeps_mark {update : Update} (keeps : ∀ clustIdx append, Keeps holds (update clustIdx append))
    (first : UInt64) (left i : Nat) : Keeps holds (markClusters update first left i) := by
  induction left generalizing i with
  | zero => exact keeps_pure _
  | succ left ih =>
      rw [markClusters]
      refine Keeps.bind (keeps _ _) ?_
      intro marked
      split
      · exact ih _
      · exact keeps_pure _

theorem Kept.alloc (kept : Kept m holds) {update : Update}
    (keeps : ∀ clustIdx append, Keeps holds (update clustIdx append)) (size : Nat)
    (updateRef : Bool) : Keeps holds (allocClusters m update size updateRef) := by
  unfold allocClusters
  refine Keeps.bind (keeps_read _) ?_
  intro count
  refine Keeps.bind (keeps_read _) ?_
  intro bits
  refine Keeps.bind (kept.toScanned.scan _ _ _ _) ?_
  intro found
  cases found with
  | none => exact keeps_pure _
  | some last =>
      dsimp only
      split
      · refine Keeps.bind (keeps_mark keeps _ _ _) ?_
        intro marked
        exact keeps_pure _
      · exact keeps_pure _

/-- Without counting them, clusters are only looked for. -/
theorem Scanned.look (scanned : Scanned m holds) (update : Update) (size : Nat) :
    Keeps holds (allocClusters m update size false) := by
  unfold allocClusters
  refine Keeps.bind (keeps_read _) ?_
  intro count
  refine Keeps.bind (keeps_read _) ?_
  intro bits
  refine Keeps.bind (scanned.scan _ _ _ _) ?_
  intro found
  cases found with
  | none => exact keeps_pure _
  | some last => exact keeps_pure _

theorem link_block_ran (p : Nat) (s : Image) :
    ∃ outcome rf, linkBlock p s = (outcome, { s with rf := rf }) := by
  rw [linkBlock]
  split
  · exact ⟨_, s.rf, rfl⟩
  · exact ⟨_, _, rfl⟩

/-- The scan does not change the refcount table. -/
theorem scanned_absent (m : Machine) (rftIdx : Nat) : Scanned m (Absent · rftIdx) where
  searchBlock := by
    intro offset s absent
    obtain ⟨found, rf, ran, _⟩ := search_block_ran offset s
    rw [ran]
    exact absent
  loadBlock := by
    intro offset s both
    refine (show Keeps (Absent · rftIdx) _ from ?_) s both.1
    have noted (turn : Turn) (happens : Image → Bool) :
        Keeps (Absent · rftIdx) (noteIf happens turn) :=
      keeps_note_if (fun _ absent => absent) happens
    unfold loadRefcountBlock
    refine Keeps.bind (keeps_read _) ?_
    intro size
    refine Keeps.bind (fun _ absent => absent) ?_
    intro bytes
    cases bytes with
    | none => exact keeps_pure _
    | some bytes =>
        refine Keeps.bind (noted _ _) ?_
        intro _
        refine Keeps.bind (fun _ absent => absent) ?_
        intro rfb
        refine Keeps.bind (fun _ absent => absent) ?_
        intro _
        refine Keeps.bind ?_ fun _ => keeps_pure _
        unfold cacheRefcountBlock
        refine Keeps.bind (keeps_block_at rfb) ?_
        intro _
        refine Keeps.bind (noted _ _) ?_
        intro _
        refine Keeps.bind (noted _ _) ?_
        intro _ s absent
        obtain ⟨outcome, rf, ran⟩ := link_block_ran rfb s
        rw [ran]
        exact absent
  nextIndex := by
    unfold nextClustIdx
    refine Keeps.bind (keeps_read _) ?_
    intro index
    refine Keeps.bind (keeps_note_if (fun _ absent => absent) _) ?_
    intro _
    exact Keeps.bind (fun _ absent => absent) fun _ => keeps_pure _

theorem Kept.grow_block (kept : Kept m holds) {update : Update}
    (keeps : ∀ clustIdx append, Keeps holds (update clustIdx append)) (clustIdx : UInt64) :
    Takes (fun s => holds s ∧ Uncovered s clustIdx) holds
      (qcowGrowRefcountBlock m update clustIdx) := by
  rintro s ⟨held, gone⟩
  have start : QcowNodes.read id s = (.ok s, s) := rfl
  rw [qcowGrowRefcountBlock, bind_ok start]
  by_cases covered : s.rfSize ≤ rftIndex s clustIdx
  · rw [if_pos covered]
    exact held
  · rw [if_neg covered]
    have absent : Absent s (rftIndex s clustIdx) :=
      ⟨Nat.not_le.mp covered, gone.resolve_left covered⟩
    generalize rftIndex s clustIdx = rftIdx at absent
    have looked := (kept.toScanned.look update s.clusterSize).and
      ((scanned_absent m rftIdx).look update s.clusterSize)
    refine Takes.bind looked (fun _ both => both.1) ?_ s ⟨held, absent⟩
    intro offset
    split
    · exact fun _ both => both.1
    · refine Takes.bind (kept.grow rftIdx offset) (fun _ held => held) ?_
      intro linked
      cases linked with
      | none => exact keeps_pure _
      | some rfb =>
          refine Keeps.bind (keeps _ _) ?_
          intro updated
          refine Keeps.bind (kept.noteGone _) ?_
          intro _
          split
          · refine Keeps.bind kept.writeTable ?_
            intro written
            split
            · exact keeps_pure _
            · exact kept.undo _ _
          · exact kept.undo _ _

theorem Kept.update (kept : Kept m holds) (fuel : Nat) (clustIdx : UInt64) (append : UInt16) :
    Keeps holds (updateClusterRefcount m fuel clustIdx append) := by
  induction fuel generalizing clustIdx append with
  | zero => exact keeps_fail _
  | succ fuel ih =>
      intro s held
      rw [updateClusterRefcount]
      have reached := kept.toScanned.read_block clustIdx s held
      cases ran : qcowReadRefcountBlock m clustIdx s with
      | mk outcome after =>
          rw [ran] at reached
          cases outcome with
          | error fault =>
              rw [bind_error ran]
              exact reached
          | ok block =>
              rw [bind_ok ran]
              cases block with
              | absent =>
                  obtain ⟨rfl, gone⟩ := read_block_absent ran
                  refine Takes.bind (kept.grow_block ih clustIdx) (fun _ held => held) ?_ after
                    ⟨held, gone⟩
                  intro grown
                  cases grown with
                  | none => exact keeps_pure _
                  | some p => exact kept.updateBlock _ _ _
              | failed => exact reached
              | found p => exact kept.updateBlock p clustIdx append after reached

theorem Kept.alloc_clusters (kept : Kept m holds) (size : Nat) (updateRef : Bool) :
    Keeps holds (qcowAllocClusters m size updateRef) :=
  kept.alloc (kept.update m.fuel) size updateRef

theorem Kept.free_each (kept : Kept m holds) (fuel : Nat) (offset stop : UInt64) :
    Keeps holds (freeEach m fuel offset stop) := by
  induction fuel generalizing offset with
  | zero => exact keeps_fail _
  | succ fuel ih =>
      rw [freeEach]
      split
      · refine Keeps.bind (keeps_read _) ?_
        intro s
        refine Keeps.bind (kept.update _ _ _) ?_
        intro _
        exact ih _
      · exact keeps_pure _

theorem Kept.free_clusters (kept : Kept m holds) (start size : UInt64) :
    Keeps holds (qcowFreeClusters m start size) := by
  unfold qcowFreeClusters
  refine Keeps.bind (keeps_read _) ?_
  intro mask
  exact kept.free_each _ _ _

theorem Kept.read_table (kept : Kept m holds) (offset : UInt64) :
    Keeps holds (qcowReadL2Table offset) := by
  unfold qcowReadL2Table
  refine Keeps.bind (kept.searchTable offset) ?_
  intro found
  cases found with
  | none => exact kept.loadTable offset
  | some l2t => exact keeps_pure _

theorem Kept.get_table (kept : Kept m holds) (offset : UInt64) :
    Keeps holds (getClusterTable m offset) := by
  unfold getClusterTable
  refine Keeps.bind (keeps_read _) ?_
  intro s
  dsimp only
  split
  · exact keeps_pure _
  · split
    · exact keeps_pure _
    · split
      · refine Keeps.bind (kept.read_table _) ?_
        intro found
        exact keeps_pure _
      · refine Keeps.bind (kept.alloc_clusters _ _) ?_
        intro offset
        split
        · exact keeps_pure _
        · next refused =>
          rw [not_not.mp refused]
          refine Keeps.bind (kept.moveTable kept.free_clusters _ _) ?_
          intro moved
          exact keeps_pure _

theorem Kept.read_compressed (kept : Kept m holds) (entry : UInt64) :
    Keeps holds (readCompressed entry) := by
  unfold readCompressed
  refine Keeps.bind (keeps_read _) ?_
  intro s
  refine Keeps.bind (kept.read _ _) ?_
  intro bytes
  cases bytes with
  | none => exact keeps_pure _
  | some bytes =>
      dsimp only
      split
      · exact keeps_fail _
      · exact keeps_pure _

theorem Kept.read_plain (kept : Kept m holds) (start : UInt64) (clustOffset length : Nat) :
    Keeps holds (readPlain start clustOffset length) := by
  unfold readPlain
  split
  · exact keeps_pure _
  · refine Keeps.bind (kept.read _ _) ?_
    intro bytes
    cases bytes with
    | none => exact keeps_pure _
    | some bytes => exact keeps_pure _

theorem Kept.read_cluster (kept : Kept m holds) (offset : UInt64) (dstLen : Nat) :
    Keeps holds (qcow2ReadCluster offset dstLen) := by
  unfold qcow2ReadCluster
  refine Keeps.bind (keeps_read _) ?_
  intro s
  dsimp only
  split
  · exact keeps_pure _
  · split
    · exact keeps_pure _
    · split
      · exact keeps_pure _
      · refine Keeps.bind (kept.read_table _) ?_
        intro found
        cases found with
        | none => exact keeps_pure _
        | some p =>
            refine Keeps.bind (keeps_table_at p) ?_
            intro l2t
            split
            · exact keeps_pure _
            · split
              · exact kept.read_compressed _
              · exact kept.read_plain _ _ _

section Frees
variable (frees : ∀ start size, Keeps holds (qcowFreeClusters m start size))
include frees

theorem keeps_free_old (start flags : UInt64) : Keeps holds (freeOld m start flags) := by
  unfold freeOld
  refine Keeps.bind (keeps_read _) ?_
  intro s
  split
  · exact frees _ _
  · split
    · exact frees _ _
    · exact keeps_pure _

theorem keeps_free_new (start : UInt64) : Keeps holds (freeNew m start) := by
  unfold freeNew
  refine Keeps.bind (keeps_read _) ?_
  intro size
  refine Keeps.bind (frees _ _) ?_
  intro _
  exact keeps_pure _

theorem keeps_store_copy (buffer : ∀ base bytes, Keeps holds (setCopyBuff base bytes))
    (write : ∀ bytes offset, Keeps holds (pwrite bytes offset))
    (setEntry : ∀ p index entry, Keeps holds (setTableEntry p index entry))
    (cacheWrite : ∀ p, Keeps holds (qcowL2CacheWrite p)) (table l2tIdx : Nat)
    (new start flags : UInt64) (clustOff : Nat) (src : List UInt8) :
    Keeps holds (storeCopy m table l2tIdx new start flags clustOff src) := by
  unfold storeCopy
  refine Keeps.bind (buffer _ _) ?_
  intro _
  refine Keeps.bind (keeps_read _) ?_
  intro cluster
  refine Keeps.bind (write _ _) ?_
  intro copied
  split
  · refine Keeps.bind (setEntry _ _ _) ?_
    intro _
    refine Keeps.bind (cacheWrite _) ?_
    intro written
    split
    · refine Keeps.bind (keeps_free_old frees _ _) ?_
      intro _
      exact keeps_pure _
    · exact keeps_free_new frees _
  · exact keeps_free_new frees _

end Frees

theorem Kept.copy_cluster (kept : Kept m holds) (table l2tIdx : Nat)
    (offset start flags : UInt64) (clustOff : Nat) (src : List UInt8) :
    Keeps holds (copyCluster m table l2tIdx offset start flags clustOff src) := by
  have copied (base : Nat) (bytes : List UInt8) : Keeps holds (do
      setCopyBuff base bytes
      QcowNodes.storeCopy m table l2tIdx (-1) start flags clustOff src) := by
    refine Keeps.bind (kept.copyBuff _ _) ?_
    intro _
    exact kept.storeCopy kept.free_clusters _ _ _ _ _ _
  unfold copyCluster
  refine Keeps.bind (keeps_read _) ?_
  intro size
  refine Keeps.bind (kept.alloc_clusters _ _) ?_
  intro new
  split
  · exact keeps_pure _
  · next refused =>
    rw [not_not.mp refused]
    split
    · refine Keeps.bind (kept.read_cluster _ _) ?_
      intro copy
      cases copy with
      | wild => exact keeps_free_new kept.free_clusters _
      | error => exact keeps_free_new kept.free_clusters _
      | zero length => exact copied _ _
      | data length bytes => exact copied _ _
    · exact copied _ _

theorem Kept.write_cluster (kept : Kept m holds) (offset : UInt64) (buf : List UInt8) :
    Keeps holds (qcowWriteCluster m offset buf) := by
  unfold qcowWriteCluster
  refine Keeps.bind (keeps_read _) ?_
  intro s
  dsimp only
  split
  · exact keeps_pure _
  · refine Keeps.bind (kept.get_table offset) ?_
    intro got
    cases got with
    | none => exact keeps_pure _
    | some place =>
        obtain ⟨table, l2tIdx⟩ := place
        refine Keeps.bind (keeps_table_at table) ?_
        intro l2t
        split
        · exact kept.copy_cluster _ _ _ _ _ _ _
        · refine Keeps.bind (kept.write _ _) ?_
          intro written
          exact keeps_pure _

theorem Kept.write_loop (kept : Kept m holds) (turns : Nat) (offset : UInt64) (buf : List UInt8)
    (nrWritten : Nat) : Keeps holds (writeSectorLoop m turns offset buf nrWritten) := by
  induction turns generalizing offset buf nrWritten with
  | zero => exact keeps_pure _
  | succ turns ih =>
      rw [writeSectorLoop]
      refine Keeps.bind (keeps_read _) ?_
      intro size
      split
      · exact keeps_pure _
      · split
        · exact keeps_pure _
        · refine Keeps.bind (kept.write_cluster _ _) ?_
          intro nr
          cases nr with
          | none => exact keeps_pure _
          | some nr => exact ih _ _ _

theorem Kept.write_each (kept : Kept m holds) (memory : Nat → UInt8) (iov : List Range)
    (sector : UInt64) (total : Int) : Keeps holds (writeEach m memory iov sector total) := by
  induction iov generalizing sector total with
  | nil => exact keeps_pure _
  | cons entry rest ih =>
      rw [writeEach]
      refine Keeps.bind (kept.write_loop _ _ _ _) ?_
      intro nr
      split
      · exact keeps_pure _
      · exact ih _ _

theorem Kept.write_sector (kept : Kept m holds) (memory : Nat → UInt8) (sector : UInt64)
    (iov : List Range) : Keeps holds (qcowWriteSector m memory sector iov) :=
  kept.write_each memory iov sector 0

end Functions

/-! The turns of a run. -/

/-- The program has taken one of these turns. -/
def Turned (kind : Turn → Prop) (s : Image) : Prop := ∃ turn ∈ s.turns, kind turn

section Turns
variable {kind : Turn → Prop} {m : Machine}

theorem keeps_same {Result : Type} {op : Op Result} (same : ∀ s, (op s).2.turns = s.turns) :
    Keeps (Turned kind) op := by
  intro s turned
  rw [Turned, same]
  exact turned

theorem turned_note (turn : Turn) (happens : Image → Bool) :
    Keeps (Turned kind) (noteIf happens turn) := by
  apply keeps_note_if
  rintro s ⟨other, taken, harmful⟩
  exact ⟨other, List.mem_cons_of_mem _ taken, harmful⟩

theorem turned_note_write (owner : Owner) (length : Nat) (offset : UInt64) :
    Keeps (Turned kind) (noteWrite owner length offset) := by
  unfold noteWrite
  refine Keeps.bind (turned_note _ _) ?_
  intro _
  exact turned_note _ _

theorem turned_write (bytes : List UInt8) (offset : UInt64) :
    Keeps (Turned kind) (pwrite bytes offset) := by
  unfold pwrite
  refine Keeps.bind (turned_note_write _ _ _) ?_
  intro _
  exact keeps_same fun _ => rfl

theorem turned_sync (owner : Owner) (bytes : List UInt8) (offset : UInt64) :
    Keeps (Turned kind) (qcowPwriteSync owner bytes offset) := by
  unfold qcowPwriteSync
  refine Keeps.bind (turned_note_write _ _ _) ?_
  intro _
  exact keeps_same fun _ => rfl

theorem turned_search_table (offset : UInt64) : Keeps (Turned kind) (l2TableSearch offset) := by
  apply keeps_same
  intro s
  rw [l2TableSearch]
  split <;> rfl

theorem turned_search_block (offset : UInt64) :
    Keeps (Turned kind) (refcountBlockSearch offset) := by
  apply keeps_same
  intro s
  rw [refcountBlockSearch]
  split <;> rfl

theorem turned_link_table (p : Nat) : Keeps (Turned kind) (linkTable p) := by
  apply keeps_same
  intro s
  rw [linkTable]
  split <;> rfl

theorem turned_link_block (p : Nat) : Keeps (Turned kind) (linkBlock p) := by
  apply keeps_same
  intro s
  rw [linkBlock]
  split <;> rfl

theorem turned_cache_table (p : Nat) : Keeps (Turned kind) (cacheTable p) := by
  unfold cacheTable
  refine Keeps.bind (keeps_table_at p) ?_
  intro c
  refine Keeps.bind (turned_note _ _) ?_
  intro _
  refine Keeps.bind (turned_note _ _) ?_
  intro _
  exact turned_link_table p

theorem turned_cache_block (p : Nat) : Keeps (Turned kind) (cacheRefcountBlock p) := by
  unfold cacheRefcountBlock
  refine Keeps.bind (keeps_block_at p) ?_
  intro rfb
  refine Keeps.bind (turned_note _ _) ?_
  intro _
  refine Keeps.bind (turned_note _ _) ?_
  intro _
  exact turned_link_block p

theorem turned_note_table (p : Nat) : Keeps (Turned kind) (noteTable p) := by
  unfold noteTable
  refine Keeps.bind (keeps_table_at p) ?_
  intro c
  exact keeps_same fun _ => rfl

theorem turned_set_entry (p index : Nat) (entry : UInt64) :
    Keeps (Turned kind) (setTableEntry p index entry) := by
  unfold setTableEntry
  refine Keeps.bind (keeps_table_at p) ?_
  intro c
  refine Keeps.bind (keeps_same fun _ => rfl) ?_
  intro _
  exact turned_note_table p

theorem turned_cache_write (p : Nat) : Keeps (Turned kind) (qcowL2CacheWrite p) := by
  unfold qcowL2CacheWrite
  refine Keeps.bind (keeps_table_at p) ?_
  intro c
  split
  · refine Keeps.bind (keeps_read _) ?_
    intro size
    refine Keeps.bind (turned_sync _ _ _) ?_
    intro written
    split
    · refine Keeps.bind (keeps_same fun _ => rfl) ?_
      intro _
      exact keeps_pure _
    · exact keeps_pure _
  · exact keeps_pure _

theorem turned_write_block (owner : Owner) (p : Nat) :
    Keeps (Turned kind) (writeRefcountBlock owner p) := by
  unfold writeRefcountBlock
  refine Keeps.bind (keeps_block_at p) ?_
  intro rfb
  split
  · refine Keeps.bind (turned_sync _ _ _) ?_
    intro written
    split
    · refine Keeps.bind (keeps_same fun _ => rfl) ?_
      intro _
      exact keeps_pure _
    · exact keeps_pure _
  · exact keeps_pure _

theorem turned_load_table (offset : UInt64) : Keeps (Turned kind) (loadTable offset) := by
  unfold loadTable
  refine Keeps.bind (keeps_read _) ?_
  intro size
  refine Keeps.bind (keeps_same fun _ => rfl) ?_
  intro bytes
  cases bytes with
  | none => exact keeps_pure _
  | some bytes =>
      refine Keeps.bind (keeps_same fun _ => rfl) ?_
      intro l2t
      refine Keeps.bind (keeps_same fun _ => rfl) ?_
      intro _
      refine Keeps.bind (turned_cache_table l2t) ?_
      intro _
      exact keeps_pure _

theorem turned_load_block (offset : UInt64) :
    Keeps (Turned kind) (loadRefcountBlock m offset) := by
  unfold loadRefcountBlock
  refine Keeps.bind (keeps_read _) ?_
  intro size
  refine Keeps.bind (keeps_same fun _ => rfl) ?_
  intro bytes
  cases bytes with
  | none => exact keeps_pure _
  | some bytes =>
      refine Keeps.bind (turned_note _ _) ?_
      intro _
      refine Keeps.bind (keeps_same fun _ => rfl) ?_
      intro rfb
      refine Keeps.bind (keeps_same fun _ => rfl) ?_
      intro _
      refine Keeps.bind (turned_cache_block rfb) ?_
      intro _
      exact keeps_pure _

theorem turned_next_index : Keeps (Turned kind) nextClustIdx := by
  unfold nextClustIdx
  refine Keeps.bind (keeps_read _) ?_
  intro index
  refine Keeps.bind (turned_note _ _) ?_
  intro _
  refine Keeps.bind (keeps_same fun _ => rfl) ?_
  intro _
  exact keeps_pure _

theorem turned_free_block (p : Nat) : Keeps (Turned kind) (freeBlock p) := by
  unfold freeBlock
  refine Keeps.bind (keeps_block_at p) ?_
  intro _
  exact keeps_same fun _ => rfl

theorem turned_free_table (p : Nat) : Keeps (Turned kind) (freeTable p) := by
  unfold freeTable
  refine Keeps.bind (keeps_table_at p) ?_
  intro _
  exact keeps_same fun _ => rfl

/-- A block in the place of the header is noted. -/
theorem turned_header (rftIdx : Nat) (offset : UInt64) :
    Takes (fun s => Turned kind s ∨ offset = 0 ∧ kind .headerTaken) (Turned kind)
      (linkGrown rftIdx offset) := by
  unfold linkGrown
  have header : Takes (fun s => Turned kind s ∨ offset = 0 ∧ kind .headerTaken) (Turned kind)
      (noteIf (fun _ => offset = 0) .headerTaken) := by
    rintro s (taken | ⟨zero, harmful⟩)
    · exact turned_note _ _ s taken
    · rw [note_if_true _ (decide_eq_true zero)]
      exact ⟨_, List.mem_cons_self, harmful⟩
  refine Takes.bind header (fun _ taken => taken) ?_
  intro _
  refine Keeps.bind (keeps_read _) ?_
  intro size
  refine Keeps.bind (keeps_same fun _ => rfl) ?_
  intro rfb
  refine Keeps.bind (turned_write_block _ _) ?_
  intro written
  split
  · refine Keeps.bind (keeps_same fun _ => rfl) ?_
    intro _
    refine Keeps.bind (turned_cache_block rfb) ?_
    intro _
    refine Keeps.bind (keeps_same fun _ => rfl) ?_
    intro _
    exact keeps_pure _
  · refine Keeps.bind (turned_free_block rfb) ?_
    intro _
    exact keeps_pure _

theorem turned_grow (rftIdx : Nat) (offset : UInt64) :
    Keeps (Turned kind) (linkGrown rftIdx offset) :=
  fun s taken => turned_header rftIdx offset s (.inl taken)

theorem turned_undo (rfb rftIdx : Nat) : Keeps (Turned kind) (undoGrowth rfb rftIdx) := by
  unfold undoGrowth
  refine Keeps.bind ?_ ?_
  · rintro s ⟨other, taken, harmful⟩
    exact ⟨other, List.mem_cons_of_mem _ taken, harmful⟩
  · intro _
    refine Keeps.bind (keeps_same fun _ => rfl) ?_
    intro _
    refine Keeps.bind (turned_free_block rfb) ?_
    intro _
    exact keeps_pure _

theorem turned_set_refcount (p index : Nat) (refcount : UInt16) :
    Keeps (Turned kind) (setRefcount p index refcount) := by
  unfold setRefcount
  refine Keeps.bind (keeps_block_at p) ?_
  intro rfb
  exact keeps_same fun _ => rfl

theorem turned_reuse (clustIdx : UInt64) (refcount : UInt16) :
    Keeps (Turned kind) (reuseCluster clustIdx refcount) := by
  apply keeps_same
  intro s
  rw [reuseCluster, change]
  split <;> rfl

theorem turned_update_block (p : Nat) (clustIdx : UInt64) (append : UInt16) :
    Keeps (Turned kind) (updateBlock p clustIdx append) := by
  unfold updateBlock
  refine Keeps.bind (keeps_block_at p) ?_
  intro rfb
  refine Keeps.bind (keeps_read _) ?_
  intro index
  split
  · exact keeps_pure _
  · refine Keeps.bind (turned_set_refcount _ _ _) ?_
    intro _
    refine Keeps.bind (turned_write_block _ _) ?_
    intro written
    split
    · refine Keeps.bind (turned_reuse _ _) ?_
      intro _
      exact keeps_pure _
    · exact keeps_pure _

theorem turned_free_cache
    (frees : ∀ start size, Keeps (Turned kind) (qcowFreeClusters m start size)) (l2t : Nat)
    (linked : Bool) (new size : UInt64) : Keeps (Turned kind) (freeCache m l2t linked new size) := by
  unfold freeCache
  refine Keeps.bind (turned_note _ _) ?_
  intro _
  refine Keeps.bind (turned_free_table l2t) ?_
  intro _
  refine Keeps.bind (frees _ _) ?_
  intro _
  exact keeps_pure _

theorem turned_copied_table
    (frees : ∀ start size, Keeps (Turned kind) (qcowFreeClusters m start size))
    (old new size : UInt64) : Keeps (Turned kind) (copiedTable m old new size) := by
  unfold copiedTable
  refine Keeps.bind (keeps_same fun _ => rfl) ?_
  intro node
  split
  · exact keeps_pure _
  · unfold qcowReadL2Table
    refine Keeps.bind (Keeps.bind (turned_search_table old) ?_) ?_
    · intro found
      cases found with
      | none => exact turned_load_table old
      | some l2t => exact keeps_pure _
    · intro found
      cases found with
      | none =>
          refine Keeps.bind (frees _ _) ?_
          intro _
          exact keeps_pure _
      | some l2t => exact keeps_pure _

theorem turned_move_table
    (frees : ∀ start size, Keeps (Turned kind) (qcowFreeClusters m start size)) (l1tIdx : Nat)
    (old new : UInt64) : Keeps (Turned kind) (moveTable m l1tIdx old new) := by
  unfold moveTable
  refine Keeps.bind (keeps_read _) ?_
  intro size
  refine Keeps.bind (turned_copied_table frees _ _ _) ?_
  intro found
  cases found with
  | none => exact keeps_pure _
  | some l2t =>
      refine Keeps.bind (Keeps.bind (keeps_table_at l2t) fun c => keeps_same fun _ => rfl) ?_
      intro _
      refine Keeps.bind (turned_cache_write l2t) ?_
      intro written
      split
      · refine Keeps.bind (turned_cache_table l2t) ?_
        intro _
        refine Keeps.bind (turned_note_table l2t) ?_
        intro _
        refine Keeps.bind (keeps_same fun _ => rfl) ?_
        intro _
        refine Keeps.bind ?_ ?_
        · unfold qcowWriteL1Table
          refine Keeps.bind (keeps_read _) ?_
          intro bytes
          refine Keeps.bind (keeps_read _) ?_
          intro offset
          exact turned_sync _ _ _
        · intro stored
          split
          · refine Keeps.bind (frees _ _) ?_
            intro _
            exact keeps_pure _
          · exact turned_free_cache frees _ _ _ _
      · exact turned_free_cache frees _ _ _ _

/-- A turn that was taken stays taken. -/
theorem kept_turned (m : Machine) (kind : Turn → Prop) : Kept m (Turned kind) where
  searchTable := turned_search_table
  searchBlock := turned_search_block
  loadTable := turned_load_table
  loadBlock := fun offset s both => turned_load_block offset s both.1
  read := fun _ _ => keeps_same fun _ => rfl
  write := turned_write
  nextIndex := turned_next_index
  grow := fun rftIdx offset s both => turned_grow rftIdx offset s both.1
  undo := turned_undo
  writeTable := by
    unfold qcowWriteRefcountTable
    refine Keeps.bind (keeps_read _) ?_
    intro bytes
    refine Keeps.bind (keeps_read _) ?_
    intro offset
    exact turned_sync _ _ _
  noteGone := turned_note _
  updateBlock := turned_update_block
  copyBuff := fun _ _ => keeps_same fun _ => rfl
  cacheWrite := turned_cache_write
  storeCopy := fun frees table l2tIdx => keeps_store_copy frees
    (fun _ _ => keeps_same fun _ => rfl) turned_write turned_set_entry turned_cache_write
    table l2tIdx (-1)
  moveTable := fun frees l1tIdx l2tOffset => turned_move_table frees l1tIdx l2tOffset (-1)

end Turns

end VirtioDisk.NodeInvariants
