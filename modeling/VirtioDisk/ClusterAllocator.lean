import VirtioDisk.RefcountView

/-!
The clusters that an allocation takes. Where every step of the call is sound in the
state it finds, no count is lost and no other one is taken for it: they had no
references before, and the blocks that grow for their counts are behind them.
-/

namespace VirtioDisk.ClusterAllocator

open BlockContents NodeCache NodeInvariants QcowNodes RefcountView
open QcowWrite (Machine)
open RefcountConsistency (Clean)

/-! The steps of a call, each with the state before it. -/

/-- The scan from here on: the index it stands at is a `u32`, and every block that it looks
at is read as it is. -/
def SoundScan (m : Machine) (count : Nat) : Nat → Nat → Image → Prop
  | 0, _, _ => True
  | fuel + 1, i, s => s.freeClustIdx.toNat < 2 ^ 32 ∧
      (i < count → After nextClustIdx s fun clustIdx s =>
        SoundRead s clustIdx.toUInt64 ∧
          After (qcowGetRefcount m clustIdx.toUInt64) s fun refcount s =>
            refcount ≠ -1 → SoundScan m count fuel (if 0 < refcount then 0 else i + 1) s)

instance soundScanDecidable (m : Machine) (count : Nat) :
    ∀ fuel i s, Decidable (SoundScan m count fuel i s)
  | 0, _, _ => .isTrue trivial
  | fuel + 1, _, _ =>
      have := soundScanDecidable m count fuel
      inferInstanceAs (Decidable (_ ∧ (_ → After ..)))

section Calls
variable (m : Machine) (update : Update) (sound : UInt64 → Image → Prop)
  [∀ clustIdx s, Decidable (sound clustIdx s)]

/-- `sound` is what one call of `update` asks. -/
def SoundMarks (first : UInt64) : Nat → Nat → Image → Prop
  | 0, _, _ => True
  | left + 1, i, s => sound (first + UInt64.ofNat i) s ∧
      After (update (first + UInt64.ofNat i) 1) s fun marked s =>
        marked = true → SoundMarks first left (i + 1) s

instance soundMarksDecidable (first : UInt64) :
    ∀ left i s, Decidable (SoundMarks update sound first left i s)
  | 0, _, _ => .isTrue trivial
  | left + 1, _, _ =>
      have := soundMarksDecidable first left
      inferInstanceAs (Decidable (_ ∧ After ..))

/-- A block grows behind the header and over no other one, and is cached until it is
returned. -/
def SoundGrowth (clustIdx : UInt64) (s : Image) : Prop :=
  rftIndex s clustIdx < s.rfSize →
    SoundScan m 1 m.fuel 0 s ∧
      After (allocClusters m update s.clusterSize false) s fun offset scanned =>
        offset ≠ -1 → offset ≠ 0 ∧ ¬ GrowsOver scanned offset ∧
          After (linkGrown (rftIndex s clustIdx) offset) scanned fun linked grown =>
            ∀ p ∈ linked, ¬ DirtyLeaves scanned.rf ∧
              sound (offset >>> UInt64.ofNat s.header.clusterBits) grown ∧
              After (update (offset >>> UInt64.ofNat s.header.clusterBits) 1) grown
                fun updated counted =>
                  (counted.rf.cells p).isSome ∧ (updated = true → SoundTable counted)

instance (clustIdx : UInt64) (s : Image) : Decidable (SoundGrowth m update sound clustIdx s) :=
  inferInstanceAs (Decidable (_ → _ ∧ After ..))

/-- The rest of `update_cluster_refcount`, for what the read of the block gave. -/
def SoundRest (clustIdx : UInt64) : BlockRead → Image → Prop
  | .failed, _ => True
  | .found _, s => SoundCount s clustIdx
  | .absent, s => SoundGrowth m update sound clustIdx s ∧
      After (qcowGrowRefcountBlock m update clustIdx) s fun grown s =>
        ∀ _p ∈ grown, SoundCount s clustIdx

instance (clustIdx : UInt64) :
    ∀ block s, Decidable (SoundRest m update sound clustIdx block s)
  | .failed, _ => .isTrue trivial
  | .found _, _ => inferInstanceAs (Decidable (SoundCount ..))
  | .absent, _ => inferInstanceAs (Decidable (SoundGrowth m update sound clustIdx _ ∧ After ..))

end Calls

def SoundUpdate (m : Machine) : Nat → UInt64 → Image → Prop
  | 0, _, _ => True
  | fuel + 1, clustIdx, s => SoundRead s clustIdx ∧
      After (qcowReadRefcountBlock m clustIdx) s
        (SoundRest m (updateClusterRefcount m fuel) (SoundUpdate m fuel) clustIdx)

instance soundUpdateDecidable (m : Machine) :
    ∀ fuel clustIdx s, Decidable (SoundUpdate m fuel clustIdx s)
  | 0, _, _ => .isTrue trivial
  | fuel + 1, _, _ =>
      have := soundUpdateDecidable m fuel
      inferInstanceAs (Decidable (_ ∧ After ..))

/-- The first cluster of a run, by the last one that the scan passed. -/
def runFirst (count : Nat) (last : UInt32) : UInt64 := (last + 1).toUInt64 - UInt64.ofNat count

/-- The run that the scan found is counted. -/
def SoundRun (m : Machine) (count : Nat) : Option UInt32 → Image → Prop
  | none, _ => True
  | some last, s => SoundMarks (updateClusterRefcount m m.fuel) (SoundUpdate m m.fuel)
      (runFirst count last) count 0 s

instance (m : Machine) (count : Nat) : ∀ found s, Decidable (SoundRun m count found s)
  | none, _ => .isTrue trivial
  | some _, _ => inferInstanceAs (Decidable (SoundMarks ..))

/-- Every step of a call of `qcow_alloc_clusters`. -/
def SoundAlloc (m : Machine) (size : Nat) (updateRef : Bool) (s : Image) : Prop :=
  SoundScan m (clustNum s size) m.fuel 0 s ∧
    After (scanClusters m m.fuel (clustNum s size) 0 0) s fun found scanned =>
      updateRef = true → SoundRun m (clustNum s size) found scanned

instance (m : Machine) (size : Nat) (updateRef : Bool) (s : Image) :
    Decidable (SoundAlloc m size updateRef s) :=
  inferInstanceAs (Decidable (_ ∧ After ..))

/-! The scan. -/

/-- The scan ends before a cluster is no `u32`. -/
def Enough (fuel : Nat) (s : Image) : Prop := 0 < fuel ∧ 2 ^ 32 < s.freeClustIdx.toNat + fuel

/-- So many clusters before the next one have no references. -/
structure FreeRun (s : Image) (stop length : Nat) : Prop where
  fits : length ≤ stop
  free : ∀ clustIdx : UInt64, stop ≤ clustIdx.toNat + length → clustIdx.toNat < stop →
    refcount s clustIdx = 0

section Scan
variable {m : Machine} {s after : Image} {fuel stop length count i : Nat} {clustIdx : UInt64}
  {last : UInt32}

theorem FreeRun.congr (run : FreeRun s stop length)
    (same : ∀ clustIdx, refcount after clustIdx = refcount s clustIdx) :
    FreeRun after stop length :=
  ⟨run.fits, fun clustIdx late early => (same clustIdx).trans (run.free clustIdx late early)⟩

theorem free_run_none (s : Image) (stop : Nat) : FreeRun s stop 0 :=
  ⟨Nat.zero_le _, fun _ late early => absurd early (Nat.not_lt.mpr late)⟩

theorem FreeRun.more (run : FreeRun s stop length) (at_ : clustIdx.toNat = stop)
    (free : refcount s clustIdx = 0) : FreeRun s (stop + 1) (length + 1) := by
  refine ⟨Nat.succ_le_succ run.fits, ?_⟩
  intro other late early
  by_cases last : other.toNat = stop
  · rw [UInt64.toNat_inj.mp (last.trans at_.symm)]
    exact free
  · exact run.free other (by omega) (by omega)

/-- What the scan gives: the clusters before the next one are free. -/
structure Found (s after : Image) (count i : Nat) (last : UInt32) : Prop where
  last : last.toNat + 1 = after.freeClustIdx.toNat
  small : after.freeClustIdx.toNat < 2 ^ 32
  passed : s.freeClustIdx.toNat + count ≤ after.freeClustIdx.toNat + i
  run : FreeRun s after.freeClustIdx.toNat count

/-- The scan went on from a later cluster. -/
theorem Found.before {later : Image} {j : Nat} (found : Found later after count j last)
    (same : Recached s later) (passed : s.freeClustIdx.toNat + j ≤ later.freeClustIdx.toNat + i) :
    Found s after count i last := by
  have more := found.passed
  exact ⟨found.last, found.small, by omega,
    found.run.congr fun clustIdx => (same.refcount clustIdx).symm⟩

theorem scan_sure (m : Machine) (ready : Ready s) (enough : Enough fuel s) (some : 0 < count)
    (within : i ≤ count) (run : FreeRun s s.freeClustIdx.toNat i)
    (begun : 0 < i → last.toNat + 1 = s.freeClustIdx.toNat)
    (sound : SoundScan m count fuel i s) :
    Sure (scanClusters m fuel count i last) (fun found after => Recached s after ∧
      ∀ last ∈ found, Found s after count i last) s := by
  induction fuel generalizing s i last with
  | zero => exact absurd enough.1 (Nat.lt_irrefl _)
  | succ fuel ih =>
      rw [scanClusters]
      split
      · next full =>
        have whole : i = count := Nat.le_antisymm within full
        refine sure_pure ⟨recached_refl ready, ?_⟩
        rintro _ ⟨⟩
        exact ⟨begun (whole ▸ some), sound.1, by omega, whole ▸ run⟩
      · next left =>
        have below := sound.1
        have indexed := sound.2 (Nat.not_le.mp left)
        refine (((next_index_sure ready below).also indexed).imp ?_).bind
        rintro index middle ⟨⟨passed, at_, free⟩, reads, gets⟩
        refine (((get_refcount_sure m passed.1.ready reads).also gets).imp ?_).bind
        rintro count after ⟨⟨same, counted⟩, onwards⟩
        have reached := passed.trans same.1
        have next : after.freeClustIdx.toNat = s.freeClustIdx.toNat + 1 := by
          rw [same.2, free]
        have more : Enough fuel after := by
          have less := enough.2
          unfold Enough
          omega
        split
        · exact sure_pure ⟨reached, fun _ found => by cases found⟩
        · next known =>
          have zero := counted.resolve_left known
          rw [passed.refcount] at zero
          have rest := onwards known
          split
          · next used =>
            rw [if_pos used] at rest
            refine (ih reached.1.ready more (Nat.zero_le _) (free_run_none _ _)
              (fun none => absurd none (Nat.lt_irrefl _)) rest).imp ?_
            rintro found final ⟨again, holds⟩
            exact ⟨reached.trans again, fun last found =>
              (holds last found).before reached (by omega)⟩
          · next used =>
            rw [if_neg used] at rest
            have cluster : index.toUInt64.toNat = s.freeClustIdx.toNat := by
              rw [UInt32.toNat_toUInt64, at_]
            have free : refcount s index.toUInt64 = 0 := by
              rw [← zero]
              exact UInt16.le_zero_iff.mp (UInt16.not_lt.mp used)
            have longer : FreeRun after after.freeClustIdx.toNat (i + 1) := by
              rw [next]
              exact (run.more cluster free).congr reached.refcount
            refine (ih reached.1.ready more (Nat.lt_of_not_le left) longer ?_ rest).imp ?_
            · intro _
              rw [next, at_]
            · rintro found final ⟨again, holds⟩
              exact ⟨reached.trans again, fun last found =>
                (holds last found).before reached (by omega)⟩

/-- The clusters of a run are the last ones that the scan passed. -/
structure Run (s after : Image) (count : Nat) (first : UInt64) : Prop where
  last : first.toNat + count = after.freeClustIdx.toNat
  small : after.freeClustIdx.toNat < 2 ^ 32
  passed : s.freeClustIdx.toNat ≤ first.toNat
  free : ∀ clustIdx : UInt64, first.toNat ≤ clustIdx.toNat →
    clustIdx.toNat < first.toNat + count → refcount s clustIdx = 0

theorem Found.run_first (found : Found s after count 0 last) :
    Run s after count (runFirst count last) := by
  have behind := found.last
  have small := found.small
  have fits := found.run.fits
  have next : (last + 1).toUInt64.toNat = after.freeClustIdx.toNat := by
    rw [UInt32.toNat_toUInt64, UInt32.toNat_add, ← behind, UInt32.toNat_one]
    exact Nat.mod_eq_of_lt (by omega)
  have length : (UInt64.ofNat count).toNat = count := by
    rw [UInt64.toNat_ofNat']
    exact Nat.mod_eq_of_lt (by omega)
  have less : UInt64.ofNat count ≤ (last + 1).toUInt64 := by
    rw [UInt64.le_iff_toNat_le, next, length]
    exact fits
  have first : (runFirst count last).toNat = after.freeClustIdx.toNat - count := by
    rw [runFirst, UInt64.toNat_sub_of_le _ _ less, next, length]
  have passed := found.passed
  refine ⟨by omega, small, by omega, ?_⟩
  intro clustIdx late early
  exact found.run.free clustIdx (by omega) (by omega)

/-- The first part of an allocation looks for a run. -/
theorem look_sure (update : Update) (size : Nat) (updateRef : Bool) (ready : Ready s)
    (enough : Enough m.fuel s) (some : 0 < clustNum s size)
    (sound : SoundScan m (clustNum s size) m.fuel 0 s)
    {onwards : Option UInt32 → Image → Prop} {post : UInt64 → Image → Prop}
    (scanned : After (scanClusters m m.fuel (clustNum s size) 0 0) s onwards)
    (failed : ∀ after, Recached s after → post (-1) after)
    (ran : ∀ last after, onwards (.some last) after → Recached s after →
      Run s after (clustNum s size) (runFirst (clustNum s size) last) →
      Sure (if updateRef then do
          let marked ← markClusters update (runFirst (clustNum s size) last) (clustNum s size) 0
          pure (if marked then
            runFirst (clustNum s size) last <<< UInt64.ofNat s.header.clusterBits else -1)
        else pure (runFirst (clustNum s size) last <<< UInt64.ofNat s.header.clusterBits))
          post after) :
    Sure (allocClusters m update size updateRef) post s := by
  have count : QcowNodes.read (clustNum · size) s = (.ok (clustNum s size), s) := rfl
  have bits : QcowNodes.read (fun s => UInt64.ofNat s.header.clusterBits) s =
    (.ok (UInt64.ofNat s.header.clusterBits), s) := rfl
  unfold Sure
  rw [allocClusters, bind_ok count, bind_ok bits]
  refine (((scan_sure m ready enough some (Nat.zero_le _) (free_run_none _ _)
    nofun sound).also scanned).imp ?_).bind
  rintro found after ⟨⟨same, holds⟩, onwards⟩
  cases found with
  | none => exact sure_pure (failed after same)
  | some last => exact ran last after onwards same (holds last rfl).run_first

end Scan

/-- The first reference of a cluster that the scan has passed. -/
def Marks (update : Update) (sound : UInt64 → Image → Prop) (floor : Nat) : Prop :=
  ∀ s clustIdx, Ready s → sound clustIdx s → floor ≤ s.freeClustIdx.toNat →
    s.freeClustIdx.toNat < 2 ^ 32 → clustIdx.toNat < s.freeClustIdx.toNat →
    refcount s clustIdx = 0 →
      Sure (update clustIdx 1) (fun marked after => marked = true →
        Counted s.freeClustIdx.toNat s after (· = clustIdx) ∧
          after.freeClustIdx.toNat < 2 ^ 32) s

section Marking
variable {m : Machine} {update : Update} {sound : UInt64 → Image → Prop}
  {s middle next after : Image} {first clustIdx : UInt64} {floor left i : Nat}

theorem nth_cluster (fits : first.toNat + i < 2 ^ 64) :
    (first + UInt64.ofNat i).toNat = first.toNat + i := by
  rw [UInt64.toNat_add, UInt64.toNat_ofNat', Nat.add_mod_mod]
  exact Nat.mod_eq_of_lt fits

/-- A run is counted one cluster after the other, and blocks that grow are behind it. -/
theorem mark_sure (marks : Marks update sound floor) (ready : Ready s)
    (sounds : SoundMarks update sound first left i s)
    (passed : floor ≤ s.freeClustIdx.toNat) (small : s.freeClustIdx.toNat < 2 ^ 32)
    (inside : first.toNat + i + left ≤ s.freeClustIdx.toNat)
    (free : ∀ clustIdx : UInt64, first.toNat + i ≤ clustIdx.toNat →
      clustIdx.toNat < first.toNat + i + left → refcount s clustIdx = 0) :
    Sure (markClusters update first left i) (fun marked after => marked = true →
      Counted s.freeClustIdx.toNat s after fun clustIdx =>
        first.toNat + i ≤ clustIdx.toNat ∧ clustIdx.toNat < first.toNat + i + left) s := by
  induction left generalizing i s with
  | zero =>
      refine sure_pure fun _ => (counted_same (recached_refl ready).1 rfl).congr ?_
      intro clustIdx
      constructor
      · rintro ⟨late, early⟩
        omega
      · exact False.elim
  | succ left ih =>
      rw [markClusters]
      obtain ⟨here, later⟩ := sounds
      have cluster : (first + UInt64.ofNat i).toNat = first.toNat + i := nth_cluster (by omega)
      generalize first + UInt64.ofNat i = next at cluster here later
      have zero : refcount s next = 0 := free next (Nat.le_of_eq cluster.symm) (by omega)
      refine (((marks s next ready here passed small (by omega) zero).also later).imp ?_).bind
      rintro marked middle ⟨counted, rest⟩
      cases marked with
      | false => exact sure_pure fun marked => by cases marked
      | true =>
          obtain ⟨before, narrow⟩ := counted rfl
          have onward := before.moved.free
          refine (ih before.moved.ready (rest rfl) (Nat.le_trans passed onward) narrow
            (Nat.le_trans (by omega) onward) ?_).imp ?_
          · intro clustIdx late early
            refine (before.moved.others clustIdx ?_).trans (free clustIdx (by omega) (by omega))
            rintro (rfl | grown)
            · omega
            · have behind := before.behind clustIdx grown
              omega
          · intro marked after holds done
            refine (before.trans ((holds done).lower onward)).congr ?_
            intro clustIdx
            rw [← UInt64.toNat_inj, cluster]
            omega

/-- The cluster of a block is counted after the block was linked. -/
theorem counted_grown {rftIdx p : Nat} {offset : UInt64} (same : Recached s middle)
    (linked : Linked middle next rftIdx offset clustIdx p)
    (behind : s.freeClustIdx.toNat ≤ clustIdx.toNat)
    (counted : Counted next.freeClustIdx.toNat next after (· = clustIdx)) :
    Counted s.freeClustIdx.toNat s after fun _ => False := by
  have through := same.1.trans linked.moved
  have grown (other : UInt64) :
      GrownAt s after other ↔ other = clustIdx ∨ GrownAt next after other := by
    rw [through.grown_trans counted.moved, same.1.grown_trans linked.moved, linked.grown,
      or_iff_right (grown_same same.2)]
  refine ⟨(through.trans counted.moved).congr ?_, ?_⟩
  · intro other
    rw [grown, or_self]
  · intro other new
    rcases (grown other).mp new with rfl | later
    · exact behind
    · exact Nat.le_trans through.free (counted.behind other later)

/-- A cluster has a block now, which is cached. -/
structure Covers (s after : Image) (clustIdx : UInt64) (p : Nat) : Prop where
  counted : Counted s.freeClustIdx.toNat s after fun _ => False
  covered : ¬ Uncovered after clustIdx
  cached : ∃ rfb, after.rf.cells p = some rfb ∧ rfb.offset = blockOffset after clustIdx

theorem grown_covers {third : Image} {offset : UInt64} {p : Nat} (same : Recached s middle)
    (linked : Linked middle next (rftIndex s clustIdx) offset first p)
    (passed : s.freeClustIdx.toNat ≤ first.toNat)
    (counted : Counted next.freeClustIdx.toNat next third (· = first))
    (alive : (third.rf.cells p).isSome) (stored : Recached third after)
    (unchanged : after.rf = third.rf) (covered : rftIndex s clustIdx < s.rfSize) :
    Covers s after clustIdx p := by
  have whole := (counted_grown same linked passed counted).trans
    (counted_same stored.1 stored.2)
  obtain ⟨rfb, there⟩ := Option.isSome_iff_exists.mp alive
  obtain ⟨old, was, own⟩ := counted.moved.older.nodes p linked.allocated rfb there
  obtain ⟨new, here, at_⟩ := linked.node
  cases was.symm.trans here
  have entry : after.rfTable (rftIndex s clustIdx) = offset := by
    have kept := counted.moved.table _ (linked.entry ▸ linked.somewhere)
    rw [stored.2, kept, linked.entry]
  have rft : rftIndex after clustIdx = rftIndex s clustIdx := by
    unfold rftIndex
    rw [whole.moved.header]
  refine ⟨whole.congr fun _ => (or_self _).to_iff.symm, ?_, rfb, ?_, ?_⟩
  · unfold Uncovered
    rw [rft, whole.moved.rfSize, entry]
    exact not_or.mpr ⟨Nat.not_le.mpr covered, linked.somewhere⟩
  · rw [unchanged, there]
  · rw [blockOffset, rft, entry, ← own, at_]

theorem one_cluster (s : Image) : clustNum s s.clusterSize = 1 := by
  have positive : 0 < s.clusterSize := Nat.two_pow_pos _
  unfold clustNum
  exact Nat.div_eq_of_lt_le (by omega) (by omega)

/-- The end of a growth, with the block in the cache or the entry taken back. -/
theorem finish_sure {p rftIdx : Nat} {updated : Bool} {post : Option Nat → Image → Prop}
    (alive : (s.rf.cells p).isSome) (ready : updated = true → Ready s)
    (sound : updated = true → SoundTable s) (failed : ∀ after, post none after)
    (done : updated = true → ∀ after, Looked s after → after.rf = s.rf → post (some p) after) :
    Sure (do
        noteIf (fun s => (s.rf.cells p).isNone) .blockGone
        if updated then
          let written ← qcowWriteRefcountTable
          if written then pure (some p) else undoGrowth p rftIdx
        else undoGrowth p rftIdx) post s := by
  obtain ⟨rfb, there⟩ := Option.isSome_iff_exists.mp alive
  have quiet : noteIf (fun s => (s.rf.cells p).isNone) .blockGone s = (.ok (), s) :=
    note_if_false _ (by simp [there])
  -- The node is alive, so that it can be freed.
  have undo {middle : Image} (same : middle.rf = s.rf) :
      Sure (undoGrowth p rftIdx) post middle := by
    obtain ⟨after, ran⟩ := undo_ran (show middle.rf.cells p = some rfb by rw [same, there]) rftIdx
    exact sure_ran ran (failed after)
  unfold Sure
  rw [bind_ok quiet]
  cases updated with
  | false => exact undo rfl
  | true =>
      refine ((write_table_sure (ready rfl) (sound rfl)).imp ?_).bind
      rintro written after ⟨stored, same⟩
      cases written with
      | false => exact undo same
      | true => exact sure_pure (done rfl after stored same)

/-- The place of a block that grows. -/
theorem place_sure (fuel : 2 ^ 32 < m.fuel) (ready : Ready s) (scan : SoundScan m 1 m.fuel 0 s) :
    Sure (allocClusters m update s.clusterSize false) (fun offset after => Recached s after ∧
      (offset ≠ -1 → ∃ first, offset = first <<< UInt64.ofNat s.header.clusterBits ∧
        Run s after 1 first)) s := by
  have one := one_cluster s
  have any : After (scanClusters m m.fuel (clustNum s s.clusterSize) 0 0) s fun _ _ => True :=
    fun _ _ _ => trivial
  refine look_sure update s.clusterSize false ready ⟨by omega, by omega⟩ (by omega)
    (one ▸ scan) any ?_ ?_
  · exact fun after same => ⟨same, fun other => absurd rfl other⟩
  · intro last after _ same run
    exact sure_pure ⟨same, fun _ => ⟨_, rfl, one ▸ run⟩⟩

/-- A block that grows for a cluster is cached after it was counted. -/
theorem grow_sure (fuel : 2 ^ 32 < m.fuel) (marks : Marks update sound (s.freeClustIdx.toNat + 1))
    (ready : Ready s) (sounds : SoundGrowth m update sound clustIdx s)
    (gone : Uncovered s clustIdx) :
    Sure (qcowGrowRefcountBlock m update clustIdx) (fun grown after => ∀ p ∈ grown,
      Covers s after clustIdx p ∧ after.freeClustIdx.toNat < 2 ^ 32) s := by
  have start : QcowNodes.read id s = (.ok s, s) := rfl
  unfold Sure
  rw [qcowGrowRefcountBlock, bind_ok start]
  by_cases covered : s.rfSize ≤ rftIndex s clustIdx
  · rw [if_pos covered]
    exact sure_pure fun _ found => by cases found
  · rw [if_neg covered]
    have absent : Absent s (rftIndex s clustIdx) :=
      ⟨Nat.not_le.mp covered, gone.resolve_left covered⟩
    obtain ⟨scan, placed⟩ := sounds absent.1
    refine (((place_sure fuel ready scan).also placed).imp ?_).bind
    rintro offset middle ⟨⟨same, found⟩, links⟩
    split
    · exact sure_pure fun _ found => by cases found
    · next known =>
      obtain ⟨first, rfl, run⟩ := found known
      obtain ⟨somewhere, clear, grows⟩ := links known
      have last := run.last
      have narrow := run.small
      have small : first.toNat < 2 ^ 32 := by omega
      have still : Absent middle (rftIndex s clustIdx) :=
        ⟨same.1.rfSize ▸ absent.1, same.2 ▸ absent.2⟩
      have link := link_grown_sure same.1.ready still small
      rw [same.1.header] at link
      have tidy : After (linkGrown (rftIndex s clustIdx)
          (first <<< UInt64.ofNat s.header.clusterBits)) middle
          fun linked _ => linked ≠ none → ¬ DirtyLeaves middle.rf := by
        intro linked after ran other
        obtain ⟨p, there⟩ := Option.ne_none_iff_exists'.mp other
        exact (grows linked after ran p there).1
      refine (((link somewhere clear tidy).also grows).imp ?_).bind
      rintro linked next ⟨holds, counts⟩
      cases linked with
      | none => exact sure_pure fun _ found => by cases found
      | some p =>
          have linked := holds p rfl
          obtain ⟨_, own, rest⟩ := counts p rfl
          rw [shifted_back ready.bits.2 small] at own rest
          have zero : refcount next first = 0 :=
            calc refcount next first
              _ = refcount middle first := linked.moved.others first not_false
              _ = refcount s first := same.refcount first
              _ = 0 := run.free first (Nat.le_refl _) (Nat.lt_succ_self _)
          have free := congrArg UInt64.toNat linked.free
          have passed := run.passed
          dsimp only
          rw [shifted_back ready.bits.2 small]
          refine (((marks next first linked.moved.ready own (by omega) (by omega)
            (by omega) zero).also rest).imp ?_).bind
          rintro updated third ⟨counted, alive, table⟩
          refine finish_sure alive (fun done => (counted done).1.moved.ready) table
            (fun _ _ found => by cases found) ?_
          intro done after stored unchanged
          rintro _ ⟨⟩
          obtain ⟨moved, below⟩ := counted done
          exact ⟨grown_covers same linked run.passed moved alive stored.1 unchanged absent.1,
            stored.2 ▸ below⟩

theorem update_sure (long : 2 ^ 32 < m.fuel) (fuel floor : Nat)
    (enough : 2 ^ 32 ≤ floor + fuel) :
    Marks (updateClusterRefcount m fuel) (SoundUpdate m fuel) floor := by
  induction fuel generalizing floor with
  | zero =>
      intro s clustIdx _ _ passed small
      omega
  | succ fuel ih =>
      rintro s clustIdx ready ⟨reads, onwards⟩ passed small early zero
      rw [updateClusterRefcount]
      refine (((read_block_sure m ready reads).also onwards).imp ?_).bind
      rintro block middle ⟨⟨looked, holds⟩, sound⟩
      cases block with
      | failed => exact sure_pure fun updated => by cases updated
      | found p =>
          obtain ⟨covered, rfb, there, own⟩ := holds
          have same := looked.1
          refine (update_block_sure same.1.ready sound (mt same.uncovered.mp covered) there
            (own.trans same.block_offset.symm) ((same.refcount clustIdx).trans zero)).imp ?_
          rintro updated after ⟨moved, table, free⟩ _
          refine ⟨same.counted (counted_same moved table), ?_⟩
          rwa [free, looked.2]
      | absent =>
          obtain ⟨rfl, gone⟩ := holds
          obtain ⟨growth, counts⟩ := sound
          refine (((grow_sure long (ih _ (by omega)) ready growth gone).also counts).imp ?_).bind
          rintro grown next ⟨grows, alone⟩
          cases grown with
          | none => exact sure_pure fun updated => by cases updated
          | some p =>
              obtain ⟨⟨counted, covered, rfb, there, own⟩, below⟩ := grows p rfl
              have still : refcount next clustIdx = 0 := by
                refine (counted.moved.others clustIdx ?_).trans zero
                rintro (none | grown)
                · exact none
                · exact absurd (counted.behind clustIdx grown) (Nat.not_le.mpr early)
              refine (update_block_sure counted.moved.ready (alone p rfl) covered there own
                still).imp ?_
              rintro updated after ⟨moved, table, free⟩ _
              refine ⟨(counted.trans (counted_same moved table)).congr fun _ =>
                (false_or _).to_iff.symm, ?_⟩
              rwa [free]

end Marking

/-! Allocations. -/

/-- The clusters of so many bytes from an offset on. -/
def InRun (s : Image) (offset : UInt64) (size : Nat) (clustIdx : UInt64) : Prop :=
  offset.toNat / s.clusterSize ≤ clustIdx.toNat ∧
    clustIdx.toNat < offset.toNat / s.clusterSize + clustNum s size

structure Allocated (s after : Image) (offset : UInt64) (size : Nat) (updateRef : Bool) : Prop where
  aligned : offset.toNat % s.clusterSize = 0
  free : ∀ clustIdx, InRun s offset size clustIdx → refcount s clustIdx = 0
  counted : updateRef = true → ∀ clustIdx, InRun s offset size clustIdx →
    refcount after clustIdx = 1
  apart : ∀ clustIdx, InRun s offset size clustIdx → ¬ GrownAt s after clustIdx
  others : ∀ clustIdx, ¬ GrownAt s after clustIdx →
    (updateRef = true → ¬ InRun s offset size clustIdx) →
      refcount after clustIdx = refcount s clustIdx

/-- The allocation ends, and an offset that it returns is that of clusters without
references. -/
def Allocates (m : Machine) (size : Nat) (updateRef : Bool) (s : Image) : Prop :=
  ∃ offset after, qcowAllocClusters m size updateRef s = (.ok offset, after) ∧
    (offset ≠ -1 → Allocated s after offset size updateRef)

section Allocations
variable {m : Machine} {s middle after : Image} {size : Nat} {first clustIdx : UInt64}

theorem in_run_shifted (ready : Ready s) (small : first.toNat < 2 ^ 32) :
    InRun s (first <<< UInt64.ofNat s.header.clusterBits) size clustIdx ↔
      first.toNat ≤ clustIdx.toNat ∧ clustIdx.toNat < first.toNat + clustNum s size := by
  rw [InRun, shifted_index ready.bits.2 small, Image.clusterSize,
    Nat.mul_div_cancel _ (Nat.two_pow_pos _)]

theorem Run.allocated (ready : Ready s) (run : Run s middle (clustNum s size) first)
    (same : Recached s middle) :
    Allocated s middle (first <<< UInt64.ofNat s.header.clusterBits) size false := by
  have last := run.last
  have narrow := run.small
  have small : first.toNat < 2 ^ 32 := by omega
  refine ⟨?_, ?_, nofun, fun _ _ => grown_same same.2, fun clustIdx _ _ => same.refcount clustIdx⟩
  · rw [shifted_index ready.bits.2 small]
    exact Nat.mul_mod_left _ _
  · intro clustIdx inside
    obtain ⟨late, early⟩ := (in_run_shifted ready small).mp inside
    exact run.free clustIdx late early

theorem Run.counted (ready : Ready s) (run : Run s middle (clustNum s size) first)
    (same : Recached s middle)
    (counted : Counted middle.freeClustIdx.toNat middle after fun clustIdx =>
      first.toNat ≤ clustIdx.toNat ∧ clustIdx.toNat < first.toNat + clustNum s size) :
    Allocated s after (first <<< UInt64.ofNat s.header.clusterBits) size true := by
  have last := run.last
  have narrow := run.small
  have small : first.toNat < 2 ^ 32 := by omega
  have before := run.allocated ready same
  have whole : Counted middle.freeClustIdx.toNat s after _ := same.counted counted
  refine ⟨before.aligned, before.free, ?_, ?_, ?_⟩
  · intro _ clustIdx inside
    exact (whole.moved.taken clustIdx (.inl ((in_run_shifted ready small).mp inside))).2
  · intro clustIdx inside grown
    have behind := whole.behind clustIdx grown
    obtain ⟨_, early⟩ := (in_run_shifted ready small).mp inside
    omega
  · intro clustIdx old outside
    apply whole.moved.others
    rintro (inside | grown)
    · exact outside rfl ((in_run_shifted ready small).mpr inside)
    · exact old grown

theorem clust_num_pos (s : Image) (some : 0 < size) : 0 < clustNum s size := by
  have large : 0 < s.clusterSize := Nat.two_pow_pos _
  exact Nat.div_pos (by omega) large

/-- A run that is counted is one of the clusters that had no references. -/
theorem counted_sure (fuel : 2 ^ 32 < m.fuel) (some : 0 < size) (ready : Ready s)
    (sound : SoundAlloc m size true s) :
    Sure (qcowAllocClusters m size true) (fun offset after => offset ≠ -1 →
      Allocated s after offset size true ∧ Counted 0 s after (InRun s offset size)) s := by
  refine look_sure (updateClusterRefcount m m.fuel) size true ready ⟨by omega, by omega⟩
    (clust_num_pos s some) sound.1 sound.2 ?_ ?_
  · exact fun _ _ other => absurd rfl other
  · intro last middle marked same run
    have ends := run.last
    have narrow := run.small
    have marks := update_sure fuel m.fuel 0 (by omega)
    refine ((mark_sure marks same.1.ready (marked rfl) (Nat.zero_le _)
      run.small (Nat.le_of_eq run.last) ?_).imp ?_).bind
    · intro clustIdx late early
      exact (same.refcount clustIdx).trans (run.free clustIdx late early)
    · intro marked after counted
      cases marked with
      | false => exact sure_pure fun other => absurd rfl other
      | true =>
          refine sure_pure fun _ => ⟨run.counted ready same (counted rfl), ?_⟩
          refine ((same.counted (counted rfl)).congr ?_).lower (Nat.zero_le _)
          exact fun clustIdx => in_run_shifted ready (by omega)

theorem opened_ready (bits : 1 ≤ s.header.clusterBits ∧ s.header.clusterBits ≤ 30)
    (cache : s.rf = empty) (clean : Clean s.disk.file) : Ready s := by
  refine ⟨bits, ?_, ?_⟩
  · rw [Ordered, cache]
    exact ⟨sound_empty, nofun, nofun, nofun, clean⟩
  · intro offset _
    have missing : held blockKey offset.toNat s.rf = none := by
      rw [cache]
      rfl
    refine (has_stored missing).mpr ?_
    rw [content, missing]
    exact fun _ _ => rfl

end Allocations

/-- An image with clusters of 512 bytes and at most one refcount block, in which only
cluster 200 is counted. The first read may be a short one, which an error ends. -/
def oneBlock (place : UInt64) (short : Bool) : Image where
  header := ⟨32768, 4096, 1, 9, 6, 4608, 1⟩
  tableSize := 1
  l1Table := fun _ => 0
  l2 := empty
  rfSize := 1
  rfTable := fun _ => place
  rf := empty
  freeClustIdx := 200
  copyBuff := fun _ => 0
  disk :=
    { file := ⟨fun i => if i = 913 then 1 else 0, 8192, false⟩
      calls := 0
      host := fun call => if short ∧ call = 1 then .fails
        else .moves (if short ∧ call = 0 then 256 else 512) }
  turns := []
  changedTables := fun _ => none
  changedBlocks := fun _ => none

theorem one_block_ready (place : UInt64) (short : Bool) : Ready (oneBlock place short) := by
  refine opened_ready (show 1 ≤ 9 ∧ 9 ≤ 30 by decide) rfl ?_
  intro position behind
  change 8192 ≤ position at behind
  exact if_neg (by omega)

end VirtioDisk.ClusterAllocator
