import VirtioDisk.ReferenceReads

/-!
Reads of any image on any host. A call that returns its length should have filled
its buffers with what the tables refer to, and a call that meets a cluster it
cannot read should say so. The errors of the clusters are kept in a `u32`: that
of the first part of a buffer ends the buffer as if it were filled, one behind it
is noticed if the jump it causes leaves the disk, and a read that comes short is
no error at all.
-/

namespace VirtioDisk.ReadSoundness

open ByteStore QcowCourse QcowImage QcowReference RawImage ReadWrite

section Calls
variable {q : Qcow} {memory : Nat → UInt8} {sector : UInt64} {iov : List Range} {fuel : Nat}

/-- Every part of the range is read in full, through tables that are read in full. -/
def Delivered (q : Qcow) (sector : UInt64) (iov : List Range) : Prop :=
  ∃ after, readCourse iov q true sector = .passed true after

/-- What a read should do, whatever the image and the host are like. -/
structure Sound (q : Qcow) (memory : Nat → UInt8) (sector : UInt64) (iov : List Range)
    (read : Transferred Qcow) : Prop where
  filled : read.total = some (total iov : Int) →
    read.bytes = scatter memory iov
      (readRange (reference q) (sector <<< sectorShift).toNat (total iov))
  refused : ¬ Delivered q sector iov → read.total = some (-1)
  confined : ¬ Delivered q sector iov → Confined memory read.bytes iov

/-- `1 << cluster_bits` and `1 << l2_bits` are the sizes that the header means: both
fit an `int`, which the probe does not check. -/
structure Shiftable (q : Qcow) : Prop where
  clusters : q.header.clusterBits ≤ 30
  tables : q.header.l2Bits ≤ 30

/-- The positions that the loops compute are those of the range: clusters end with a
sector, and so do the buffers that others follow, and the range ends within 64 bits. The
cache is what earlier reads have left; it must not hold a table that came short. -/
structure Regular (q : Qcow) (sector : UInt64) (iov : List Range) : Prop where
  shiftable : Shiftable q
  sectors : 9 ≤ q.header.clusterBits
  coherent : Coherent q
  aligned : SectorSplit.Whole 512 iov
  fits : (sector <<< sectorShift).toNat + total iov ≤ 2 ^ 64

/-- All of the range is read in full, or the first part that lies behind the end of the
disk, or is an error behind the first part of its buffer, is outside or jumps outside. -/
def Trustworthy (q : Qcow) (sector : UInt64) (iov : List Range) : Prop :=
  Shiftable q ∧
    match readCourse iov q true sector with
    | .passed whole _ => whole = true ∧ Regular q sector iov
    | .stopped reported _ => reported = true

theorem delivered_sound (short : Described iov) (enough : 2 ^ 32 ≤ fuel)
    (regular : Regular q sector iov) (delivered : Delivered q sector iov) :
    Sound q memory sector iov (qcowReadSector fuel q memory sector iov) := by
  have passed := delivered
  obtain ⟨after, passed⟩ := passed
  have narrow := regular.shiftable.clusters
  have filled := each_fills memory 0 regular.sectors (by omega) regular.coherent short
    regular.aligned enough regular.fits passed
  constructor
  · exact fun _ => filled.2
  · exact fun missing => absurd delivered missing
  · exact fun missing => absurd delivered missing

theorem call_answers (q : Qcow) (memory : Nat → UInt8) (sector : UInt64) (short : Described iov)
    (enough : 2 ^ 32 ≤ fuel) :
    Answers (Small q) (total iov) iov memory (readCourse iov q true sector)
      (qcowReadSector fuel q memory sector iov) := by
  have unchanged : Confined memory memory iov := fun _ _ => rfl
  have answers := each_answers q sector true 0 short enough unchanged fun _ member => member
  rw [Int.zero_add] at answers
  exact answers

theorem reported_sound {after : Qcow} (short : Described iov) (enough : 2 ^ 32 ≤ fuel)
    (stopped : readCourse iov q true sector = .stopped true after) :
    Sound q memory sector iov (qcowReadSector fuel q memory sector iov) := by
  have answers := call_answers q memory sector short enough
  rw [stopped] at answers
  obtain ⟨minus, _, confined⟩ := answers
  constructor
  · intro all
    rw [minus, Option.some.injEq] at all
    omega
  · exact fun _ => minus
  · exact fun _ => confined

theorem trustworthy_sound (memory : Nat → UInt8) (short : Described iov) (enough : 2 ^ 32 ≤ fuel)
    (trusted : Trustworthy q sector iov) :
    Sound q memory sector iov (qcowReadSector fuel q memory sector iov) := by
  obtain ⟨_, trusted⟩ := trusted
  cases course : readCourse iov q true sector with
  | passed whole after =>
      rw [course] at trusted
      obtain ⟨rfl, regular⟩ := trusted
      exact delivered_sound short enough regular ⟨after, course⟩
  | stopped reported after =>
      rw [course] at trusted
      rw [trusted] at course
      exact reported_sound short enough course

theorem trustworthy_returns (memory : Nat → UInt8) (short : Described iov)
    (enough : 2 ^ 32 ≤ fuel) (trusted : Trustworthy q sector iov) :
    ∃ count, (qcowReadSector fuel q memory sector iov).total = some count := by
  have answers := call_answers q memory sector short enough
  obtain ⟨_, trusted⟩ := trusted
  cases course : readCourse iov q true sector with
  | passed whole after =>
      rw [course] at answers
      exact ⟨_, answers.1⟩
  | stopped reported after =>
      rw [course] at answers trusted
      rw [trusted] at answers
      exact ⟨_, answers.1⟩

theorem sound_reported (short : Described iov) (enough : 2 ^ 32 ≤ fuel) (small : Small q)
    (regular : Regular q sector iov)
    (sound : Sound q memory sector iov (qcowReadSector fuel q memory sector iov)) :
    Trustworthy q sector iov := by
  have answers := call_answers q memory sector short enough
  have refused := sound.refused
  refine ⟨regular.shiftable, ?_⟩
  unfold Delivered at refused
  cases course : readCourse iov q true sector with
  | passed whole after =>
      rw [course] at answers refused
      cases whole with
      | true => exact ⟨rfl, regular⟩
      | false =>
          have minus := refused (by simp)
          rw [answers.1, Option.some.injEq] at minus
          omega
  | stopped reported after =>
      rw [course] at answers refused
      cases reported with
      | true => rfl
      | false =>
          have minus := refused (by simp)
          rw [answers small] at minus
          cases minus

end Calls

/-- The image of sevens, open, on a host that fails from the second call on. -/
def failingImage : Qcow :=
  { ReferenceReads.sevensImage with
    tableSize := 1
    l1Table := fun _ => 1024
    disk := { ReferenceReads.sevens with
      host := fun call => if call = 0 then .moves 4096 else .fails } }

theorem failing_read_lost : ∃ after, readCourse [⟨0, 512⟩] failingImage true 0 =
    .passed false after := ⟨_, rfl⟩

theorem free_cluster_passes : ∃ after, readCourse [⟨0, 512⟩] failingImage true 1 =
    .passed true after := ⟨_, rfl⟩

end VirtioDisk.ReadSoundness
