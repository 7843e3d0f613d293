import VirtioDisk.OwnedClusters
import VirtioDisk.ReadSoundness
import VirtioDisk.Transition

/-!
Runs of reads and writes of an image of the second version, as of an array of
bytes. A run keeps the array as long as its writes go to clusters that the image
owns alone, the errors of its reads are noticed, and no table comes short in a
write. A write to any other cluster cannot succeed: the path that allocates a
cluster takes the success of the allocator for its failure.
-/

namespace VirtioDisk.QcowByteArray

open ByteStore LruCache OwnedClusters QcowCourse QcowImage QcowReference QcowWrite RawImage
open ReadSoundness ReadWrite Transition
open QcowRead (int_one_pos qcow1Version qcow2OflagCopied qcow2OflagCompressed shifted_toNat)

/-- The memory of the caller, and a range of sectors. -/
structure Request where
  memory : Nat → UInt8
  sector : UInt64
  iov : List Range

def Request.start (r : Request) : Nat := r.sector.toNat * 512
def Request.length (r : Request) : Nat := total r.iov

inductive Call where
  | read (r : Request)
  | write (r : Request)

def Call.request : Call → Request
  | .read r | .write r => r

/-- What the call returns, and the memory and the image behind it. -/
def call (m : Machine) (q : Qcow) : Call → Except Fault (Int × (Nat → UInt8) × Qcow)
  | .read r =>
      match qcowReadSector m.fuel q r.memory r.sector r.iov with
      | ⟨some count, after, memory⟩ => .ok (count, memory, after)
      | ⟨none, _, _⟩ => .error .endless
  | .write r => do
      let (count, after) ← qcowWriteSector m q r.memory r.sector r.iov
      .ok (count, r.memory, after)

/-! The array. -/

/-- The image, and what the last successful writes have left at each byte of the disk.
A write that failed leaves its range open. -/
structure Tracked where
  image : Qcow
  expected : Nat → Option UInt8

def expectedAfter (expected : Nat → Option UInt8) : Call → Int → Nat → Option UInt8
  | .read _, _ => expected
  | .write r, count =>
      writeRange expected r.start
        (if count = r.length then (gather r.memory r.iov).map some
          else List.replicate r.length none)

def trackedCall (m : Machine) (s : Tracked) (c : Call) : Except Fault Tracked := do
  let (count, _, after) ← call m s.image c
  .ok ⟨after, expectedAfter s.expected c count⟩

/-- A read that returns its length gives the expected bytes. -/
def ReadKept (expected : Nat → Option UInt8) (r : Request) (count : Int)
    (memory : Nat → UInt8) : Prop :=
  count = r.length → ∃ content : Nat → UInt8,
    memory = scatter r.memory r.iov (readRange content r.start r.length) ∧
    ∀ offset byte, expected offset = some byte → content offset = byte

/-- The refcount of a cluster, in a cached block or in the file. -/
def refcount (q : Qcow) (index : Nat) : UInt16 :=
  let block := q.rfTable (index / 2 ^ (q.header.clusterBits - 1))
  let entry := index % 2 ^ (q.header.clusterBits - 1)
  match lookup RefcountBlock.offset block q.rfCache with
  | some rfb => rfb.entries entry
  | none => (cell q.disk.file (block.toNat + 2 * entry)).toUInt16 * 256 +
      (cell q.disk.file (block.toNat + 2 * entry + 1)).toUInt16

/-- A free cluster that the allocator has still before it. -/
structure Free (q : Qcow) (index : Nat) : Prop where
  ahead : q.freeClustIdx.toNat ≤ index
  covered : index / 2 ^ (q.header.clusterBits - 1) < q.rfSize
  block : q.rfTable (index / 2 ^ (q.header.clusterBits - 1)) ≠ 0
  free : refcount q index = 0

/-- The clusters of the disk that the range touches. -/
def touched (q : Qcow) (r : Request) : Nat :=
  (r.start + r.length - 1) / q.clusterSize - r.start / q.clusterSize + 1

/-- The host serves every call, and so many clusters are free. -/
def Supplied (q : Qcow) (count : Nat) : Prop :=
  Serves q.disk ∧ ∃ clusters : List Nat, clusters.Nodup ∧ clusters.length = count ∧
    ∀ index ∈ clusters, index < 2 ^ 32 ∧ Free q index

-- Each cluster that the range touches may need a table and a place for its data.
structure WriteKept (q after : Qcow) (r : Request) (count : Int) : Prop where
  others : ∀ offset, offset < r.start ∨ r.start + r.length ≤ offset →
    reference after offset = reference q offset
  allocates : 0 < r.length →
    (∀ i < r.length, (r.start + i) / 2 ^ (q.header.l2Bits + q.header.clusterBits) < q.tableSize ∧
      ¬ Owned q (r.start + i)) →
    Supplied q (2 * touched q r) → count = r.length

def CallKept (m : Machine) (s : Tracked) (c : Call) : Prop :=
  ∃ count memory after, call m s.image c = .ok (count, memory, after) ∧
    match c with
    | .read r => ReadKept s.expected r count memory
    | .write r => WriteKept s.image after r count

/-- Every call of the run is answered as an array of bytes would answer it. -/
def KeepsBytes (m : Machine) : Tracked → List Call → Prop := Meets (trackedCall m) (CallKept m)

/-! The runs. -/

structure InDomain (q : Qcow) (r : Request) : Prop where
  short : Described r.iov
  aligned : ∀ entry ∈ r.iov, 512 ∣ entry.len
  inside : r.start + r.length ≤ q.header.size.toNat

/-- An image that was just opened. -/
structure Opened (q : Qcow) : Prop where
  version : q.version = 2
  sectors : 9 ≤ q.header.clusterBits
  narrow : q.header.clusterBits ≤ 30
  l2Bits : q.header.l2Bits = q.header.clusterBits - 3
  exclusive : Exclusive q
  fresh : q.l2Cache = []

/-- A read says where it goes wrong, and a write needs no new cluster. -/
def Careful (m : Machine) (q : Qcow) : Call → Prop
  | .read r => Trustworthy q r.sector r.iov
  | .write r => Coherent q ∧ AllPartsOwned m r.iov q r.memory r.sector

/-- What every state of a run has. -/
structure Holds (s : Tracked) : Prop where
  second : s.image.version ≠ qcow1Version
  sectors : 9 ≤ s.image.header.clusterBits
  narrow : s.image.header.clusterBits ≤ 30
  exclusive : Exclusive s.image
  listed : Listed s.image
  agrees : ∀ offset byte, s.expected offset = some byte → reference s.image offset = byte

section Calls
variable {m : Machine} {s : Tracked} {r : Request}

theorem InDomain.place (domain : InDomain s.image r) :
    (r.sector <<< sectorShift).toNat = r.start := by
  have inside := domain.inside
  have word := s.image.header.size.toNat_lt
  unfold Request.start at inside ⊢
  rw [shifted_toNat]
  omega

theorem Holds.intact (holds : Holds s) (coherent : Coherent s.image) : Intact s.image :=
  ⟨holds.second, holds.sectors, holds.narrow, holds.exclusive, coherent, holds.listed⟩

theorem opened_holds {q : Qcow} (opened : Opened q) :
    Holds ⟨q, fun offset => some (reference q offset)⟩ := by
  constructor
  · simp only [opened.version]
    decide
  · exact opened.sectors
  · exact opened.narrow
  · exact opened.exclusive
  · intro l2t member
    simp only [opened.fresh, List.not_mem_nil] at member
  · intro offset byte same
    exact Option.some.inj same

theorem read_kept (enough : 2 ^ 32 ≤ m.fuel) (holds : Holds s) (domain : InDomain s.image r)
    (careful : Careful m s.image (.read r)) :
    CallKept m s (.read r) ∧ Outcome Holds (fun _ => True) (trackedCall m s (.read r)) := by
  obtain ⟨count, returned⟩ := trustworthy_returns r.memory domain.short enough careful
  have sound := trustworthy_sound r.memory domain.short enough careful
  have kept : Kept s.image (qcowReadSector m.fuel s.image r.memory r.sector r.iov).disk ∧
      Listed (qcowReadSector m.fuel s.image r.memory r.sector r.iov).disk := by
    apply each_invariant fun after => Kept s.image after ∧ Listed after
    · rintro middle offset left result after ⟨kept, listed⟩ read
      exact ⟨kept.trans (read_cluster_kept read), read_cluster_listed listed read⟩
    · exact ⟨Kept.refl _, holds.listed⟩
  generalize answer : qcowReadSector m.fuel s.image r.memory r.sector r.iov = read at *
  rcases read with ⟨total_, after, memory⟩
  simp only at returned kept
  subst returned
  have ran : call m s.image (.read r) = .ok (count, memory, after) := by
    simp only [call, answer]
  constructor
  · refine ⟨count, memory, after, ran, ?_⟩
    intro all
    refine ⟨reference s.image, ?_, holds.agrees⟩
    have filled := sound.filled (congrArg some all)
    rw [domain.place] at filled
    exact filled
  · simp only [trackedCall, ran, bind, Except.bind]
    have tables := kept_tables kept.1
    constructor
    · simp only [kept.1.version]
      exact holds.second
    · simp only [kept.1.header]
      exact holds.sectors
    · simp only [kept.1.header]
      exact holds.narrow
    · exact holds.exclusive.same tables
    · exact kept.2
    · intro offset byte same
      rw [kept.1.reference]
      exact holds.agrees offset byte same

/-- What was expected before is there again, or open, behind a write of `nr` bytes. -/
theorem expected_agrees {after : Qcow} {count : Int} {nr : Nat} (holds : Holds s)
    (overwrote : Overwrote s.image after r.start ((gather r.memory r.iov).take nr))
    (fits : nr ≤ r.length) (outcome : count = -1 ∨ (count = r.length ∧ nr = r.length))
    (offset : Nat) (byte : UInt8)
    (same : expectedAfter s.expected (.write r) count offset = some byte) :
    reference after offset = byte := by
  have length : (gather r.memory r.iov).length = r.length := length_gather _ _
  have before (outside : offset < r.start ∨ r.start + r.length ≤ offset)
      (here : s.expected offset = some byte) : reference after offset = byte := by
    rw [overwrote.content, writeRange_outside _ _ _ _ (by rw [List.length_take]; omega)]
    exact holds.agrees offset byte here
  unfold expectedAfter at same
  rcases outcome with minus | ⟨all, whole⟩
  · have failed : ¬ count = r.length := by omega
    simp only [if_neg failed] at same
    rcases writeRange_cases s.expected r.start (List.replicate r.length none) offset with
      ⟨i, inside, _, value⟩ | ⟨outside, value⟩
    · rw [value, List.getElem_replicate] at same
      cases same
    · rw [value] at same
      rw [List.length_replicate] at outside
      exact before outside same
  · simp only [if_pos all] at same
    have taken : (gather r.memory r.iov).take nr = gather r.memory r.iov :=
      List.take_of_length_le (by omega)
    rcases writeRange_cases s.expected r.start ((gather r.memory r.iov).map some) offset with
      ⟨i, inside, place, value⟩ | ⟨outside, value⟩
    · rw [value, List.getElem_map] at same
      rw [List.length_map] at inside
      rw [overwrote.content, taken, place, writeRange_inside _ _ _ _ inside]
      exact Option.some.inj same
    · rw [value] at same
      rw [List.length_map, length] at outside
      exact before outside same

/-- The first byte of a write that needs no new cluster. -/
theorem first_part {q : Qcow} {memory : Nat → UInt8} {sector : UInt64} {iov : List Range}
    (short : Described iov) (parts : AllPartsOwned m iov q memory sector)
    (some_ : 0 < total iov) :
    TableLost q (sector <<< sectorShift) ∨ Owned q (sector <<< sectorShift).toNat := by
  induction iov generalizing sector with
  | nil => exact absurd some_ (Nat.lt_irrefl 0)
  | cons entry rest ih =>
      have word := described_word short
      simp only [AllPartsOwned, word] at parts
      obtain ⟨here, later⟩ := parts
      by_cases empty : entry.len = 0
      · have none : readRange memory entry.base entry.len = [] := by
          rw [empty]
          rfl
        rw [none] at later
        have behind := later 0 q rfl
        rw [empty] at behind
        have same : sector + UInt64.ofNat (0 / 512) = sector := by simp
        rw [same] at behind
        rw [total, empty, Nat.zero_add] at some_
        exact ih (fun e member => short e (by simp [member])) behind some_
      · obtain ⟨turns, length⟩ := Nat.exists_eq_succ_of_ne_zero empty
        rw [length_readRange, length] at here
        rcases here with none | lost | ⟨owned, _⟩
        · have zero := congrArg List.length none
          simp at zero
        · exact Or.inl lost
        · exact Or.inr owned

theorem write_kept (holds : Holds s) (domain : InDomain s.image r)
    (careful : Careful m s.image (.write r)) :
    CallKept m s (.write r) ∧ Outcome Holds (fun _ => True) (trackedCall m s (.write r)) := by
  obtain ⟨coherent, parts⟩ := careful
  have place := domain.place
  have inside := domain.inside
  rw [← place] at inside
  obtain ⟨count, after, nr, wrote, fits, overwrote, intact, outcome⟩ := each_owned m r.memory
    (holds.intact coherent) domain.short domain.aligned inside parts 0
  rw [Int.zero_add] at outcome
  rw [place] at overwrote
  have ran : call m s.image (.write r) = .ok (count, r.memory, after) := by
    simp only [call, qcowWriteSector, wrote, bind, Except.bind]
  constructor
  · refine ⟨count, r.memory, after, ran, ?_⟩
    constructor
    · intro offset outside
      rw [overwrote.content]
      apply writeRange_outside
      rw [List.length_take]
      unfold Request.length at outside
      omega
    · intro some_ foreign ⟨serves, _⟩
      obtain ⟨covered, shared⟩ := foreign 0 some_
      rw [Nat.add_zero, ← place] at covered shared
      rcases first_part domain.short parts some_ with (beyond | ⟨fails, _⟩) | owned
      · exact absurd covered (Nat.not_lt.mpr beyond)
      · exact absurd serves fails
      · exact absurd owned shared
  · simp only [trackedCall, ran, bind, Except.bind]
    exact ⟨intact.second, intact.sectors, intact.narrow, intact.exclusive, intact.listed,
      expected_agrees holds overwrote fits outcome⟩

end Calls

/-- An image keeps its bytes in every run of careful calls. -/
theorem careful_runs_keep_bytes (m : Machine) (enough : 2 ^ 32 ≤ m.fuel) (q : Qcow)
    (opened : Opened q) (calls : List Call)
    (careful : Meets (trackedCall m)
      (fun s c => InDomain s.image c.request ∧ Careful m s.image c)
      ⟨q, fun offset => some (reference q offset)⟩ calls) :
    KeepsBytes m ⟨q, fun offset => some (reference q offset)⟩ calls := by
  apply meets_imp Holds ?_ (opened_holds opened) careful
  rintro s c holds ⟨domain, permitted⟩
  cases c with
  | read r => exact read_kept enough holds domain permitted
  | write r => exact write_kept holds domain permitted

/-! A write that needs a cluster. -/

section Allocating
variable {m : Machine} {q after : Qcow} {offset : UInt64}

theorem pwrite_sync_refused {bytes : List UInt8} (disk : ImageFile) (some_ : bytes ≠ []) :
    qcowPwriteSync disk bytes (-1) = (false, disk) := by
  have beyond : fileMax < (-1 : UInt64).toNat := by decide
  simp only [qcowPwriteSync, pwriteInFull, if_pos beyond, some_, decide_false]

theorem table_bytes_some (table : Nat → UInt64) {size : Nat} (positive : 0 < size) :
    tableBytes table size ≠ [] := by
  intro none
  have first : be64Bytes (table 0) = [] :=
    List.flatMap_eq_nil_iff.mp none 0 (List.mem_range.mpr positive)
  cases first

/-- What the source does with a table that could not be allocated. -/
theorem move_table_fails {l1tIdx l2tIdx : Nat} {old : UInt64} {got : Option (UInt64 × Nat)}
    (moved : moveTable m q l1tIdx l2tIdx old (-1) = .ok (got, after)) : got = none := by
  have table := table_bytes_some (fun _ => 0) (int_one_pos q.header.l2Bits)
  simp only [moveTable, qcowL2CacheWrite, Qcow.l2tSize, if_true] at moved
  split at moved
  · rw [pwrite_sync_refused q.disk table] at moved
    obtain ⟨_, _, same⟩ := Transition.bind_ok moved
    cases same
    rfl
  · split at moved
    · obtain ⟨_, _, same⟩ := Transition.bind_ok moved
      cases same
      rfl
    · split at moved
      · cases moved
      · cases moved

/-- What it does with a cluster that could not be allocated. -/
theorem store_copy_fails {table start flags : UInt64} {index clustOff : Nat} {src : List UInt8}
    {nr : Option Nat}
    (stored : storeCopy m q table index (-1) start flags clustOff src = .ok (nr, after)) :
    nr = none := by
  have beyond : fileMax < (-1 : UInt64).toNat := by decide
  have some_ :
      readRange (writeRange q.copyBuff clustOff src) 0 (2 ^ q.header.clusterBits) ≠ [] := by
    intro none
    have zero := congrArg List.length none
    rw [length_readRange] at zero
    exact absurd zero (Nat.two_pow_pos q.header.clusterBits).ne'
  simp only [storeCopy, pwriteInFull, if_pos beyond, Qcow.clusterSize, some_, decide_false]
    at stored
  obtain ⟨_, _, same⟩ := Transition.bind_ok stored
  cases same
  rfl

theorem copy_cluster_fails {table start flags : UInt64} {index clustOff : Nat} {src : List UInt8}
    {nr : Option Nat}
    (copied : copyCluster m q table index offset start flags clustOff src = .ok (nr, after)) :
    nr = none := by
  unfold copyCluster at copied
  obtain ⟨⟨place, middle⟩, _, copied⟩ := Transition.bind_ok copied
  simp only at copied
  split at copied
  · cases copied
    rfl
  · next taken =>
      have minus : place = -1 := not_not.mp taken
      subst minus
      split at copied
      · split at copied
        · cases copied
        · obtain ⟨_, _, same⟩ := Transition.bind_ok copied
          cases same
          rfl
        · exact store_copy_fails copied
      · exact store_copy_fails copied

theorem cluster_table_copied {table : UInt64} {index : Nat}
    (got : getClusterTable m q offset = .ok (some (table, index), after)) :
    q.l1Table (getL1Index q offset) &&& qcow2OflagCopied ≠ 0 ∧ index = getL2Index q offset ∧
      ∃ l2t, qcowReadL2Table q (q.l1Table (getL1Index q offset) &&& ~~~qcow2OflagCopied) =
        (some l2t, after) ∧ l2t.offset = table := by
  simp only [getClusterTable] at got
  split at got
  · cases got
  · split at got
    · cases got
    · split at got
      · next copied =>
          split at got
          · cases got
          · next l2t _ read =>
              cases got
              exact ⟨copied, rfl, l2t, read, rfl⟩
      · obtain ⟨⟨place, middle⟩, _, got⟩ := Transition.bind_ok got
        simp only at got
        split at got
        · cases got
        · next taken =>
            have minus : place = -1 := not_not.mp taken
            subst minus
            cases move_table_fails got

/-- A write to a cluster returns a number of bytes only if both entries have the flag
COPIED: it never allocates a table, and never a cluster. -/
theorem written_cluster_copied {buf : List UInt8} {nr : Nat} (second : q.version ≠ qcow1Version)
    (coherent : Coherent q) (wrote : qcowWriteCluster m q offset buf = .ok (some nr, after)) :
    l1Entry q offset.toNat &&& qcow2OflagCopied ≠ 0 ∧
      (loadsWhole q (l2tOffset q offset) → l2Entry q offset.toNat &&& qcow2OflagCopied ≠ 0) := by
  simp only [qcowWriteCluster] at wrote
  split at wrote
  · cases wrote
  · obtain ⟨⟨got, middle⟩, found, wrote⟩ := Transition.bind_ok wrote
    cases got with
    | none => cases wrote
    | some place =>
        obtain ⟨table, index⟩ := place
        obtain ⟨copied, rfl, l2t, read, rfl⟩ := cluster_table_copied found
        refine ⟨copied, ?_⟩
        intro whole
        have key :
            q.l1Table (getL1Index q offset) &&& ~~~qcow2OflagCopied = l2tOffset q offset := by
          rw [l2tOffset, qcow2_format second]
          rfl
        rw [key] at read
        have now := (read_table_spec coherent whole read).1
        simp only at wrote
        split at wrote
        · cases wrote
        · next node linked =>
            have entry := cached_entry read now linked
            split at wrote
            · cases copy_cluster_fails wrote
            · next flags =>
                rw [entry] at flags
                intro shared
                apply flags
                rw [UInt64.and_assoc, flags_copied]
                exact shared

theorem loop_copied {turns nrWritten : Nat} {buf : List UInt8} {count : Int}
    (second : q.version ≠ qcow1Version) (coherent : Coherent q)
    (wrote : writeSectorLoop m (turns + 1) q offset buf nrWritten = .ok (count, after))
    (some_ : buf ≠ []) (done : count ≠ -1) : l1Entry q offset.toNat &&& qcow2OflagCopied ≠ 0 := by
  rw [writeSectorLoop, if_neg some_] at wrote
  split at wrote
  · cases wrote
    exact absurd rfl done
  · obtain ⟨⟨nr, middle⟩, cluster, wrote⟩ := Transition.bind_ok wrote
    cases nr with
    | none =>
        cases wrote
        exact absurd rfl done
    | some nr => exact (written_cluster_copied second coherent cluster).1

/-- A write that does not return -1 starts in a cluster with a table of its own. -/
theorem each_copied {memory : Nat → UInt8} {sector : UInt64} {iov : List Range} {sum count : Int}
    (second : q.version ≠ qcow1Version) (coherent : Coherent q) (short : Described iov)
    (wrote : writeEach m iov q memory sector sum = .ok (count, after)) (some_ : 0 < total iov)
    (done : count ≠ -1) :
    l1Entry q (sector <<< sectorShift).toNat &&& qcow2OflagCopied ≠ 0 := by
  induction iov generalizing sector sum with
  | nil => exact absurd some_ (Nat.lt_irrefl 0)
  | cons entry rest ih =>
      rw [writeEach, described_word short] at wrote
      obtain ⟨⟨nr, middle⟩, single, wrote⟩ := Transition.bind_ok wrote
      simp only at wrote
      split at wrote
      · cases wrote
        exact absurd rfl done
      · next all =>
          have whole : nr = entry.len := not_not.mp all
          by_cases empty : entry.len = 0
          · have same : sector + UInt64.ofNat (0 / 512) = sector := by simp
            rw [empty] at single wrote
            cases single
            rw [same] at wrote
            rw [total, empty, Nat.zero_add] at some_
            exact ih (fun e member => short e (by simp [member])) wrote some_
          · obtain ⟨turns, length⟩ := Nat.exists_eq_succ_of_ne_zero empty
            rw [qcowWriteSectorSingle, length_readRange, length] at single
            apply loop_copied second coherent single
            · intro none
              have zero := congrArg List.length none
              simp at zero
            · omega

end Allocating

/-- A header, a level 1 table of one entry, a refcount table and its block, in clusters of
512 bytes. Nothing of the disk is allocated. -/
def emptyImage : Qcow where
  version := 2
  header := ⟨1024, 512, 1, 9, 6, 1024, 1⟩
  tableSize := 1
  l1Table := fun _ => 0
  l2Cache := []
  rfSize := 64
  rfTable := fun index => if index = 0 then 1536 else 0
  rfCache := []
  freeClustIdx := 0
  copyBuff := fun _ => 0
  disk := {
    file := {
      bytes := fun i => if i = 1030 then 6 else if i ∈ [1537, 1539, 1541, 1543] then 1 else 0
      size := 2048
      fixed := false }
    calls := 0
    host := fun _ => .moves 65536 }

theorem empty_free {index : Nat} (behind : index = 4 ∨ index = 5) : Free emptyImage index := by
  rcases behind with rfl | rfl
  · constructor <;> decide
  · constructor <;> decide

theorem empty_unowned (offset : Nat) : ¬ Owned emptyImage offset := by
  intro owned
  apply owned.table
  simp [l1Entry, emptyImage]

theorem empty_opened : Opened emptyImage := by
  constructor
  · rfl
  · decide
  · decide
  · rfl
  · constructor
    · exact fun offset _ owned => absurd owned (empty_unowned offset)
    · exact fun offset _ _ owned => absurd owned (empty_unowned offset)
    · exact fun offset _ owned => absurd owned (empty_unowned offset)
  · rfl

theorem empty_supplied : Supplied emptyImage 2 := by
  refine ⟨fun _ => ⟨65536, by decide, rfl⟩, [4, 5], by decide, rfl, ?_⟩
  intro index member
  have behind : index = 4 ∨ index = 5 := by simpa using member
  exact ⟨by omega, empty_free behind⟩

def firstSector : Request := ⟨fun _ => 7, 0, [⟨0, 512⟩]⟩

theorem first_covered {i : Nat} (early : i < firstSector.length) :
    (firstSector.start + i) / 2 ^ (emptyImage.header.l2Bits + emptyImage.header.clusterBits) <
      emptyImage.tableSize := by
  have length : firstSector.length = 512 := rfl
  have start : firstSector.start = 0 := rfl
  simp only [emptyImage, start]
  omega

def steadyMachine : Machine := ⟨2 ^ 32, fun _ => 0⟩

/-- The first write to a new image cannot succeed, although the file has room. -/
theorem first_write_refused :
    Opened emptyImage ∧ InDomain emptyImage firstSector ∧
      ¬ KeepsBytes steadyMachine ⟨emptyImage, fun offset => some (reference emptyImage offset)⟩
        [.write firstSector] := by
  refine ⟨empty_opened, ⟨by decide, by decide, by decide⟩, ?_⟩
  rintro ⟨⟨count, memory, after, ran, kept⟩, _⟩
  have all : count = firstSector.length := by
    apply kept.allocates
    · decide
    · exact fun i early => ⟨first_covered early, empty_unowned _⟩
    · exact empty_supplied
  obtain ⟨⟨nr, middle⟩, wrote, same⟩ := Transition.bind_ok ran
  cases same
  have coherent : Coherent emptyImage := by
    intro l2t member
    cases member
  apply each_copied (by decide) coherent (by decide) wrote (by decide)
  · rw [all]
    decide
  · simp [l1Entry, emptyImage]

/-- The image after a cluster was allocated by another program: its table is at 1024, and
its data at 1536. -/
def copiedImage : Qcow :=
  { emptyImage with
    header := ⟨1024, 512, 1, 9, 6, 2048, 1⟩
    l1Table := fun _ => qcow2OflagCopied ||| 1024
    rfTable := fun index => if index = 0 then 2560 else 0
    disk := { emptyImage.disk with
      file := {
        bytes := fun i =>
          if i = 512 ∨ i = 1024 then 128 else if i = 518 then 4 else if i = 1030 then 6
          else if i = 2054 then 10 else if i ∈ [2561, 2563, 2565, 2567, 2569, 2571] then 1 else 0
        size := 3072
        fixed := false } } }

theorem copied_entry (offset : Nat) : l2Entry copiedImage offset = QcowRead.be64
    (readRange (cell copiedImage.disk.file) (1024 + 8 * (offset / 512 % 64)) 8) 0 := by
  have upper : l1Entry copiedImage offset = qcow2OflagCopied ||| 1024 := rfl
  have base : (qcow2OflagCopied ||| 1024 : UInt64) &&& copiedImage.format.l2Mask = 1024 := by decide
  have early : offset / 512 % 64 < copiedImage.l2tSize := Nat.mod_lt _ (by decide)
  unfold l2Entry
  rw [upper, base]
  exact stored_entry early

theorem copied_entries : ∀ index < 64,
    QcowRead.be64 (readRange (cell copiedImage.disk.file) (1024 + 8 * index) 8) 0 =
      if index = 0 then qcow2OflagCopied ||| 1536 else 0 := by
  decide

/-- Only the first cluster is anywhere. -/
theorem copied_located {offset position : Nat}
    (there : located copiedImage offset = some position) :
    offset < 512 ∧ position = 1536 + offset := by
  obtain ⟨covered, _, named, place⟩ := located_named there
  have below : offset / 512 % 64 < 64 := Nat.mod_lt _ (by decide)
  rw [copied_entry, copied_entries _ below] at named place
  have first : offset / 512 % 64 = 0 := by
    by_contra other
    simp [if_neg other] at named
  have one : copiedImage.tableSize = 1 := rfl
  have bits : copiedImage.header.l2Bits + copiedImage.header.clusterBits = 15 := rfl
  rw [bits, one] at covered
  have early : offset < 512 := by omega
  have start : ((qcow2OflagCopied ||| 1536 : UInt64) &&& copiedImage.format.startMask).toNat =
    1536 := by decide
  have cluster : copiedImage.header.clusterBits = 9 := rfl
  rw [if_pos first, start, cluster] at place
  exact ⟨early, by omega⟩

theorem copied_owned {offset : Nat} (early : offset < 512) : Owned copiedImage offset := by
  have entry : l2Entry copiedImage offset = qcow2OflagCopied ||| 1536 := by
    have first : offset / 512 % 64 = 0 := by omega
    rw [copied_entry, first]
    exact copied_entries 0 (by decide)
  have upper : l1Entry copiedImage offset = qcow2OflagCopied ||| 1024 := rfl
  have covered : offset / 2 ^ (copiedImage.header.l2Bits + copiedImage.header.clusterBits) <
      copiedImage.tableSize := by
    have bits : copiedImage.header.l2Bits + copiedImage.header.clusterBits = 15 := rfl
    have one : copiedImage.tableSize = 1 := rfl
    rw [bits, one]
    omega
  constructor
  · exact covered
  · rw [upper]
    decide
  · rw [entry]
    decide
  · rw [entry]
    decide
  · apply located_some covered
    · rw [upper]
      decide
    · rw [entry]
      decide

theorem copied_opened : Opened copiedImage := by
  constructor
  · rfl
  · decide
  · decide
  · rfl
  · constructor
    · intro offset position _ there
      have place := copied_located there
      have size : copiedImage.disk.file.size = 3072 := rfl
      omega
    · intro offset position other _ there too
      have first := copied_located there
      have second := copied_located too
      omega
    · intro offset position _ there index _ _
      have place := copied_located there
      have base : (copiedImage.l1Table index &&& copiedImage.format.l2Mask).toNat = 1024 := by
        have upper : copiedImage.l1Table index = qcow2OflagCopied ||| 1024 := rfl
        rw [upper]
        decide
      have entries : copiedImage.l2tSize = 64 := rfl
      rw [base, entries]
      omega
  · rfl

theorem copied_coherent : Coherent copiedImage := by
  intro l2t member
  cases member

theorem copied_parts : AllPartsOwned steadyMachine firstSector.iov copiedImage
    firstSector.memory firstSector.sector := by
  have intact : Intact copiedImage := (opened_holds copied_opened).intact copied_coherent
  have owned : Owned copiedImage ((0 : UInt64) <<< sectorShift).toNat := copied_owned (by decide)
  have whole : tableWhole copiedImage (0 <<< sectorShift) := by
    have base : l2tOffset copiedImage (0 <<< sectorShift) = 1024 := rfl
    have loads : loadsWhole copiedImage 1024 :=
      ReferenceReads.loads_served (fun _ => ⟨65536, by decide, rfl⟩) (by decide)
    rw [tableWhole, base, loads, Bool.or_true]
  have fits : QcowRead.part copiedImage.header.clusterBits (0 <<< sectorShift)
      (readRange firstSector.memory 0 512).length =
        (readRange firstSector.memory 0 512).length := by
    have bits : copiedImage.header.clusterBits = 9 := rfl
    have none : ((0 : UInt64) <<< sectorShift).toNat = 0 := by decide
    rw [length_readRange, QcowRead.part, bits, none]
    omega
  have word : (UInt32.ofNat 512).toNat = 512 := rfl
  simp only [firstSector, AllPartsOwned, word] at fits ⊢
  generalize readRange (fun _ => (7 : UInt8)) 0 512 = src at fits ⊢
  exact ⟨single_part steadyMachine intact owned whole fits, fun _ _ _ => trivial⟩

/-- The image keeps its bytes in a write to its only cluster. -/
theorem copied_image_keeps_bytes : KeepsBytes steadyMachine
    ⟨copiedImage, fun offset => some (reference copiedImage offset)⟩ [.write firstSector] := by
  apply careful_runs_keep_bytes steadyMachine (Nat.le_refl _) copiedImage copied_opened
  rw [Meets]
  refine ⟨⟨⟨by decide, by decide, by decide⟩, copied_coherent, copied_parts⟩, ?_⟩
  generalize trackedCall steadyMachine _ _ = result
  cases result with
  | error fault => trivial
  | ok next => trivial

end VirtioDisk.QcowByteArray
