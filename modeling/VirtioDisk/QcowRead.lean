import Mathlib.Logic.Relation
import VirtioDisk.RawImage

/-!
The read path of disk/qcow.c for both versions of the format, in the build
without zlib, where no compressed cluster can be read. `pread` is what
`pread_in_full` gives for the image file, `none` for an error; the node cache of
level 2 tables only repeats such reads and is not modelled. Numbers of the tables
are as they are after the change of endianness. `touched` is ghost state, the
ranges of the virtual disk that were served.
-/

namespace VirtioDisk.QcowRead

open BlkDevice ByteStore DescriptorChain RawImage ReadWrite

structure Qcow where
  version : UInt32
  size : UInt64
  clusterBits : Nat
  l2Bits : Nat
  tableSize : Nat
  l1Table : Nat → UInt64
  pread : UInt64 → Nat → Option (List UInt8)
  touched : List Range

def qcow1Version : UInt32 := 1
def qcow1OflagCompressed : UInt64 := 0x8000000000000000
def qcow2OflagCopied : UInt64 := 0x8000000000000000
def qcow2OflagCompressed : UInt64 := 0x4000000000000000
def qcow2OffsetMask : UInt64 := ~~~(qcow2OflagCopied ||| qcow2OflagCompressed)

/-- `1 << bits` in an `int`. Neither header is checked for it: from 31 on C leaves it
undefined, and the processors take the count modulo 32. -/
def intOne (bits : Nat) : Nat := 2 ^ (bits % 32)

theorem int_one_small {bits : Nat} (small : bits ≤ 30) : intOne bits = 2 ^ bits := by
  rw [intOne, Nat.mod_eq_of_lt (by omega)]

theorem int_one_pos (bits : Nat) : 0 < intOne bits := Nat.two_pow_pos _

def Qcow.clusterSize (q : Qcow) : Nat := intOne q.clusterBits

-- A word of 64 bits takes the count of a shift modulo 64.
def getL1Index (q : Qcow) (offset : UInt64) : Nat :=
  offset.toNat / 2 ^ ((q.l2Bits + q.clusterBits) % 64)

def getL2Index (q : Qcow) (offset : UInt64) : Nat :=
  offset.toNat / 2 ^ (q.clusterBits % 64) % intOne q.l2Bits

def getClusterOffset (q : Qcow) (offset : UInt64) : Nat := offset.toNat % intOne q.clusterBits

-- A short read leaves the zeroes of calloc behind it.
def be64 (bytes : List UInt8) (index : Nat) : UInt64 :=
  (List.range 8).foldl (fun sum i => sum * 256 + (bytes.getD (8 * index + i) 0).toUInt64) 0

def qcowReadL2Table (q : Qcow) (offset : UInt64) : Option (Nat → UInt64) :=
  (q.pread offset (8 * intOne q.l2Bits)).map be64

/-- What reading a part of one cluster gives for the destination. -/
inductive ClusterRead where
  | error
  | zero (length : Nat)
  | data (length : Nat) (bytes : List UInt8)

/-- The two versions differ in the flags of their table entries only. -/
def readCluster (compressed l2Mask startMask : UInt64) (q : Qcow) (offset : UInt64)
    (dstLen : Nat) : ClusterRead :=
  let l1Idx := getL1Index q offset
  let clustOffset := getClusterOffset q offset
  if q.tableSize ≤ l1Idx then .error
  else if q.clusterSize ≤ clustOffset then .error
  else
    let length := min (q.clusterSize - clustOffset) dstLen
    let l2tOffset := q.l1Table l1Idx &&& l2Mask
    if l2tOffset = 0 then .zero length
    else
      match qcowReadL2Table q l2tOffset with
      | none => .error
      | some table =>
          let l2Idx := getL2Index q offset
          if intOne q.l2Bits ≤ l2Idx then .error
          else
            let clustStart := table l2Idx
            if clustStart &&& compressed ≠ 0 then .error
            else if clustStart &&& startMask = 0 then .zero length
            else
              match q.pread ((clustStart &&& startMask) + UInt64.ofNat clustOffset) length with
              | none => .error
              | some bytes => .data length bytes

def qcow1ReadCluster : Qcow → UInt64 → Nat → ClusterRead :=
  readCluster qcow1OflagCompressed (~~~0) (~~~0)

def qcow2ReadCluster : Qcow → UInt64 → Nat → ClusterRead :=
  readCluster qcow2OflagCompressed (~~~qcow2OflagCopied) qcow2OffsetMask

def qcowReadCluster (q : Qcow) : UInt64 → Nat → ClusterRead :=
  if q.version = qcow1Version then qcow1ReadCluster q else qcow2ReadCluster q

def Qcow.served (q : Qcow) (offset : UInt64) (length : Nat) : Qcow :=
  { q with touched := q.touched ++ [⟨offset.toNat, length⟩] }

/-- How one turn of the loop of `qcow_read_sector_single` goes on. -/
inductive SectorTurn where
  | ended (total : Option Int) (q : Qcow) (bytes : Nat → UInt8)
  | onward (q : Qcow) (bytes : Nat → UInt8) (nr : UInt32)

-- `nr` is unsigned, so that an error of a cluster is a huge progress.
def sectorTurn (dst : Option Nat) (q : Qcow) (bytes : Nat → UInt8) (buf : Nat) (left : UInt32)
    (offset : UInt64) : SectorTurn :=
  if q.size ≤ offset then .ended (some (-1)) q bytes
  else
    match qcowReadCluster q offset left.toNat, dst with
    | .error, _ => .onward q bytes (-1)
    -- The host refuses to read to a bad address, memset does not.
    | .data _ _, none => .onward q bytes (-1)
    | .zero _, none => .ended none q bytes
    | .data length read, some dst =>
        .onward (q.served offset length) (writeRange bytes (dst + buf) read) (UInt32.ofNat length)
    | .zero length, some dst =>
        .onward (q.served offset length)
          (writeRange bytes (dst + buf) (List.replicate length 0)) (UInt32.ofNat length)

def readSectorLoop (dst : Option Nat) (dstLen : UInt32) :
    Nat → Qcow → (Nat → UInt8) → Nat → UInt32 → UInt64 → Transferred Qcow
  | 0, q, bytes, _, _, _ => ⟨none, q, bytes⟩
  | fuel + 1, q, bytes, buf, nrRead, sector =>
      if nrRead < dstLen then
        match sectorTurn dst q bytes buf (dstLen - nrRead) (sector <<< sectorShift) with
        | .ended total q bytes => ⟨total, q, bytes⟩
        | .onward q bytes nr =>
            if nr = 0 then ⟨some (-1), q, bytes⟩
            else readSectorLoop dst dstLen fuel q bytes (buf + nr.toNat) (nrRead + nr)
              (sector + (nr >>> 9).toUInt64)
      else ⟨some dstLen.toNat, q, bytes⟩

def qcowReadSectorSingle (fuel : Nat) (q : Qcow) (bytes : Nat → UInt8) (sector : UInt64)
    (dst : Option Nat) (dstLen : UInt32) : Transferred Qcow :=
  readSectorLoop dst dstLen fuel q bytes 0 0 sector

/-- The loop of `qcow_read_sector`, `iovcount` more entries to go. -/
def readEach (fuel : Nat) :
    Nat → List Iovec → Qcow → (Nat → UInt8) → UInt64 → Int → Transferred Qcow
  | 0, _, q, bytes, _, total => ⟨some total, q, bytes⟩
  | _ + 1, [], q, bytes, _, _ => ⟨none, q, bytes⟩
  | iovcount + 1, entry :: rest, q, bytes, sector, total =>
      let read := qcowReadSectorSingle fuel q bytes sector (storeTarget entry.iovBase)
        (UInt32.ofNat entry.iovLen)
      match read.total with
      | none => read
      | some nr =>
          if nr ≠ entry.iovLen then ⟨some (-1), read.disk, read.bytes⟩
          else readEach fuel iovcount rest read.disk read.bytes
            (sector + UInt64.ofNat (entry.iovLen / 512)) (total + nr)

def qcowReadSector (fuel : Nat) : Transfer Qcow := fun q bytes sector iov iovcount =>
  if iovcount < 0 then ⟨none, q, bytes⟩ else readEach fuel iovcount.toNat iov q bytes sector 0

/-- `disk_image__open` opens every qcow image read-only. -/
def qcowDiskReadonlyOps (fuel : Nat) : DiskImageOperations Qcow where
  read := some (qcowReadSector fuel)
  write := none
  flush := none

theorem read_cluster_length {compressed l2Mask startMask : UInt64} {q : Qcow} {offset : UInt64}
    {dstLen length : Nat} :
    (readCluster compressed l2Mask startMask q offset dstLen = .zero length ∨
      ∃ bytes, readCluster compressed l2Mask startMask q offset dstLen = .data length bytes) →
    length = min (q.clusterSize - getClusterOffset q offset) dstLen := by
  simp only [readCluster]
  split
  · simp
  · split
    · simp
    · split
      · simp only [ClusterRead.zero.injEq, reduceCtorEq, exists_false, or_false]
        exact Eq.symm
      · split
        · simp
        · split
          · simp
          · split
            · simp
            · split
              · simp only [ClusterRead.zero.injEq, reduceCtorEq, exists_false, or_false]
                exact Eq.symm
              · split
                · simp
                · simp only [reduceCtorEq, ClusterRead.data.injEq, false_or]
                  rintro ⟨_, same, _⟩
                  exact same.symm

/-- The part of the cluster at `offset` that is served when `left` bytes are wanted. -/
def part (clusterBits : Nat) (offset : UInt64) (left : Nat) : Nat :=
  min (2 ^ clusterBits - offset.toNat % 2 ^ clusterBits) left

theorem qcow_cluster_length {q : Qcow} {offset : UInt64} {dstLen length : Nat}
    (served : qcowReadCluster q offset dstLen = .zero length ∨
      ∃ bytes, qcowReadCluster q offset dstLen = .data length bytes) :
    length = part (q.clusterBits % 32) offset dstLen := by
  unfold qcowReadCluster at served
  split at served
  · exact read_cluster_length served
  · exact read_cluster_length served

/-- `after` is `q` with further served ranges that satisfy `holds`. -/
structure Grew (holds : Range → Prop) (q after : Qcow) : Prop where
  same : { after with touched := q.touched } = q
  more : ∃ more, after.touched = q.touched ++ more ∧ ∀ range ∈ more, holds range

section Growth
variable {holds : Range → Prop} {q middle after : Qcow}

theorem Grew.refl (q : Qcow) : Grew holds q q :=
  ⟨rfl, [], by simp, by simp⟩

theorem Grew.trans (first : Grew holds q middle) (second : Grew holds middle after) :
    Grew holds q after := by
  rcases first.more with ⟨early, left, earlyHolds⟩
  rcases second.more with ⟨late, right, lateHolds⟩
  refine ⟨?_, early ++ late, by rw [right, left, List.append_assoc], ?_⟩
  · have back := congrArg (fun r : Qcow => { r with touched := q.touched }) second.same
    exact back.trans first.same
  · intro range member
    rcases List.mem_append.mp member with before | behind
    · exact earlyHolds range before
    · exact lateHolds range behind

theorem Grew.size (grew : Grew holds q after) : after.size = q.size := by
  rw [← grew.same]

theorem Grew.only (grew : Grew holds q after) : after = { q with touched := after.touched } :=
  congrArg (fun r : Qcow => { r with touched := after.touched }) grew.same

theorem grew_served (offset : UInt64) (length : Nat) (here : holds ⟨offset.toNat, length⟩) :
    Grew holds q (q.served offset length) :=
  ⟨rfl, [⟨offset.toNat, length⟩], rfl, by simpa using here⟩

end Growth

/-- The range is empty or ends inside a disk of `size` bytes. -/
def Inside (size : Nat) (range : Range) : Prop :=
  range.len = 0 ∨ range.base + range.len ≤ size

instance (size : Nat) (range : Range) : Decidable (Inside size range) :=
  inferInstanceAs (Decidable (_ ∨ _))

section Arithmetic

theorem shifted_toNat (sector : UInt64) :
    (sector <<< sectorShift).toNat = sector.toNat * 512 % 2 ^ 64 := by
  simp [sectorShift, UInt64.toNat_shiftLeft, Nat.shiftLeft_eq]

theorem sector_advance (sector : UInt64) (nr : UInt32) (whole : 512 ∣ nr.toNat)
    (fits : (sector <<< sectorShift).toNat + nr.toNat < 2 ^ 64) :
    ((sector + (nr >>> 9).toUInt64) <<< sectorShift).toNat =
      (sector <<< sectorShift).toNat + nr.toNat := by
  rcases whole with ⟨sectors, count⟩
  have moved : (nr >>> 9).toUInt64.toNat = sectors := by
    simp [Nat.shiftRight_eq_div_pow, count]
  rw [shifted_toNat, UInt64.toNat_add, moved]
  rw [shifted_toNat] at fits ⊢
  omega

/-- The part of a cluster is as long as wanted or ends with its cluster. -/
theorem part_cases (clusterBits : Nat) (offset : UInt64) (left : Nat) :
    part clusterBits offset left = left ∨
      (part clusterBits offset left < left ∧
        2 ^ clusterBits ∣ offset.toNat + part clusterBits offset left) := by
  have split := Nat.div_add_mod offset.toNat (2 ^ clusterBits)
  have rest := Nat.mod_lt offset.toNat (Nat.two_pow_pos clusterBits)
  by_cases short : 2 ^ clusterBits - offset.toNat % 2 ^ clusterBits < left
  · have ends : part clusterBits offset left =
        2 ^ clusterBits - offset.toNat % 2 ^ clusterBits := Nat.min_eq_left (Nat.le_of_lt short)
    refine Or.inr ⟨by rw [ends]; exact short, offset.toNat / 2 ^ clusterBits + 1, ?_⟩
    rw [ends, Nat.mul_add]
    omega
  · exact Or.inl (Nat.min_eq_right (Nat.not_lt.mp short))

theorem part_positive (clusterBits : Nat) (offset : UInt64) {left : Nat} (wanted : 0 < left) :
    0 < part clusterBits offset left := by
  have rest := Nat.mod_lt offset.toNat (Nat.two_pow_pos clusterBits)
  unfold part
  omega

theorem part_le (clusterBits : Nat) (offset : UInt64) (left : Nat) :
    part clusterBits offset left ≤ left := Nat.min_le_right _ _

/-- A part goes beyond the end exactly if it begins in the cluster in which the disk ends and
more is wanted of it than the disk has. -/
theorem part_inside_iff {clusterBits : Nat} {offset : UInt64} {left size : Nat}
    (below : offset.toNat < size) : offset.toNat + part clusterBits offset left ≤ size ↔
      (offset.toNat / 2 ^ clusterBits = size / 2 ^ clusterBits → offset.toNat + left ≤ size) := by
  have split := Nat.div_add_mod offset.toNat (2 ^ clusterBits)
  have rest := Nat.mod_lt offset.toNat (Nat.two_pow_pos clusterBits)
  have ends := Nat.div_add_mod size (2 ^ clusterBits)
  have tail := Nat.mod_lt size (Nat.two_pow_pos clusterBits)
  have order := Nat.div_le_div_right (c := 2 ^ clusterBits) (Nat.le_of_lt below)
  unfold part
  by_cases last : offset.toNat / 2 ^ clusterBits = size / 2 ^ clusterBits
  · rw [last] at split
    simp only [last, true_imp_iff]
    omega
  · have next : 2 ^ clusterBits * (offset.toNat / 2 ^ clusterBits + 1) ≤
        2 ^ clusterBits * (size / 2 ^ clusterBits) := Nat.mul_le_mul_left _ (by omega)
    rw [Nat.mul_add] at next
    simp only [last, false_imp_iff, iff_true]
    omega

end Arithmetic

/-- How far the loop has come with one segment. -/
structure Position where
  nrRead : UInt32
  sector : UInt64

def Position.offset (at_ : Position) : UInt64 := at_.sector <<< sectorShift

/-- The cluster below the size can be read, and its bytes be stored. -/
def Serves (q : Qcow) (dst : Option Nat) (left : UInt32) (offset : UInt64) : Prop :=
  offset < q.size ∧ dst ≠ none ∧ qcowReadCluster q offset left.toNat ≠ .error

/-- What a turn adds to `nr_read`, if the loop goes on behind it. -/
def progress (q : Qcow) (dst : Option Nat) (left : UInt32) (offset : UInt64) : Option UInt32 :=
  if q.size ≤ offset then none
  else
    match qcowReadCluster q offset left.toNat, dst with
    | .error, _ | .data _ _, none => some (-1)
    | .zero _, none => none
    | .zero length, some _ | .data length _, some _ => some (UInt32.ofNat length)

def onwardFrom (q : Qcow) (dst : Option Nat) (dstLen : UInt32) (at_ : Position) :
    Option Position :=
  if at_.nrRead < dstLen then
    match progress q dst (dstLen - at_.nrRead) at_.offset with
    | none => none
    | some nr =>
        if nr = 0 then none
        else some ⟨at_.nrRead + nr, at_.sector + (nr >>> 9).toUInt64⟩
  else none

/-- The loop comes to a position: behind what was served, or, where the cluster cannot be
read, 0x7fffff sectors on with one byte less counted. -/
def Comes (q : Qcow) (dst : Option Nat) (dstLen : UInt32) : Position → Position → Prop :=
  Relation.ReflTransGen fun at_ next => onwardFrom q dst dstLen at_ = some next

/-- No turn that the loop comes to reads the cluster in which the disk ends for more than the
disk has of it. -/
def SegmentInside (q : Qcow) (dst : Option Nat) (dstLen : UInt32) (start : Position) : Prop :=
  ∀ at_, Comes q dst dstLen start at_ → at_.nrRead < dstLen →
    Serves q dst (dstLen - at_.nrRead) at_.offset →
    at_.offset.toNat / q.clusterSize = q.size.toNat / q.clusterSize →
      at_.offset.toNat + (dstLen - at_.nrRead).toNat ≤ q.size.toNat

/-- The loop counts all of the segment, so that the next one has its turn. -/
def Passed (q : Qcow) (dst : Option Nat) (dstLen : UInt32) (start : Position) : Prop :=
  ∃ at_, Comes q dst dstLen start at_ ∧ dstLen ≤ at_.nrRead

def EachInside (q : Qcow) : UInt64 → List Iovec → Prop
  | _, [] => True
  | sector, entry :: rest =>
      let dst := storeTarget entry.iovBase
      let dstLen := UInt32.ofNat entry.iovLen
      SegmentInside q dst dstLen ⟨0, sector⟩ ∧
        (Passed q dst dstLen ⟨0, sector⟩ → dstLen.toNat = entry.iovLen →
          EachInside q (sector + UInt64.ofNat (entry.iovLen / 512)) rest)

section Single
variable {q : Qcow} {dst : Option Nat} {dstLen : UInt32} {start at_ next : Position}

/-- What a turn leaves of the image: with the range that it has served, if it serves one. -/
inductive Left (q : Qcow) (dst : Option Nat) (left : UInt32) (offset : UInt64) : Qcow → Prop where
  | served : Serves q dst left offset →
      Left q dst left offset (q.served offset (part (q.clusterBits % 32) offset left.toNat))
  | missed : ¬ Serves q dst left offset → Left q dst left offset q

theorem turn_stops {left : UInt32} {offset : UInt64} (bytes : Nat → UInt8) (buf : Nat)
    (stops : progress q dst left offset = none) :
    ¬ Serves q dst left offset ∧ ∃ total, (total = none ∨ total = some (-1)) ∧
      sectorTurn dst q bytes buf left offset = .ended total q bytes := by
  unfold progress at stops
  unfold Serves sectorTurn
  by_cases past : q.size ≤ offset
  · simp [past, UInt64.not_lt.mpr past]
  · cases cluster : qcowReadCluster q offset left.toNat <;> cases dst <;>
      simp [past, cluster] at stops ⊢

theorem turn_goes {left nr : UInt32} {offset : UInt64} (bytes : Nat → UInt8) (buf : Nat)
    (goes : progress q dst left offset = some nr) :
    ∃ middle after, Left q dst left offset middle ∧
      (Serves q dst left offset →
        nr = UInt32.ofNat (part (q.clusterBits % 32) offset left.toNat)) ∧
      sectorTurn dst q bytes buf left offset = .onward middle after nr := by
  unfold progress at goes
  unfold sectorTurn
  by_cases past : q.size ≤ offset
  · simp [past] at goes
  · have below : offset < q.size := UInt64.not_le.mp past
    rw [if_neg past] at goes ⊢
    cases cluster : qcowReadCluster q offset left.toNat with
    | error =>
        have missed : ¬ Serves q dst left offset := fun serves => serves.2.2 cluster
        simp only [cluster, Option.some.injEq] at goes
        subst goes
        exact ⟨q, bytes, .missed missed, fun serves => absurd serves missed, rfl⟩
    | zero length =>
        have extent := qcow_cluster_length (Or.inl cluster)
        cases dst with
        | none => simp [cluster] at goes
        | some base =>
            have serves : Serves q (some base) left offset := ⟨below, nofun, by simp [cluster]⟩
            simp only [cluster, Option.some.injEq] at goes
            subst goes extent
            exact ⟨_, _, .served serves, fun _ => rfl, rfl⟩
    | data length read =>
        have extent := qcow_cluster_length (Or.inr ⟨read, cluster⟩)
        cases dst with
        | none =>
            have missed : ¬ Serves q none left offset := fun serves => serves.2.1 rfl
            simp only [cluster, Option.some.injEq] at goes
            subst goes
            exact ⟨q, bytes, .missed missed, fun serves => absurd serves missed, rfl⟩
        | some base =>
            have serves : Serves q (some base) left offset := ⟨below, nofun, by simp [cluster]⟩
            simp only [cluster, Option.some.injEq] at goes
            subst goes extent
            exact ⟨_, _, .served serves, fun _ => rfl, rfl⟩

-- A part that is served is not empty, so that the loop goes on behind it.
theorem served_goes (more : at_.nrRead < dstLen)
    (serves : Serves q dst (dstLen - at_.nrRead) at_.offset) :
    onwardFrom q dst dstLen at_ ≠ none := by
  have ahead := UInt32.lt_iff_toNat_lt.mp more
  have left : (dstLen - at_.nrRead).toNat = dstLen.toNat - at_.nrRead.toNat :=
    UInt32.toNat_sub_of_le _ _ (UInt32.le_of_lt more)
  have extent : 0 < part (q.clusterBits % 32) at_.offset (dstLen - at_.nrRead).toNat :=
    part_positive _ _ (by omega)
  have short := part_le (q.clusterBits % 32) at_.offset (dstLen - at_.nrRead).toNat
  have bound := UInt32.toNat_lt (dstLen - at_.nrRead)
  unfold onwardFrom
  rw [if_pos more]
  cases goes : progress q dst (dstLen - at_.nrRead) at_.offset with
  | none => exact absurd serves (turn_stops (fun _ => 0) 0 goes).1
  | some nr =>
      obtain ⟨_, _, _, count, _⟩ := turn_goes (fun _ => 0) 0 goes
      have nonzero : nr ≠ 0 := by
        intro zero
        have same := congrArg UInt32.toNat ((count serves).symm.trans zero)
        rw [UInt32.toNat_ofNat', UInt32.toNat_zero] at same
        omega
      simp [nonzero]

/-- One turn of the loop: the segment is full, or the read ends here with an error, or it goes
on behind what this turn serves. -/
theorem loop_turn (q : Qcow) (dst : Option Nat) (dstLen : UInt32) (at_ : Position) (fuel : Nat)
    (bytes : Nat → UInt8) (buf : Nat) :
    let read := readSectorLoop dst dstLen (fuel + 1) q bytes buf at_.nrRead at_.sector
    (dstLen ≤ at_.nrRead ∧ read = ⟨some dstLen.toNat, q, bytes⟩) ∨
      (onwardFrom q dst dstLen at_ = none ∧ read.disk = q ∧
        (read.total = none ∨ read.total = some (-1))) ∨
      (at_.nrRead < dstLen ∧ ∃ next middle after buf', onwardFrom q dst dstLen at_ = some next ∧
        Left q dst (dstLen - at_.nrRead) at_.offset middle ∧
        read = readSectorLoop dst dstLen fuel middle after buf' next.nrRead next.sector) := by
  by_cases more : at_.nrRead < dstLen
  · right
    simp only [readSectorLoop, more, if_true, true_and]
    cases goes : progress q dst (dstLen - at_.nrRead) at_.offset with
    | none =>
        obtain ⟨_, total, failed, turn⟩ := turn_stops bytes buf goes
        rw [Position.offset] at turn
        left
        rw [turn]
        exact ⟨by simp [onwardFrom, goes], rfl, failed⟩
    | some nr =>
        obtain ⟨middle, after, ended, count, turn⟩ := turn_goes bytes buf goes
        rw [Position.offset] at turn
        rw [turn]
        by_cases zero : nr = 0
        · left
          have stays : onwardFrom q dst dstLen at_ = none := by
            simp [onwardFrom, goes, zero]
          have missed : ¬ Serves q dst (dstLen - at_.nrRead) at_.offset :=
            fun serves => served_goes more serves stays
          cases ended with
          | served serves => exact absurd serves missed
          | missed => simp [zero, stays]
        · right
          refine ⟨⟨at_.nrRead + nr, at_.sector + (nr >>> 9).toUInt64⟩, middle, after,
            buf + nr.toNat, ?_, ended, ?_⟩
          · simp only [onwardFrom, more, goes, zero, if_true, if_false]
          · simp only [zero, if_false]
  · left
    have full : dstLen ≤ at_.nrRead := UInt32.not_lt.mp more
    simp [readSectorLoop, more, full]

/-- All that the loop serves are the parts of the turns that it comes to. -/
theorem loop_grew {holds : Range → Prop} (fuel : Nat) (bytes : Nat → UInt8) (buf : Nat)
    (each : ∀ at_, Comes q dst dstLen start at_ → at_.nrRead < dstLen →
      Serves q dst (dstLen - at_.nrRead) at_.offset → holds ⟨at_.offset.toNat,
        part (q.clusterBits % 32) at_.offset (dstLen - at_.nrRead).toNat⟩) :
    Grew holds q
      (readSectorLoop dst dstLen fuel q bytes buf start.nrRead start.sector).disk := by
  induction fuel generalizing q bytes buf start with
  | zero => exact Grew.refl q
  | succ fuel ih =>
      rcases loop_turn q dst dstLen start fuel bytes buf with
        ⟨_, read⟩ | ⟨_, read, _⟩ | ⟨more, next, middle, after, buf', goes, ended, read⟩
      · rw [read]
        exact Grew.refl q
      · rw [read]
        exact Grew.refl q
      · rw [read]
        have onward : ∀ at_, Comes q dst dstLen next at_ → at_.nrRead < dstLen →
            Serves q dst (dstLen - at_.nrRead) at_.offset → holds ⟨at_.offset.toNat,
              part (q.clusterBits % 32) at_.offset (dstLen - at_.nrRead).toNat⟩ :=
          fun at_ comes => each at_ (Relation.ReflTransGen.head goes comes)
        cases ended with
        | served serves =>
            exact (grew_served _ _ (each start .refl more serves)).trans (ih after buf' onward)
        | missed => exact ih after buf' onward

theorem loop_inside (fuel : Nat) (bytes : Nat → UInt8) (buf : Nat)
    (inside : SegmentInside q dst dstLen start) :
    Grew (Inside q.size.toNat) q
      (readSectorLoop dst dstLen fuel q bytes buf start.nrRead start.sector).disk :=
  loop_grew fuel bytes buf fun at_ comes more serves =>
    Or.inr ((part_inside_iff (UInt64.lt_iff_toNat_lt.mp serves.1)).mpr
      (inside at_ comes more serves))

/-- The loop is at a position that it comes to, some turns later. -/
theorem loop_comes (comes : Comes q dst dstLen start at_) :
    ∃ turns, ∀ fuel touched bytes buf, ∃ touched' bytes' buf',
      readSectorLoop dst dstLen (fuel + turns) { q with touched := touched } bytes buf
          start.nrRead start.sector =
        readSectorLoop dst dstLen fuel { q with touched := touched' } bytes' buf'
          at_.nrRead at_.sector := by
  induction comes using Relation.ReflTransGen.head_induction_on with
  | refl => exact ⟨0, fun _ touched bytes buf => ⟨touched, bytes, buf, rfl⟩⟩
  | @head first second goes _ ih =>
      obtain ⟨turns, later⟩ := ih
      refine ⟨turns + 1, fun fuel touched bytes buf => ?_⟩
      have onward : onwardFrom { q with touched := touched } dst dstLen first = some second := goes
      rcases loop_turn { q with touched := touched } dst dstLen first (fuel + turns) bytes buf with
        ⟨full, _⟩ | ⟨stays, _⟩ | ⟨_, next, middle, after, buf', goes, ended, read⟩
      · simp [onwardFrom, UInt32.not_lt.mpr full] at onward
      · rw [stays] at onward
        cases onward
      · obtain rfl := Option.some.inj (goes.symm.trans onward)
        rw [← Nat.add_assoc, read]
        cases ended with
        | served => exact later fuel _ after buf'
        | missed => exact later fuel touched after buf'

/-- A range that does not stay inside, of a segment that is not inside. -/
theorem loop_outside (outside : ¬ SegmentInside q dst dstLen start) :
    ∃ enough, ∀ fuel, enough ≤ fuel → ∀ touched bytes buf,
      ∃ range ∈ (readSectorLoop dst dstLen fuel { q with touched := touched } bytes buf
        start.nrRead start.sector).disk.touched, ¬ Inside q.size.toNat range := by
  simp only [SegmentInside, not_forall] at outside
  obtain ⟨at_, comes, more, serves, last, beyond⟩ := outside
  obtain ⟨turns, reached⟩ := loop_comes comes
  refine ⟨turns + 1, fun fuel long touched bytes buf => ?_⟩
  obtain ⟨rest, rfl⟩ := Nat.exists_eq_add_of_le' long
  obtain ⟨now, bytes', buf', there⟩ := reached (rest + 1) touched bytes buf
  have here : Serves { q with touched := now } dst (dstLen - at_.nrRead) at_.offset := serves
  rw [Nat.add_comm turns, ← Nat.add_assoc, there]
  rcases loop_turn { q with touched := now } dst dstLen at_ rest bytes' buf' with
    ⟨full, _⟩ | ⟨stays, _⟩ | ⟨_, next, middle, after, buf'', _, ended, read⟩
  · exact absurd more (UInt32.not_lt.mpr full)
  · exact absurd stays (served_goes more here)
  · have grew : Grew (fun _ => True) middle
        (readSectorLoop dst dstLen rest middle after buf'' next.nrRead next.sector).disk :=
      loop_grew rest after buf'' fun _ _ _ _ => trivial
    obtain ⟨behind, grown, _⟩ := grew.more
    cases ended with
    | missed away => exact absurd here away
    | served =>
        refine ⟨⟨at_.offset.toNat, part (q.clusterBits % 32) at_.offset
          (dstLen - at_.nrRead).toNat⟩, ?_, ?_⟩
        · rw [read, grown]
          simp [Qcow.served]
        · rintro (empty | ends)
          · have wanted : 0 < (dstLen - at_.nrRead).toNat := by
              rw [UInt32.toNat_sub_of_le _ _ (UInt32.le_of_lt more)]
              have ahead := UInt32.lt_iff_toNat_lt.mp more
              omega
            exact absurd empty (part_positive _ _ wanted).ne'
          · exact beyond ((part_inside_iff (UInt64.lt_iff_toNat_lt.mp serves.1)).mp ends last)

theorem passed_returns (passed : Passed q dst dstLen start) :
    ∃ enough, ∀ fuel, enough ≤ fuel → ∀ touched bytes buf,
      (readSectorLoop dst dstLen fuel { q with touched := touched } bytes buf start.nrRead
        start.sector).total = some (dstLen.toNat : Int) := by
  obtain ⟨at_, comes, full⟩ := passed
  obtain ⟨turns, reached⟩ := loop_comes comes
  refine ⟨turns + 1, fun fuel long touched bytes buf => ?_⟩
  obtain ⟨rest, rfl⟩ := Nat.exists_eq_add_of_le' long
  obtain ⟨now, bytes', buf', there⟩ := reached (rest + 1) touched bytes buf
  rw [Nat.add_comm turns, ← Nat.add_assoc, there]
  simp [readSectorLoop, UInt32.not_lt.mpr full]

theorem returned_passed (at_ : Position) {fuel : Nat} {bytes : Nat → UInt8} {buf : Nat}
    {total : Int} (returned :
      (readSectorLoop dst dstLen fuel q bytes buf at_.nrRead at_.sector).total = some total)
    (done : 0 ≤ total) : total = dstLen.toNat ∧ Passed q dst dstLen at_ := by
  induction fuel generalizing q bytes buf at_ with
  | zero => simp [readSectorLoop] at returned
  | succ fuel ih =>
      rcases loop_turn q dst dstLen at_ fuel bytes buf with
        ⟨full, read⟩ | ⟨_, _, failed⟩ | ⟨_, next, middle, after, buf', goes, ended, read⟩
      · rw [read] at returned
        exact ⟨(Option.some.inj returned).symm, at_, .refl, full⟩
      · rw [returned] at failed
        simp only [reduceCtorEq, Option.some.injEq, false_or] at failed
        omega
      · rw [read] at returned
        obtain ⟨same, later, comes, full⟩ := ih next returned
        refine ⟨same, later, Relation.ReflTransGen.head goes ?_, full⟩
        cases ended with
        | served => exact comes
        | missed => exact comes

end Single

section Segments
variable {q : Qcow} {data behind : List Iovec} {sector : UInt64}

theorem single_grew (fuel : Nat) (q : Qcow) (bytes : Nat → UInt8) (sector : UInt64)
    (dst : Option Nat) (dstLen : UInt32) :
    Grew (fun _ => True) q (qcowReadSectorSingle fuel q bytes sector dst dstLen).disk :=
  loop_grew fuel bytes 0 (fun _ _ _ _ => trivial : ∀ at_, Comes q dst dstLen ⟨0, sector⟩ at_ → _)

theorem each_grew (fuel iovcount : Nat) (iov : List Iovec) (q : Qcow) (bytes : Nat → UInt8)
    (sector : UInt64) (total : Int) :
    Grew (fun _ => True) q (readEach fuel iovcount iov q bytes sector total).disk := by
  induction iovcount generalizing iov q bytes sector total with
  | zero => exact Grew.refl q
  | succ iovcount ih =>
      cases iov with
      | nil => exact Grew.refl q
      | cons entry rest =>
          have single := single_grew fuel q bytes sector (storeTarget entry.iovBase)
            (UInt32.ofNat entry.iovLen)
          simp only [readEach]
          split
          · exact single
          · split
            · exact single
            · exact single.trans (ih _ _ _ _ _)

theorem each_inside_grew {holds : Range → Prop} {after : Qcow} (grew : Grew holds q after) :
    EachInside after sector data ↔ EachInside q sector data := by
  rw [← grew.same]
  induction data generalizing sector with
  | nil => exact Iff.rfl
  | cons entry rest ih => exact and_congr Iff.rfl (imp_congr Iff.rfl (imp_congr Iff.rfl ih))

theorem each_inside (fuel : Nat) (bytes : Nat → UInt8) (total : Int)
    (inside : EachInside q sector data) :
    Grew (Inside q.size.toNat) q
      (readEach fuel data.length (data ++ behind) q bytes sector total).disk := by
  induction data generalizing q bytes sector total with
  | nil => exact Grew.refl q
  | cons entry rest ih =>
      obtain ⟨segment, onward⟩ := inside
      have single : Grew (Inside q.size.toNat) q (qcowReadSectorSingle fuel q bytes sector
          (storeTarget entry.iovBase) (UInt32.ofNat entry.iovLen)).disk :=
        loop_inside fuel bytes 0 segment
      simp only [List.length_cons, List.cons_append, readEach]
      split
      · exact single
      · next nr returned =>
          split
          · exact single
          · next full =>
              have whole : nr = (entry.iovLen : Int) := of_not_not full
              obtain ⟨counted, passed⟩ :=
                returned_passed ⟨0, sector⟩ returned (by omega)
              have later := onward passed (by omega)
              have behind := ih (qcowReadSectorSingle fuel q bytes sector
                (storeTarget entry.iovBase) (UInt32.ofNat entry.iovLen)).bytes (total + nr)
                ((each_inside_grew single).mpr later)
              rw [single.size] at behind
              exact single.trans behind

theorem each_outside (behind : List Iovec) (outside : ¬ EachInside q sector data) :
    ∃ enough, ∀ fuel, enough ≤ fuel → ∀ touched bytes total,
      ∃ range ∈ (readEach fuel data.length (data ++ behind) { q with touched := touched } bytes
        sector total).disk.touched, ¬ Inside q.size.toNat range := by
  induction data generalizing sector with
  | nil => exact absurd trivial outside
  | cons entry rest ih =>
      by_cases segment : SegmentInside q (storeTarget entry.iovBase) (UInt32.ofNat entry.iovLen)
          ⟨0, sector⟩
      · have onward : ¬ (Passed q (storeTarget entry.iovBase) (UInt32.ofNat entry.iovLen)
            ⟨0, sector⟩ → (UInt32.ofNat entry.iovLen).toNat = entry.iovLen →
              EachInside q (sector + UInt64.ofNat (entry.iovLen / 512)) rest) :=
          fun later => outside ⟨segment, later⟩
        simp only [Classical.not_imp] at onward
        obtain ⟨passed, whole, beyond⟩ := onward
        obtain ⟨first, returns⟩ := passed_returns passed
        obtain ⟨second, leaves⟩ := ih beyond
        refine ⟨max first second, fun fuel long touched bytes total => ?_⟩
        have returned := returns fuel (le_trans (le_max_left _ _) long) touched bytes 0
        have grew := single_grew fuel { q with touched := touched } bytes sector
          (storeTarget entry.iovBase) (UInt32.ofNat entry.iovLen)
        rw [qcowReadSectorSingle] at grew
        simp only [List.length_cons, List.cons_append, readEach, qcowReadSectorSingle]
        rw [whole] at returned
        rw [returned]
        simp only [ne_eq, not_true_eq_false, if_false]
        rw [grew.only]
        exact leaves fuel (le_trans (le_max_right _ _) long) _ _ _
      · obtain ⟨enough, leaves⟩ := loop_outside segment
        refine ⟨enough, fun fuel long touched bytes total => ?_⟩
        obtain ⟨range, member, away⟩ := leaves fuel long touched bytes 0
        refine ⟨range, ?_, away⟩
        simp only [List.length_cons, List.cons_append, readEach, qcowReadSectorSingle]
        split
        · exact member
        · split
          · exact member
          · next nr _ _ =>
              obtain ⟨more, grown, _⟩ := (each_grew fuel rest.length (rest ++ behind)
                (readSectorLoop (storeTarget entry.iovBase) (UInt32.ofNat entry.iovLen) fuel
                  { q with touched := touched } bytes 0 0 sector).disk
                (readSectorLoop (storeTarget entry.iovBase) (UInt32.ofNat entry.iovLen) fuel
                  { q with touched := touched } bytes 0 0 sector).bytes
                (sector + UInt64.ofNat (entry.iovLen / 512)) (total + nr)).more
              rw [grown]
              exact List.mem_append_left more member

/-- A segment that is mapped, ends inside the disk and lies in clusters of whole sectors that
can be read. -/
structure Readable (q : Qcow) (sector : UInt64) (entry : Iovec) : Prop where
  sectors : 9 ≤ q.clusterBits % 32
  mapped : storeTarget entry.iovBase ≠ none
  small : entry.iovLen < 2 ^ 32
  ends : (sector <<< sectorShift).toNat + entry.iovLen ≤ q.size.toNat
  clusters : ∀ offset left, sector <<< sectorShift ≤ offset →
    offset.toNat < (sector <<< sectorShift).toNat + entry.iovLen → 0 < left →
      qcowReadCluster q offset left ≠ .error

-- Behind each part the loop is where the bytes that are left begin.
theorem readable_comes {entry : Iovec} {at_ : Position} (readable : Readable q sector entry)
    (comes : Comes q (storeTarget entry.iovBase) (UInt32.ofNat entry.iovLen) ⟨0, sector⟩ at_) :
    at_.nrRead.toNat ≤ entry.iovLen ∧ (at_.nrRead.toNat < entry.iovLen →
      at_.offset.toNat = (sector <<< sectorShift).toNat + at_.nrRead.toNat) := by
  have small := readable.small
  have length : (UInt32.ofNat entry.iovLen).toNat = entry.iovLen := by
    rw [UInt32.toNat_ofNat']
    omega
  induction comes with
  | refl => exact ⟨Nat.zero_le _, fun _ => rfl⟩
  | @tail here next _ goes ih =>
      obtain ⟨counted, place⟩ := ih
      have limit := UInt64.toNat_lt q.size
      have ends := readable.ends
      unfold onwardFrom at goes
      split at goes
      · next more =>
          have ahead := UInt32.lt_iff_toNat_lt.mp more
          rw [length] at ahead
          have now := place ahead
          have left : (UInt32.ofNat entry.iovLen - here.nrRead).toNat =
              entry.iovLen - here.nrRead.toNat := by
            rw [UInt32.toNat_sub_of_le _ _ (UInt32.le_of_lt more), length]
          have serves : Serves q (storeTarget entry.iovBase)
              (UInt32.ofNat entry.iovLen - here.nrRead) here.offset :=
            ⟨UInt64.lt_iff_toNat_lt.mpr (by omega), readable.mapped,
              readable.clusters _ _ (UInt64.le_iff_toNat_le.mpr (by omega)) (by omega) (by omega)⟩
          cases onward : progress q (storeTarget entry.iovBase)
              (UInt32.ofNat entry.iovLen - here.nrRead) here.offset with
          | none => exact absurd serves (turn_stops (fun _ => 0) 0 onward).1
          | some nr =>
              obtain ⟨_, _, _, count, _⟩ := turn_goes (fun _ => 0) 0 onward
              have short := part_le (q.clusterBits % 32) here.offset
                (UInt32.ofNat entry.iovLen - here.nrRead).toNat
              have cases := part_cases (q.clusterBits % 32) here.offset
                (UInt32.ofNat entry.iovLen - here.nrRead).toNat
              have same := congrArg UInt32.toNat (count serves)
              rw [UInt32.toNat_ofNat', Nat.mod_eq_of_lt (by omega)] at same
              rw [← same] at short cases
              rw [onward] at goes
              simp only at goes
              split at goes
              · cases goes
              · cases goes
                have sum : (here.nrRead + nr).toNat = here.nrRead.toNat + nr.toNat := by
                  rw [UInt32.toNat_add]
                  omega
                refine ⟨by simp only [sum]; omega, fun unfinished => ?_⟩
                simp only [sum] at unfinished ⊢
                rcases cases with all | ⟨_, edge⟩
                · omega
                · have whole : 512 ∣ 2 ^ (q.clusterBits % 32) := pow_dvd_pow 2 readable.sectors
                  have aligned : 512 ∣ here.offset.toNat := by
                    rw [Position.offset, shifted_toNat]
                    omega
                  have parts : 512 ∣ nr.toNat := (Nat.dvd_add_right aligned).mp (whole.trans edge)
                  have fits : here.offset.toNat + nr.toNat < 2 ^ 64 := by omega
                  have moved := sector_advance here.sector nr parts fits
                  have start : (here.sector <<< sectorShift).toNat = _ := now
                  refine moved.trans ?_
                  omega
      · cases goes

def EachReadable (q : Qcow) : UInt64 → List Iovec → Prop
  | _, [] => True
  | sector, entry :: rest =>
      Readable q sector entry ∧ EachReadable q (sector + UInt64.ofNat (entry.iovLen / 512)) rest

/-- Clusters that a request does not want have no part in it. -/
theorem readable_inside (readable : EachReadable q sector data) : EachInside q sector data := by
  induction data generalizing sector with
  | nil => trivial
  | cons entry rest ih =>
      obtain ⟨first, later⟩ := readable
      refine ⟨fun at_ comes more _ _ => ?_, fun _ _ => ih later⟩
      have small := first.small
      have ends := first.ends
      have length : (UInt32.ofNat entry.iovLen).toNat = entry.iovLen := by
        rw [UInt32.toNat_ofNat']
        omega
      have ahead := UInt32.lt_iff_toNat_lt.mp more
      obtain ⟨counted, place⟩ := readable_comes first comes
      have now := place (by omega)
      rw [UInt32.toNat_sub_of_le _ _ (UInt32.le_of_lt more)]
      omega

end Segments

end VirtioDisk.QcowRead
