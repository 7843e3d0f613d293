import VirtioDisk.FlatDisk
import VirtioDisk.ReferenceReads

/-!
The device over a qcow image of either version, which disk_image__open opens read-only.
A driver that keeps to the rules sees a disk of the bytes that the tables of the file
refer to: an IN fills its buffers with them, and an OUT is answered without a byte
stored. Every well-formed request completes, whatever its chain and the split of its
data, and the image file stays as it is.
-/

namespace VirtioDisk.QcowDevice

open BlkDevice ByteStore DescriptorChain QcowCourse QcowReference RawImage ReadWrite
open ReferenceReads RingWindow Transition Virtqueue
open FlatDisk (Request FlatDevice Serving Offered Walked WellFormedRequest)
open QcowImage (Qcow)

/-- `qcow_read_sector` for a request whose data buffers the guest has mapped. -/
def qcowReadSector (fuel : Nat) : Transfer Qcow := fun q bytes sector iov iovcount =>
  let data := iov.take iovcount.toNat
  if data.all (fun entry => (storeTarget entry.iovBase).isSome) then
    QcowImage.qcowReadSector fuel q bytes sector (segments storeTarget data)
  else ⟨none, q, bytes⟩

def qcowDiskReadonlyOps (fuel : Nat) : DiskImageOperations Qcow where
  read := some (qcowReadSector fuel)
  write := none
  flush := none

/-- The bytes that are both on the virtual disk and covered by the level 1 table. -/
def capacity (image : Qcow) : Nat :=
  min image.header.size.toNat
    (image.header.l1Size.toNat * 2 ^ (image.header.l2Bits + image.header.clusterBits))

/-- The disk that the driver sees. -/
def serve (flat : FlatDevice) (turn : Turn) (req : Request) : FlatDevice :=
  match req.direction with
  | .fromDevice => flat.serve turn req
  | .toDevice =>
      { flat with
        memory := writeRange turn.guest.bytes req.status.addr.toNat [virtioBlkSOk]
        log := flat.log ++
          [.popped req.head, .status req.status.addr.toNat virtioBlkSOk,
            .usedElem req.head.toUInt32 0]
        lengths := flat.lengths ++ [0] }

def serveAll : FlatDevice → List Turn → List Request → FlatDevice
  | flat, turn :: turns, req :: reqs => serveAll (serve flat turn req) turns reqs
  | flat, _, _ => flat

structure Standing (image q : Qcow) : Prop where
  ready : ReferenceReads.Ready q
  kept : Kept (described image) q

theorem Standing.read {image q : Qcow} {fuel : Nat} {memory : Nat → UInt8} {sector : UInt64}
    {iov : List Range} (standing : Standing image q) (enough : 2 ^ 32 ≤ fuel)
    (short : Described iov) (aligned : ∀ entry ∈ iov, 512 ∣ entry.len)
    (inside : sector.toNat * 512 + total iov ≤ capacity image) :
    let moved := QcowImage.qcowReadSector fuel q memory sector iov
    moved.total = some (total iov : Int) ∧ Standing image moved.disk ∧
      moved.bytes = scatter memory iov
        (readRange (reference (described image)) (sector.toNat * 512) (total iov)) := by
  obtain ⟨ready, kept⟩ := standing
  obtain ⟨size, covered⟩ := Nat.le_min.mp inside
  have word := image.header.size.toNat_lt
  have start : (sector <<< sectorShift).toNat = sector.toNat * 512 := by
    rw [QcowRead.shifted_toNat]
    omega
  have range : Inside q (sector <<< sectorShift).toNat (total iov) := by
    have described : Inside (described image) (sector <<< sectorShift).toNat (total iov) := by
      rw [start]
      exact ⟨size, covered⟩
    exact described.kept kept
  obtain ⟨last, passed⟩ := ready.read_passes range
  have answers := each_answers q sector true 0 short enough
    (fun address outside => rfl : Confined memory memory iov) fun _ member => member
  rw [passed, Int.zero_add] at answers
  have narrow := ready.narrow
  have filled := each_fills memory 0 ready.sectors (by omega) ready.coherent short
    (SectorSplit.whole_all aligned) enough (by omega) passed
  rw [kept.reference, start] at filled
  have after := each_invariant (fun after => Standing image after)
    (fun middle offset left result after now read =>
      ⟨now.ready.reads_cluster read, now.kept.trans (read_cluster_kept read)⟩)
    fuel iov q memory sector 0 ⟨ready, kept⟩
  exact ⟨answers.1, after, filled.2⟩

section Turns
variable {dev : BlkDev Qcow} {turn : Turn} {req : Request} {found : BlkDevReq} {image : Qcow}
variable {room fuel : Nat}

theorem turn_request (serving : Serving dev) (offered : Offered dev room turn req) :
    ∃ found, Walked turn req found ∧ virtioBlkDoIo dev turn =
      virtioBlkDoIoRequest { (dev.seen turn).pop with
        reqs := put (dev.seen turn).pop.reqs req.head.toNat found } found := by
  have available : virtQueueAvailableLoad (dev.seen turn).ring (dev.seen turn).vq = true := by
    refine (available_load_iff _ _ serving.availMapped).mpr ?_
    simpa [BlkDev.seen] using offered.available
  have head : (virtQueuePop (dev.seen turn).ring (dev.seen turn).vq).1 = req.head := by
    simpa [virtQueuePop, BlkDev.seen] using offered.head
  have notDone : (dev.seen turn).ioDone = false := serving.notDone
  obtain ⟨found, walk, walked⟩ := FlatDisk.pop_request_walked (dev.seen turn).pop rfl
    (FlatDisk.available_store_desc _ _) serving.queueSize offered.wellFormed
  exact ⟨found, walked, by simp only [virtioBlkDoIo, available, notDone, and_self, if_true, head,
    walk]⟩

theorem request_operation (guest : dev.guest = turn.guest) (walked : Walked turn req found)
    (formed : WellFormedRequest turn room req) :
    virtioBlkDoIoRequest dev found =
        diskImageTransfer (dev.image.ops.operation req.direction) dev req.sector
          found.behindHeader ((found.entries : Int) - 2) found ∧
      storeTarget (found.iov (found.entries - 1)).iovBase = some req.status.addr.toNat := by
  have header := FlatDisk.mapped_base (formed.mapped req.header (by simp [Request.descs]))
  have status := FlatDisk.mapped_base (formed.mapped req.status (by simp [Request.descs]))
  constructor
  · simp only [virtioBlkDoIoRequest, walked.header, header, guest, formed.type, formed.sector]
    cases req.direction with
    | fromDevice => simp [Direction.type, diskImageRead, DiskImageOperations.operation]
    | toDevice => simp [Direction.type, virtioBlkTIn, virtioBlkTOut, diskImageWrite,
        DiskImageOperations.operation]
  · have last : found.entries - 1 = req.data.length + 1 := by rw [walked.count]; rfl
    rw [last, walked.status, status, formed.statusWritable]
    rfl

structure Open (fuel : Nat) (image : Qcow) (dev : BlkDev Qcow) : Prop where
  ops : dev.image.ops = qcowDiskReadonlyOps fuel
  serving : Serving dev
  standing : Standing image dev.disk

structure Shows (dev : BlkDev Qcow) (flat : FlatDevice) : Prop where
  memory : dev.guest.bytes = flat.memory
  log : dev.log = flat.log
  lengths : FlatDisk.usedLengths dev.log = flat.lengths
  used : ∀ id len, flat.log.getLast? = some (.usedElem id len) →
    dev.ring.used.ring ((dev.ring.used.idx - 1).toNat % dev.vq.vring.num) = ⟨id, len⟩

theorem finished {moved : Transferred Qcow} {len : Nat}
    (ops : dev.image.ops = qcowDiskReadonlyOps fuel) (serving : Serving dev)
    (standing : Standing image moved.disk)
    (target : storeTarget (found.iov (found.entries - 1)).iovBase = some req.status.addr.toNat)
    (head : found.head = req.head) :
    ∃ next, virtioBlkComplete (dev.transferred moved) found len = some next ∧
      Open fuel image next ∧
      next.guest.bytes = writeRange moved.bytes req.status.addr.toNat [virtioBlkSOk] ∧
      next.log = dev.log ++ [.status req.status.addr.toNat virtioBlkSOk,
        .usedElem req.head.toUInt32 (UInt32.ofNat len)] ∧
      next.ring.used.ring ((next.ring.used.idx - 1).toNat % next.vq.vring.num) =
        ⟨req.head.toUInt32, UInt32.ofNat len⟩ := by
  obtain ⟨next, done⟩ : ∃ next,
      virtioBlkComplete (dev.transferred moved) found len = some next := by
    rw [virtioBlkComplete, target]
    exact ⟨_, rfl⟩
  obtain ⟨image, disk, ioDone, vring, written, logged, used⟩ := FlatDisk.complete_spec target done
  rw [head] at logged used
  refine ⟨next, done, ⟨by rw [image]; exact ops, ⟨?_, ?_, ?_, ?_, ?_⟩, by rw [disk]; exact standing⟩,
    written, logged, used⟩
  · rw [image]
    exact serving.async
  · rw [image]
    exact serving.callback
  · rw [vring]
    exact serving.queueSize
  · rw [vring]
    exact serving.availMapped
  · rw [ioDone]
    exact serving.notDone

theorem transfer_reads (enough : 2 ^ 32 ≤ fuel) (standing : Standing image dev.disk)
    (guest : dev.guest = turn.guest) (walked : Walked turn req found)
    (formed : WellFormedRequest turn (capacity image) req)
    (aligned : ∀ desc ∈ req.data, 512 ∣ desc.len.toNat) (reads : req.direction = .fromDevice) :
    let moved := qcowReadSector fuel dev.disk dev.guest.bytes req.sector found.behindHeader
      ((found.entries : Int) - 2)
    moved.total = some (total req.ranges : Int) ∧ Standing image moved.disk ∧
      moved.bytes = scatter turn.guest.bytes req.ranges
        (readRange (reference (described image)) req.offset (total req.ranges)) := by
  obtain ⟨iovcount, rest, behind⟩ := FlatDisk.walked_data walked
  have known (address : Nat) : storeTarget (some ⟨address, decide (req.direction = .fromDevice)⟩) =
      some address := by simp [reads, storeTarget]
  obtain ⟨mapped, ranges⟩ := FlatDisk.data_reached formed storeTarget known
  have data : found.behindHeader.take ((found.entries : Int) - 2).toNat =
      req.data.map (iovecOf turn.guest) := by
    rw [iovcount, behind, Int.toNat_natCast, List.take_left]
  have all : (req.data.map (iovecOf turn.guest)).all
      (fun entry => (storeTarget entry.iovBase).isSome) = true := by
    rw [List.all_eq_true]
    intro entry member
    obtain ⟨base, found⟩ := mapped entry member
    simp [found]
  have short : Described req.ranges := by
    intro entry member
    obtain ⟨desc, _, rfl⟩ := List.mem_map.mp member
    exact desc.len.toNat_lt
  have whole : ∀ entry ∈ req.ranges, 512 ∣ entry.len := by
    intro entry member
    obtain ⟨desc, present, rfl⟩ := List.mem_map.mp member
    exact aligned desc present
  simp only [qcowReadSector, data, all, if_true, ranges, guest]
  exact standing.read enough short whole formed.inImage

theorem turn_serves (enough : 2 ^ 32 ≤ fuel) (opened : Open fuel image dev)
    (offered : Offered dev (capacity image) turn req)
    (aligned : req.direction = .fromDevice → ∀ desc ∈ req.data, 512 ∣ desc.len.toNat)
    {flat : FlatDevice} (bytes : flat.bytes = reference (described image))
    (log : dev.log = flat.log) (lengths : FlatDisk.usedLengths dev.log = flat.lengths) :
    ∃ next, virtioBlkDoIo dev turn = some next ∧ Open fuel image next ∧
      Shows next (serve flat turn req) := by
  obtain ⟨found, walked, taken⟩ := turn_request opened.serving offered
  generalize asks : ({ (dev.seen turn).pop with
    reqs := put (dev.seen turn).pop.reqs req.head.toNat found } : BlkDev Qcow) = asked at taken
  have guest : asked.guest = turn.guest := by rw [← asks]; rfl
  have ops : asked.image.ops = qcowDiskReadonlyOps fuel := by rw [← asks]; exact opened.ops
  have disk : asked.disk = dev.disk := by rw [← asks]; rfl
  have serving : Serving asked := by
    rw [← asks]
    exact ⟨opened.serving.async, opened.serving.callback, opened.serving.queueSize,
      opened.serving.availMapped, opened.serving.notDone⟩
  have popped : asked.log = flat.log ++ [.popped req.head] := by
    have head : (virtQueuePop (dev.seen turn).ring (dev.seen turn).vq).1 = req.head := by
      simpa [virtQueuePop, BlkDev.seen] using offered.head
    rw [← asks, ← log, ← head]
    rfl
  obtain ⟨operation, target⟩ := request_operation guest walked offered.wellFormed
  rw [operation, ops] at taken
  cases direction : req.direction with
  | fromDevice =>
      obtain ⟨total, standing, filled⟩ := transfer_reads enough (by rw [disk]; exact opened.standing)
        guest walked offered.wellFormed (aligned direction) direction
      obtain ⟨next, done, after, written, logged, used⟩ := finished ops serving standing target
        walked.head
      refine ⟨next, ?_, after, ?_, ?_, ?_, ?_⟩
      · rw [taken, direction, diskImageTransfer.eq_def]
        simp only [DiskImageOperations.operation, qcowDiskReadonlyOps, total]
        rw [if_neg (Int.not_lt.mpr (Int.natCast_nonneg _)),
          if_pos ⟨serving.async, serving.callback⟩]
        exact done
      · simp only [serve, direction, FlatDevice.serve, bytes, written, filled]
      · simp [serve, direction, FlatDevice.serve, logged, popped]
      · have reported := FlatDisk.used_lengths_served flat.log req.head req.status.addr.toNat
          virtioBlkSOk offered.wellFormed.small
        rw [← log, lengths, log] at reported
        simpa [serve, direction, FlatDevice.serve, logged, popped] using reported
      · intro id len last
        rw [used]
        simpa [serve, direction, FlatDevice.serve] using last
  | toDevice =>
      have kept : Standing image asked.disk := by
        rw [disk]
        exact opened.standing
      obtain ⟨next, done, after, written, logged, used⟩ :=
        @finished asked req found image fuel ⟨none, asked.disk, asked.guest.bytes⟩ 0 ops serving
          kept target walked.head
      refine ⟨next, ?_, after, ?_, ?_, ?_, ?_⟩
      · rw [taken, direction]
        simp only [diskImageTransfer, DiskImageOperations.operation, qcowDiskReadonlyOps]
        rw [if_pos ⟨serving.async, serving.callback⟩]
        exact done
      · simp [serve, direction, written, guest]
      · simp [serve, direction, logged, popped]
      · have reported := FlatDisk.used_lengths_served flat.log req.head req.status.addr.toNat
          virtioBlkSOk (show 0 < 2 ^ 32 by decide)
        rw [← log, lengths, log] at reported
        simpa [serve, direction, logged, popped] using reported
      · intro id len last
        rw [used]
        simpa [serve, direction] using last

end Turns

/-- Every turn of the run finds a well-formed request, an IN for whole sectors. -/
def EachOffered (image : Qcow) : BlkDev Qcow → List Turn → List Request → Prop
  | _, [], [] => True
  | dev, turn :: turns, req :: reqs =>
      Offered dev (capacity image) turn req ∧
        (req.direction = .fromDevice → ∀ desc ∈ req.data, 512 ∣ desc.len.toNat) ∧
        ∀ next, virtioBlkDoIo dev turn = some next → EachOffered image next turns reqs
  | _, _, _ => False

theorem serve_bytes (flat : FlatDevice) (turn : Turn) (req : Request) :
    (serve flat turn req).bytes = flat.bytes := by
  cases direction : req.direction <;> simp [serve, direction, FlatDevice.serve]

theorem run_serves {image : Qcow} {fuel : Nat} {dev : BlkDev Qcow} {turns : List Turn}
    {reqs : List Request} {flat : FlatDevice} (enough : 2 ^ 32 ≤ fuel)
    (opened : Open fuel image dev) (now : Shows dev flat)
    (bytes : flat.bytes = reference (described image)) (offered : EachOffered image dev turns reqs) :
    ∃ final, run virtioBlkDoIo dev turns = some final ∧ Open fuel image final ∧
      Shows final (serveAll flat turns reqs) := by
  induction turns generalizing dev reqs flat with
  | nil => cases reqs <;> exact ⟨dev, rfl, opened, now⟩
  | cons turn turns ih =>
      cases reqs with
      | nil => exact absurd offered id
      | cons req reqs =>
          obtain ⟨here, aligned, later⟩ := offered
          obtain ⟨next, taken, after, shown⟩ := turn_serves enough opened here aligned bytes now.log
            now.lengths
          obtain ⟨final, ran, last, shows_⟩ := ih after shown
            ((serve_bytes flat turn req).trans bytes) (later next taken)
          exact ⟨final, by simpa [run, taken] using ran, last, shows_⟩

def sevensDevice : BlkDev Qcow where
  image := ⟨qcowDiskReadonlyOps (2 ^ 32), false, true, fun disk => (0, disk), none⟩
  disk := (QcowImage.qcowReadL1Table sevensImage).2
  guest := oneRead.guest
  ring := blankRing
  vq := activatedQueue 256
  reqs := fun _ => ⟨noIov, 0, 0, 0⟩
  ioDone := false
  signals := 0
  log := []

end VirtioDisk.QcowDevice
