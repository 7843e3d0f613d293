import VirtioDisk.FlatDisk
import VirtioDisk.QcowRead

/-!
What VIRTIO_BLK_S_OK promises. The status byte is decided by the sign of a length
that passes through disk_image__write; what is stored, by the operations that were
installed when the image was opened. A service is a turn of the request loop with
the request it finds and the answers of the host while it lasts.
-/

namespace VirtioDisk.ReportedWrites

open BlkDevice ByteStore DescriptorChain FlatDisk QcowRead RawImage ReadWrite Transition
open Virtqueue

/-- An image as it was opened. `answered` has the host give these answers next. -/
structure Backend (Disk : Type) where
  ops : DiskImageOperations Disk
  capacity : Disk → Nat
  answered : Disk → List HostAnswer → Disk

/-- What disk_image__open installs: for a block device or a regular file, for a
read-only file that can be mapped or cannot, and for any qcow image. -/
inductive Kind where
  | regular
  | mapped
  | fallback
  | qcow (fuel : Nat)

def Kind.Disk : Kind → Type
  | .regular | .fallback => OpenFile
  | .mapped => Mapping
  | .qcow _ => Qcow

def fileBackend (ops : DiskImageOperations OpenFile) : Backend OpenFile where
  ops := ops
  capacity disk := disk.file.size
  answered disk answers := { disk with answers := answers }

-- A copy does not call the host.
def mappedBackend : Backend Mapping := ⟨roOps, Mapping.size, fun priv _ => priv⟩

def qcowBackend (fuel : Nat) : Backend Qcow :=
  ⟨qcowDiskReadonlyOps fuel, fun q => q.size.toNat, fun q _ => q⟩

def Kind.backend : (kind : Kind) → Backend kind.Disk
  | .regular => fileBackend rawImageRegularOps
  | .mapped => mappedBackend
  | .fallback => fileBackend roOpsNowrite
  | .qcow fuel => qcowBackend fuel

structure Service where
  turn : Turn
  req : Request
  answers : List HostAnswer

def Request.Holds (req : Request) (offset : Nat) : Prop :=
  req.offset ≤ offset ∧ offset < req.offset + total req.ranges

def Request.Overlaps (first second : Request) : Prop :=
  ∃ offset, Request.Holds first offset ∧ Request.Holds second offset

section Statement
variable {Disk : Type} (backend : Backend Disk)

def serve (dev : BlkDev Disk) (service : Service) : Option (BlkDev Disk) :=
  virtioBlkDoIo { dev with disk := backend.answered dev.disk service.answers } service.turn

/-- A run in which every service is one that is admitted in the state it finds. -/
def Each (admitted : BlkDev Disk → Service → Prop) : BlkDev Disk → List Service → Prop
  | _, [] => True
  | dev, service :: rest => admitted dev service ∧
      ∀ next, serve backend dev service = some next → Each admitted next rest

def Reported (dev next : BlkDev Disk) (value : UInt8) : Prop :=
  ∃ address, .status address value ∈ next.log.drop dev.log.length

/-- The data of `out` is what `read` finds of it, and hands to the driver. -/
def Returned (out read : Service) (next : BlkDev Disk) : Prop :=
  ∃ content : Nat → UInt8,
    readRange content out.req.offset (total out.req.ranges) =
      gather out.turn.guest.bytes out.req.ranges ∧
    next.guest.bytes = writeRange
      (scatter read.turn.guest.bytes read.req.ranges
        (readRange content read.req.offset (total read.req.ranges)))
      read.req.status.addr.toNat [virtioBlkSOk]

/-- Every OUT is completed, on an image that cannot write with an error, and the
data of one that is reported as done is what a later IN returns. -/
structure Kept (start : BlkDev Disk) (services : List Service) : Prop where
  completed : ∀ before out behind dev next, services = before ++ out :: behind →
    run (serve backend) start before = some dev → serve backend dev out = some next →
    out.req.direction = .toDevice →
    (Reported dev next virtioBlkSOk ∧ backend.ops.write ≠ none) ∨ Reported dev next virtioBlkSIoerr
  returned : ∀ before out between read behind dev stored later next,
    services = before ++ out :: between ++ read :: behind →
    run (serve backend) start before = some dev → serve backend dev out = some stored →
    run (serve backend) stored between = some later → serve backend later read = some next →
    out.req.direction = .toDevice → read.req.direction = .fromDevice →
    (∀ service ∈ between, service.req.direction = .toDevice →
      ¬ Request.Overlaps service.req out.req) →
    Reported dev stored virtioBlkSOk → Reported later next virtioBlkSOk → Returned out read next

/-- The host does not break off a read that it has begun. -/
def Unbroken : List HostAnswer → Prop
  | .again :: rest => Unbroken rest
  | .fails :: _ => True
  | .moves 0 :: _ => True
  | answers => MovesOn answers

/-- A write goes to an image that can write and is not refused. A read may be
refused, not broken off. -/
def Storable (service : Service) : Prop :=
  match service.req.direction with
  | .toDevice => backend.ops.write ≠ none ∧ MovesOn service.answers
  | .fromDevice => backend.ops.write ≠ none → Unbroken service.answers

/-- What holds of an image from when it is opened. -/
def Kind.Opened : (kind : Kind) → kind.Disk → Prop
  | .regular, disk => disk.file.size ≤ fileMax
  | .mapped, priv => priv.size ≤ fileMax
  | .fallback, _ | .qcow _, _ => True

end Statement

/-! An image that stores what it reports: what its two operations have to come to. -/

section Contract
variable {Disk : Type}

/-- What is handed to an operation, and what it comes back with. -/
structure Handed (disk : Disk) (capacity : Nat) (target : Option HostPtr → Option Nat)
    (sector : UInt64) (data : List Iovec) (status : Iovec) : Prop where
  status : 0 < status.iovLen
  mapped : Mapped target data
  inside : sector.toNat * 512 + iovBytes data ≤ capacity

structure Faithful (backend : Backend Disk) (content : Disk → Nat → UInt8)
    (sound : Disk → Prop) : Prop where
  reads : ∃ op, backend.ops.read = some op ∧
    ∀ {disk answers bytes sector data status rest after count}, sound disk → Unbroken answers →
      Handed disk (backend.capacity disk) storeTarget sector data status →
      op (backend.answered disk answers) bytes sector (data ++ status :: rest) data.length = after →
      after.total = some count →
      sound after.disk ∧ content after.disk = content disk ∧
        (count < 0 ∨ count = iovBytes data ∧ after.bytes = scatter bytes (segments storeTarget data)
          (readRange (content disk) (sector.toNat * 512) (iovBytes data)))
  writes : ∃ op, backend.ops.write = some op ∧
    ∀ {disk answers bytes sector data status rest after count}, sound disk → MovesOn answers →
      Handed disk (backend.capacity disk) loadTarget sector data status →
      op (backend.answered disk answers) bytes sector (data ++ status :: rest) data.length = after →
      after.total = some count →
      sound after.disk ∧ count = iovBytes data ∧
        content after.disk = writeRange (content disk) (sector.toNat * 512)
          (gather bytes (segments loadTarget data))

/-- An image under service. -/
structure Open (backend : Backend Disk) (sound : Disk → Prop) (dev : BlkDev Disk) : Prop where
  ops : dev.image.ops = backend.ops
  serving : Serving dev
  sound : sound dev.disk

/-- A service comes to what its direction asks for. -/
structure Served (content : Disk → Nat → UInt8) (dev next : BlkDev Disk) (service : Service) :
    Prop where
  out : service.req.direction = .toDevice → Reported dev next virtioBlkSOk ∧
    content next.disk = writeRange (content dev.disk) service.req.offset
      (gather service.turn.guest.bytes service.req.ranges)
  kept : service.req.direction = .fromDevice → content next.disk = content dev.disk
  filled : service.req.direction = .fromDevice → Reported dev next virtioBlkSOk →
    next.guest.bytes = writeRange
      (scatter service.turn.guest.bytes service.req.ranges
        (readRange (content dev.disk) service.req.offset (total service.req.ranges)))
      service.req.status.addr.toNat [virtioBlkSOk]

variable {backend : Backend Disk} {content : Disk → Nat → UInt8} {sound : Disk → Prop}
variable {dev next : BlkDev Disk} {service : Service}

theorem completed_open {found : BlkDevReq} {status len : Nat} (ready : Open backend sound dev)
    (kept : sound dev.disk)
    (target : storeTarget (found.iov (found.entries - 1)).iovBase = some status)
    (done : virtioBlkComplete dev found len = some next) : Open backend sound next := by
  obtain ⟨image, disk, ioDone, vring, _⟩ := complete_spec target done
  obtain ⟨ops, serving, _⟩ := ready
  refine ⟨by rw [image]; exact ops, ⟨?_, ?_, ?_, ?_, ?_⟩, by rw [disk]; exact kept⟩
  · rw [image]
    exact serving.async
  · rw [image]
    exact serving.callback
  · rw [vring]
    exact serving.queueSize
  · rw [vring]
    exact serving.availMapped
  · rw [ioDone]
    exact serving.notDone

/-- The device after the walk, as its image is asked. -/
structure Asked (backend : Backend Disk) (dev asked : BlkDev Disk) (service : Service) :
    Prop where
  image : asked.image = dev.image
  disk : asked.disk = backend.answered dev.disk service.answers
  bytes : asked.guest.bytes = service.turn.guest.bytes
  log : ∃ head, asked.log = dev.log ++ [.popped head]
  serving : Serving asked

/-- The service is one operation of the image, with the status behind the data. -/
theorem service_transfers (serving : Serving dev) {capacity : Nat}
    (offered : Offered dev capacity service.turn service.req)
    (taken : serve backend dev service = some next) :
    ∃ asked found rest, Asked backend dev asked service ∧
      diskImageTransfer (asked.image.ops.operation service.req.direction) asked service.req.sector
          (service.req.data.map (iovecOf service.turn.guest) ++
            iovecOf service.turn.guest service.req.status :: rest)
          (service.req.data.map (iovecOf service.turn.guest)).length found = some next ∧
      storeTarget (found.iov (found.entries - 1)).iovBase = some service.req.status.addr.toNat := by
  have answered : Serving { dev with disk := backend.answered dev.disk service.answers } :=
    ⟨serving.async, serving.callback, serving.queueSize, serving.availMapped, serving.notDone⟩
  obtain ⟨found, walked, done⟩ := turn_transfers answered
    ⟨offered.available, offered.head, offered.wellFormed⟩ taken
  obtain ⟨transfer, target⟩ := request_transfers rfl walked offered.wellFormed done
  obtain ⟨iovcount, rest, behind⟩ := walked_data walked
  rw [behind, iovcount] at transfer
  refine ⟨_, found, rest, ?_, transfer, target⟩
  refine ⟨rfl, rfl, rfl, ⟨_, rfl⟩, ?_⟩
  exact ⟨serving.async, serving.callback, serving.queueSize, serving.availMapped, serving.notDone⟩

theorem handed_of_offered {capacity : Nat} (offered : Offered dev capacity service.turn service.req)
    (target : Option HostPtr → Option Nat)
    (known : ∀ address, target (some ⟨address, decide (service.req.direction = .fromDevice)⟩) =
      some address) (disk : Disk) :
    Handed disk capacity target service.req.sector
      (service.req.data.map (iovecOf service.turn.guest))
      (iovecOf service.turn.guest service.req.status) := by
  have formed := offered.wellFormed
  constructor
  · simp [iovecOf, formed.statusByte]
  · exact (data_reached formed target known).1
  · rw [iov_bytes_ranges]
    exact formed.inImage

/-- A completed operation: what virtio_blk_complete leaves of the device. -/
theorem completed_reports {asked : BlkDev Disk} {found : BlkDevReq} {status len : Nat}
    (ready : Open backend sound dev) (asks : Asked backend dev asked service)
    {moved : Transferred Disk} (kept : sound moved.disk)
    (target : storeTarget (found.iov (found.entries - 1)).iovBase = some status)
    (done : virtioBlkComplete (asked.transferred moved) found len = some next) :
    Open backend sound next ∧ Reported dev next virtioBlkSOk ∧ next.disk = moved.disk ∧
      next.guest.bytes = writeRange moved.bytes status [virtioBlkSOk] := by
  have opened : Open backend sound (asked.transferred moved) := by
    refine ⟨?_, ⟨asks.serving.async, asks.serving.callback, asks.serving.queueSize,
      asks.serving.availMapped, asks.serving.notDone⟩, kept⟩
    show asked.image.ops = backend.ops
    rw [asks.image, ready.ops]
  obtain ⟨_, disk, _, _, written, logged, _⟩ := complete_spec target done
  obtain ⟨head, before⟩ := asks.log
  refine ⟨completed_open opened kept target done, ⟨status, ?_⟩, disk, written⟩
  rw [logged, show (asked.transferred moved).log = asked.log from rfl, before]
  simp

/-- A refused operation leaves the request without a reply. -/
theorem refused_unreported {asked : BlkDev Disk} (ready : Open backend sound dev)
    (asks : Asked backend dev asked service) {moved : Transferred Disk} (kept : sound moved.disk) :
    Open backend sound (asked.transferred moved) ∧
      ¬ Reported dev (asked.transferred moved) virtioBlkSOk := by
  constructor
  · refine ⟨?_, ⟨asks.serving.async, asks.serving.callback, asks.serving.queueSize,
      asks.serving.availMapped, asks.serving.notDone⟩, kept⟩
    show asked.image.ops = backend.ops
    rw [asks.image, ready.ops]
  · obtain ⟨head, before⟩ := asks.log
    rintro ⟨address, member⟩
    rw [show (asked.transferred moved).log = asked.log from rfl, before] at member
    simp at member

theorem service_serves (faithful : Faithful backend content sound)
    (ready : Open backend sound dev)
    (offered : Offered dev (backend.capacity dev.disk) service.turn service.req)
    (storable : Storable backend service) (taken : serve backend dev service = some next) :
    Open backend sound next ∧ Served content dev next service := by
  obtain ⟨asked, found, rest, asks, transfer, target⟩ :=
    service_transfers ready.serving offered taken
  have sum := iov_bytes_ranges service.turn.guest service.req.data
  obtain ⟨write, isWrite, writes⟩ := faithful.writes
  rw [asks.image, ready.ops] at transfer
  unfold Storable at storable
  cases direction : service.req.direction with
  | toDevice =>
      simp only [direction] at storable
      have known : ∀ address, loadTarget (some ⟨address, decide (service.req.direction =
          .fromDevice)⟩) = some address := fun address => rfl
      rw [direction, DiskImageOperations.operation, isWrite] at transfer
      obtain ⟨count, returned, completes, _⟩ := transfer_spec asks.serving transfer
      rw [asks.disk] at returned completes
      obtain ⟨kept, counted, stored⟩ := writes ready.sound storable.2
        (handed_of_offered offered loadTarget known dev.disk) rfl returned
      rw [counted] at completes
      obtain ⟨opened, reported, disk, _⟩ := completed_reports ready asks kept target
        (completes (Int.natCast_nonneg _))
      refine ⟨opened, ⟨fun _ => ⟨reported, ?_⟩, ?_, ?_⟩⟩
      · rw [disk, stored, (data_reached offered.wellFormed loadTarget known).2, asks.bytes]
        rfl
      · simp [direction]
      · simp [direction]
  | fromDevice =>
      simp only [direction] at storable
      have known : ∀ address, storeTarget (some ⟨address, decide (service.req.direction =
          .fromDevice)⟩) = some address := fun address => by simp [direction, storeTarget]
      obtain ⟨read, isRead, reads⟩ := faithful.reads
      rw [direction, DiskImageOperations.operation, isRead] at transfer
      obtain ⟨count, returned, completes, refused⟩ := transfer_spec asks.serving transfer
      rw [asks.disk] at returned completes refused
      obtain ⟨kept, same, result⟩ := reads ready.sound (storable (by simp [isWrite]))
        (handed_of_offered offered storeTarget known dev.disk) rfl returned
      rcases result with negative | ⟨counted, filled⟩
      · obtain ⟨opened, unreported⟩ := refused_unreported ready asks kept
        rw [refused negative]
        exact ⟨opened, ⟨by simp [direction], fun _ => same,
          fun _ reported => absurd reported unreported⟩⟩
      · rw [counted] at completes
        obtain ⟨opened, _, disk, bytes⟩ := completed_reports ready asks kept target
          (completes (Int.natCast_nonneg _))
        refine ⟨opened, ⟨by simp [direction], fun _ => by rw [disk, same], fun _ _ => ?_⟩⟩
        rw [bytes, filled, (data_reached offered.wellFormed storeTarget known).2, asks.bytes, sum]
        rfl

/-- Every service finds a well-formed request, inside the image, that is storable. -/
def Admitted (backend : Backend Disk) (dev : BlkDev Disk) (service : Service) : Prop :=
  Offered dev (backend.capacity dev.disk) service.turn service.req ∧ Storable backend service

theorem each_run {admitted : BlkDev Disk → Service → Prop} {start : BlkDev Disk}
    {before rest : List Service} (each : Each backend admitted start (before ++ rest))
    (ran : run (serve backend) start before = some dev) : Each backend admitted dev rest := by
  induction before generalizing start with
  | nil =>
      cases ran
      exact each
  | cons service behind ih =>
      obtain ⟨middle, taken, tail⟩ := run_cons ran
      exact ih (each.2 middle taken) tail

theorem run_open (faithful : Faithful backend content sound) {start : BlkDev Disk}
    {before rest : List Service} (ready : Open backend sound start)
    (each : Each backend (Admitted backend) start (before ++ rest))
    (ran : run (serve backend) start before = some dev) : Open backend sound dev := by
  induction before generalizing start with
  | nil =>
      cases ran
      exact ready
  | cons service behind ih =>
      obtain ⟨middle, taken, tail⟩ := run_cons ran
      obtain ⟨⟨offered, storable⟩, later⟩ := each
      obtain ⟨opened, _⟩ := service_serves faithful ready offered storable taken
      exact ih opened (later middle taken) tail

theorem readRange_writeRange_apart (store : Nat → UInt8) {first second : Request}
    (apart : ¬ Request.Overlaps first second) {items : List UInt8}
    (length : items.length = total first.ranges) :
    readRange (writeRange store first.offset items) second.offset (total second.ranges) =
      readRange store second.offset (total second.ranges) := by
  apply List.ext_getElem (by simp)
  intro i inside _
  rw [length_readRange] at inside
  rw [getElem_readRange, getElem_readRange]
  apply writeRange_outside
  by_contra within
  apply apart
  exact ⟨second.offset + i, by unfold Request.Holds; omega, by unfold Request.Holds; omega⟩

/-- What was stored stays until an OUT overlaps it. -/
theorem stored_stays (faithful : Faithful backend content sound) {out : Request}
    {between rest : List Service} {items : List UInt8} {later : BlkDev Disk}
    (ready : Open backend sound dev)
    (each : Each backend (Admitted backend) dev (between ++ rest))
    (apart : ∀ service ∈ between, service.req.direction = .toDevice →
      ¬ Request.Overlaps service.req out)
    (stored : readRange (content dev.disk) out.offset (total out.ranges) = items)
    (ran : run (serve backend) dev between = some later) :
    readRange (content later.disk) out.offset (total out.ranges) = items := by
  induction between generalizing dev with
  | nil =>
      cases ran
      exact stored
  | cons service behind ih =>
      obtain ⟨middle, taken, tail⟩ := run_cons ran
      obtain ⟨⟨offered, storable⟩, admitted⟩ := each
      obtain ⟨opened, served⟩ := service_serves faithful ready offered storable taken
      obtain ⟨first, others⟩ := List.forall_mem_cons.mp apart
      apply ih opened (admitted middle taken) others _ tail
      cases direction : service.req.direction with
      | fromDevice =>
          rw [served.kept direction]
          exact stored
      | toDevice =>
          rw [(served.out direction).2, readRange_writeRange_apart _ (first direction) (by simp)]
          exact stored

theorem faithful_keeps (faithful : Faithful backend content sound) {start : BlkDev Disk}
    {services : List Service} (ready : Open backend sound start)
    (each : Each backend (Admitted backend) start services) : Kept backend start services := by
  constructor
  case completed =>
    intro before out behind dev next split ran taken direction
    subst split
    obtain ⟨⟨offered, storable⟩, _⟩ := each_run each ran
    have opened := run_open faithful ready each ran
    obtain ⟨_, served⟩ := service_serves faithful opened offered storable taken
    unfold Storable at storable
    simp only [direction] at storable
    exact Or.inl ⟨(served.out direction).1, storable.1⟩
  case returned =>
    intro before out between read behind dev stored later next split ran taken passed answered
      isOut isIn apart _ reported
    subst split
    rw [List.append_assoc] at each
    obtain ⟨⟨offered, storable⟩, admitted⟩ := each_run each ran
    have opened := run_open faithful ready each ran
    obtain ⟨written, served⟩ := service_serves faithful opened offered storable taken
    have since := admitted stored taken
    have data : readRange (content stored.disk) out.req.offset (total out.req.ranges) =
        gather out.turn.guest.bytes out.req.ranges := by
      rw [(served.out isOut).2]
      simpa using readRange_writeRange (content dev.disk) out.req.offset
        (gather out.turn.guest.bytes out.req.ranges)
    have stays := stored_stays faithful written since apart data passed
    obtain ⟨⟨asked, unbroken⟩, _⟩ := each_run since passed
    have reopened := run_open faithful written since passed
    obtain ⟨_, found⟩ := service_serves faithful reopened asked unbroken answered
    exact ⟨content later.disk, stays, found.filled isIn reported⟩

/-- Where nothing can be written, storable services write nothing. -/
theorem unwritable_keeps {start : BlkDev Disk} {services : List Service}
    (unwritable : backend.ops.write = none)
    (each : Each backend (Admitted backend) start services) : Kept backend start services := by
  have noOut {dev : BlkDev Disk} {before rest : List Service} {out : Service}
      (split : services = before ++ out :: rest) (ran : run (serve backend) start before = some dev)
      (direction : out.req.direction = .toDevice) : False := by
    subst split
    obtain ⟨⟨_, storable⟩, _⟩ := each_run each ran
    unfold Storable at storable
    simp only [direction] at storable
    exact storable.1 unwritable
  constructor
  case completed =>
    intro before out behind dev next split ran taken direction
    exact (noOut split ran direction).elim
  case returned =>
    intro before out between read behind dev stored later next split ran taken passed answered
      isOut isIn apart _ reported
    rw [List.append_assoc] at split
    exact (noOut split ran isOut).elim

end Contract

/-! The images that store what they report: a file behind its descriptor, and the
private mapping of one. -/

section Images
variable {disk : OpenFile} {bytes : Nat → UInt8} {data rest : List Iovec} {status : Iovec}

theorem preadv_starts (offset : Nat) (answers : List HostAnswer) :
    preadvInFull { disk with answers := answers } bytes (data ++ status :: rest) data.length
        offset =
      inFull preadv (fun total => if total > 0 then total else -1) answers
        ⟨data ++ status :: rest, data.length, 0, iovBytes data, offset⟩ disk.file bytes
        disk.touched := by
  simp only [preadvInFull, startInFull, Int.not_ofNat_neg, if_false, Int.toNat_natCast,
    get_iov_size_append]

/-- A read that is not broken off is refused or fills all its segments. -/
theorem preadv_unbroken {offset : Nat} {answers : List HostAnswer} {after : Transferred OpenFile}
    {count : Int} (nonempty : 0 < status.iovLen) (unbroken : Unbroken answers)
    (mapped : Mapped storeTarget data) (inside : offset + iovBytes data ≤ disk.file.size)
    (ended : preadvInFull { disk with answers := answers } bytes (data ++ status :: rest)
      data.length offset = after) (returned : after.total = some count) :
    after.disk.file = disk.file ∧ (count < 0 ∨ count = iovBytes data ∧
      after.bytes = scatter bytes (segments storeTarget data)
        (readRange disk.file.bytes offset (iovBytes data))) := by
  have whole {answers : List HostAnswer} (host : MovesOn answers)
      (ended : preadvInFull { disk with answers := answers } bytes (data ++ status :: rest)
        data.length offset = after) :
      after.disk.file = disk.file ∧ (count < 0 ∨ count = iovBytes data ∧
        after.bytes = scatter bytes (segments storeTarget data)
          (readRange disk.file.bytes offset (iovBytes data))) := by
    generalize asks : ({ disk with answers := answers } : OpenFile) = asked at ended
    have file : asked.file = disk.file := by rw [← asks]
    have moves : MovesOn asked.answers := by rw [← asks]; exact host
    rw [← file] at inside ⊢
    obtain ⟨moved, _, kept, filled⟩ :=
      preadv_in_full_spec nonempty moves mapped inside ended returned
    exact ⟨kept, Or.inr ⟨moved, filled⟩⟩
  have forward : ¬ ((offset : Int) < 0) := Int.not_ofNat_neg offset
  by_cases finished : iovBytes data = 0
  · rw [preadv_starts] at ended
    unfold inFull at ended
    simp only [finished, if_true] at ended
    subst ended
    cases returned
    exact ⟨rfl, Or.inr ⟨by simp [finished], by simp [finished, readRange]⟩⟩
  · induction answers with
    | nil => exact whole unbroken ended
    | cons answer later ih =>
        cases answer with
        | again =>
            rw [preadv_starts, inFull, if_neg finished, ← preadv_starts] at ended
            exact ih unbroken ended
        | fails =>
            rw [preadv_starts, inFull, if_neg finished] at ended
            subst ended
            cases returned
            exact ⟨rfl, Or.inl (by simp)⟩
        | moves most =>
            cases most with
            | succ more => exact whole unbroken ended
            | zero =>
                have stuck : (preadv disk.file bytes ((data ++ status :: rest).take
                    (data.length : Int).toNat) (offset : Int).toNat 0).nr = 0 := by simp [preadv]
                rw [preadv_starts, inFull, if_neg finished] at ended
                simp only [forward, if_false, stuck, if_true] at ended
                subst ended
                cases returned
                exact ⟨rfl, Or.inl (by simp)⟩

theorem regular_faithful : Faithful (fileBackend rawImageRegularOps) (fun disk => disk.file.bytes)
    (fun disk => disk.file.size ≤ fileMax) where
  reads := by
    refine ⟨_, rfl, ?_⟩
    intro disk answers bytes sector data status rest after count sound unbroken handed ended
      returned
    have fits : sector.toNat * 512 ≤ fileMax :=
      Nat.le_trans (Nat.le_add_right _ _) (Nat.le_trans handed.inside sound)
    rw [rawImageReadSync, sector_offset _ fits] at ended
    obtain ⟨file, result⟩ :=
      preadv_unbroken handed.status unbroken handed.mapped handed.inside ended returned
    exact ⟨by rw [file]; exact sound, by rw [file], result⟩
  writes := by
    refine ⟨_, rfl, ?_⟩
    intro disk answers bytes sector data status rest after count sound host handed ended returned
    have fits : sector.toNat * 512 ≤ fileMax :=
      Nat.le_trans (Nat.le_add_right _ _) (Nat.le_trans handed.inside sound)
    rw [rawImageWriteSync, sector_offset _ fits] at ended
    generalize asks : (fileBackend rawImageRegularOps).answered disk answers = asked at ended
    have file : asked.file = disk.file := by rw [← asks]; rfl
    have moves : MovesOn asked.answers := by rw [← asks]; exact host
    have inside : sector.toNat * 512 + iovBytes data ≤ asked.file.size := by
      rw [file]
      exact handed.inside
    rw [← file] at sound ⊢
    obtain ⟨moved, _, _, size, stored⟩ :=
      pwritev_in_full_spec handed.status moves handed.mapped inside sound ended returned
    exact ⟨Nat.le_trans (Nat.le_of_eq size) sound, moved, stored⟩

section Copies

theorem offset_advances {offset : UInt64} {len more : Nat}
    (fits : offset.toNat + (len + more) ≤ fileMax) :
    (offset + UInt64.ofNat len).toNat = offset.toNat + len := by
  unfold fileMax at fits
  simp only [UInt64.toNat_add, UInt64.toNat_ofNat']
  omega

theorem copied_out (priv : Mapping) (bytes : Nat → UInt8) (at_ : Nat) {entry : Iovec} {base : Nat}
    (reached : storeTarget entry.iovBase = some base) :
    ∃ touched, (if entry.iovLen = 0 then some (priv, bytes) else memcpyOut priv bytes at_ entry) =
      some ({ priv with touched := touched },
        writeRange bytes base (readRange priv.bytes at_ entry.iovLen)) := by
  by_cases empty : entry.iovLen = 0
  · exact ⟨priv.touched, by simp [empty, readRange]⟩
  · exact ⟨_, by simp only [empty, if_false, memcpyOut, reached]; rfl⟩

theorem copied_in (priv : Mapping) (bytes : Nat → UInt8) (at_ : Nat) {entry : Iovec} {base : Nat}
    (reached : loadTarget entry.iovBase = some base) :
    ∃ touched, (if entry.iovLen = 0 then some (priv, bytes) else memcpyIn priv bytes at_ entry) =
      some ({ priv with
        bytes := writeRange priv.bytes at_ (readRange bytes base entry.iovLen)
        touched := touched }, bytes) := by
  by_cases empty : entry.iovLen = 0
  · exact ⟨priv.touched, by simp [empty, readRange]⟩
  · exact ⟨_, by simp only [empty, if_false, memcpyIn, reached]; rfl⟩

theorem copy_out_spec (rest : List Iovec) (priv : Mapping) (bytes : Nat → UInt8) (offset : UInt64)
    (sum : Int) (mapped : Mapped storeTarget data) (fits : offset.toNat + iovBytes data ≤ fileMax) :
    ∃ touched, copyEach memcpyOut data.length (data ++ rest) priv bytes offset sum =
      ⟨some (sum + iovBytes data), { priv with touched := touched },
        scatter bytes (segments storeTarget data)
          (readRange priv.bytes offset.toNat (iovBytes data))⟩ := by
  induction data generalizing priv bytes offset sum with
  | nil => exact ⟨priv.touched, by simp [copyEach, iovBytes, segments, scatter]⟩
  | cons entry behind ih =>
      obtain ⟨base, reached⟩ := mapped entry (by simp)
      have later : Mapped storeTarget behind :=
        fun e member => mapped e (List.mem_cons_of_mem _ member)
      have onward := offset_advances fits
      have inside : (offset + UInt64.ofNat entry.iovLen).toNat + iovBytes behind ≤ fileMax := by
        rw [onward, Nat.add_assoc]
        exact fits
      obtain ⟨touched, copied⟩ := copied_out priv bytes offset.toNat reached
      obtain ⟨final, copies⟩ := ih { priv with touched := touched }
        (writeRange bytes base (readRange priv.bytes offset.toNat entry.iovLen))
        (offset + UInt64.ofNat entry.iovLen) (sum + entry.iovLen) later inside
      refine ⟨final, ?_⟩
      simp only [List.length_cons, List.cons_append, copyEach, copied, copies, segments, reached,
        iovBytes, scatter, readRange_take _ _ _ _ (Nat.le_add_right _ _),
        readRange_drop _ _ _ _ (Nat.le_add_right _ _), Nat.add_sub_cancel_left, onward,
        Int.natCast_add, Int.add_assoc]

theorem copy_in_spec (rest : List Iovec) (priv : Mapping) (bytes : Nat → UInt8) (offset : UInt64)
    (sum : Int) (mapped : Mapped loadTarget data) (fits : offset.toNat + iovBytes data ≤ fileMax) :
    ∃ touched, copyEach memcpyIn data.length (data ++ rest) priv bytes offset sum =
      ⟨some (sum + iovBytes data), { priv with
        bytes := writeRange priv.bytes offset.toNat (gather bytes (segments loadTarget data))
        touched := touched }, bytes⟩ := by
  induction data generalizing priv offset sum with
  | nil => exact ⟨priv.touched, by simp [copyEach, iovBytes, segments, gather]⟩
  | cons entry behind ih =>
      obtain ⟨base, reached⟩ := mapped entry (by simp)
      have later : Mapped loadTarget behind :=
        fun e member => mapped e (List.mem_cons_of_mem _ member)
      have onward := offset_advances fits
      have inside : (offset + UInt64.ofNat entry.iovLen).toNat + iovBytes behind ≤ fileMax := by
        rw [onward, Nat.add_assoc]
        exact fits
      obtain ⟨touched, copied⟩ := copied_in priv bytes offset.toNat reached
      obtain ⟨final, copies⟩ := ih
        { priv with
          bytes := writeRange priv.bytes offset.toNat (readRange bytes base entry.iovLen)
          touched := touched }
        (offset + UInt64.ofNat entry.iovLen) (sum + entry.iovLen) later inside
      refine ⟨final, ?_⟩
      simp only [List.length_cons, List.cons_append, copyEach, copied, copies, segments, reached,
        iovBytes, gather, writeRange_append, length_readRange, onward, Int.natCast_add,
        Int.add_assoc]

theorem mapped_faithful :
    Faithful mappedBackend Mapping.bytes (fun priv => priv.size ≤ fileMax) where
  reads := by
    refine ⟨_, rfl, ?_⟩
    intro priv answers bytes sector data status rest after count sound _ handed ended returned
    have fits : sector.toNat * 512 + iovBytes data ≤ fileMax := Nat.le_trans handed.inside sound
    have start := sector_bytes sector (Nat.le_trans (Nat.le_add_right _ _) fits)
    obtain ⟨touched, copies⟩ := copy_out_spec (status :: rest) priv bytes (sector <<< sectorShift) 0
      handed.mapped (by rw [start]; exact fits)
    have result : rawImageReadMmap priv bytes sector (data ++ status :: rest) data.length = after :=
      ended
    simp only [rawImageReadMmap, mmapTransfer, Int.not_ofNat_neg, if_false, Int.toNat_natCast,
      copies, start] at result
    subst result
    cases returned
    exact ⟨sound, rfl, Or.inr ⟨by simp, rfl⟩⟩
  writes := by
    refine ⟨_, rfl, ?_⟩
    intro priv answers bytes sector data status rest after count sound _ handed ended returned
    have fits : sector.toNat * 512 + iovBytes data ≤ fileMax := Nat.le_trans handed.inside sound
    have start := sector_bytes sector (Nat.le_trans (Nat.le_add_right _ _) fits)
    obtain ⟨touched, copies⟩ := copy_in_spec (status :: rest) priv bytes (sector <<< sectorShift) 0
      handed.mapped (by rw [start]; exact fits)
    have result :
        rawImageWriteMmap priv bytes sector (data ++ status :: rest) data.length = after :=
      ended
    simp only [rawImageWriteMmap, mmapTransfer, Int.not_ofNat_neg, if_false, Int.toNat_natCast,
      copies, start] at result
    subst result
    cases returned
    exact ⟨sound, by simp, rfl⟩

end Copies

end Images

/-- In a run whose services are storable every OUT is completed and what is reported
as done is what is read again, whichever image is open. -/
theorem reported_writes_kept (kind : Kind) {start : BlkDev kind.Disk} {services : List Service}
    (ops : start.image.ops = kind.backend.ops) (serving : Serving start)
    (opened : kind.Opened start.disk)
    (each : Each kind.backend (Admitted kind.backend) start services) :
    Kept kind.backend start services := by
  cases kind with
  | regular => exact faithful_keeps regular_faithful ⟨ops, serving, opened⟩ each
  | mapped => exact faithful_keeps mapped_faithful ⟨ops, serving, opened⟩ each
  | fallback => exact unwritable_keeps rfl each
  | qcow fuel => exact unwritable_keeps rfl each

/-! A write of sector 0 and a read of it behind, by a driver that uses one chain. -/

def writeChain : Nat → VringDesc
  | 0 => ⟨0x1000, 16, vringDescFNext, 1⟩
  | 1 => ⟨0x2000, 512, vringDescFNext, 2⟩
  | _ => ⟨0x3000, 1, vringDescFWrite, 0⟩

def chainTo : Direction → Nat → VringDesc
  | .fromDevice => readChain
  | .toDevice => writeChain

/-- The write is published first, the read behind it. -/
def firstSector (direction : Direction) : Service where
  turn :=
    { ring := { blankRing with
        desc := chainTo direction
        avail := ⟨0, if direction = .toDevice then 1 else 2, fun _ => 0⟩ }
      guest := ⟨fun i => if direction = .fromDevice then 0 else if i = 0x1000 then 1
        else if 0x2000 ≤ i then 7 else 0, fun _ _ _ => true⟩ }
  req := ⟨0, direction, 0, chainTo direction 0, [chainTo direction 1], chainTo direction 2⟩
  answers := [.moves 512]

def writeThenRead : List Service := [firstSector .toDevice, firstSector .fromDevice]

def fallbackDevice : BlkDev OpenFile :=
  { rawDevice with image := ⟨roOpsNowrite, false, true, fun disk => (0, disk), none⟩ }

theorem first_sector_formed (direction : Direction) :
    WellFormedRequest (firstSector direction).turn 1024 (firstSector direction).req := by
  cases direction
  all_goals
    exact
      { inside := by decide
        chain := ⟨[0, 1, 2], rfl, Chain.link ⟨rfl, by decide⟩ (Chain.link ⟨rfl, by decide⟩
          (Chain.last fun linked => absurd linked.1 (by decide)))⟩
        short := by decide
        headerReadable := rfl
        dataDirection := by decide
        statusWritable := rfl
        statusByte := rfl
        mapped := fun _ _ => rfl
        type := rfl
        sector := rfl
        small := by decide
        inImage := by decide }

theorem written_sector_read : Kept (Kind.backend .regular) rawDevice writeThenRead := by
  have opened : Kind.Opened .regular rawDevice.disk := (by decide : (1024 : Nat) ≤ fileMax)
  have moves : MovesOn [.moves 512] := by simp [MovesOn]
  apply reported_writes_kept .regular rfl ⟨rfl, rfl, rfl, by decide, rfl⟩ opened
  refine ⟨⟨⟨by decide, rfl, first_sector_formed .toDevice⟩, Option.some_ne_none _, moves⟩, ?_⟩
  intro next taken
  cases taken
  exact ⟨⟨⟨by decide, rfl, first_sector_formed .fromDevice⟩, fun _ => moves⟩,
    fun _ _ => trivial⟩


theorem fallback_write_done : ∃ next,
    serve (Kind.backend .fallback) fallbackDevice (firstSector .toDevice) = some next ∧
      next.log = [.popped 0, .status 0x3000 virtioBlkSOk, .usedElem 0 0] := ⟨_, rfl, rfl⟩

/-- The read-only fallback reports a write that it has dropped. -/
theorem lost_write_reported : ¬ Kept (Kind.backend .fallback) fallbackDevice writeThenRead := by
  intro kept
  obtain ⟨next, taken, log⟩ := fallback_write_done
  have reported := kept.completed [] (firstSector .toDevice) [firstSector .fromDevice]
    fallbackDevice next rfl rfl taken rfl
  have fresh : fallbackDevice.log = [] := rfl
  rcases reported with ⟨_, writable⟩ | ⟨address, failed⟩
  · exact writable rfl
  · simp [log, fresh, virtioBlkSOk, virtioBlkSIoerr] at failed

end VirtioDisk.ReportedWrites
