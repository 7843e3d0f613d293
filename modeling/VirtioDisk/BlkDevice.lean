import VirtioDisk.ReadWrite
import VirtioDisk.Transition

/-!
The request loop of virtio/blk.c over the disk_image layer of disk/core.c. The
operations of the image are parameters over the type of whatever is behind its
file descriptor. A step that gives `none` is one the server does not come back
from: a null or read-only pointer, a walk without end, an index outside
`bdev->reqs` or `req->iov`. `log` is ghost state. Between two turns of the loop
the guest may have put anything into its own memory.
-/

namespace VirtioDisk.BlkDevice

open ByteStore DescriptorChain ReadWrite RingWindow Virtqueue

def virtioBlkTIn : UInt32 := 0
def virtioBlkTOut : UInt32 := 1
def virtioBlkTFlush : UInt32 := 4
def virtioBlkTGetId : UInt32 := 8
def virtioBlkIdBytes : Nat := 20
def virtioBlkSOk : UInt8 := 0
def virtioBlkSIoerr : UInt8 := 1

/-- The direction of the data of an IN or OUT request. -/
inductive Direction where
  | fromDevice
  | toDevice
  deriving DecidableEq

def Direction.type : Direction → UInt32
  | .fromDevice => virtioBlkTIn
  | .toDevice => virtioBlkTOut

-- A pointer into an array of iovecs is the list of the entries from there to its end.
abbrev Transfer (Disk : Type) :=
  Disk → (Nat → UInt8) → UInt64 → List Iovec → Int → Transferred Disk

structure DiskImageOperations (Disk : Type) where
  read : Option (Transfer Disk)
  write : Option (Transfer Disk)
  flush : Option (Disk → Int × Disk)

def DiskImageOperations.operation {Disk : Type} (ops : DiskImageOperations Disk) :
    Direction → Option (Transfer Disk)
  | .fromDevice => ops.read
  | .toDevice => ops.write

structure Stat where
  stDev : Nat
  stRdev : Nat
  stIno : Nat

/-- `fsync` and `fstat` are what the host answers for the descriptor of the image. -/
structure DiskImage (Disk : Type) where
  ops : DiskImageOperations Disk
  async : Bool
  diskReqCb : Bool
  fsync : Disk → Int × Disk
  fstat : Option Stat

structure BlkDevReq where
  iov : Nat → Iovec
  outCount : UInt16
  inCount : UInt16
  head : UInt16

inductive Event where
  | popped (head : UInt16)
  | status (address : Nat) (value : UInt8)
  | usedElem (id len : UInt32)
  deriving DecidableEq

structure BlkDev (Disk : Type) where
  image : DiskImage Disk
  disk : Disk
  guest : GuestMemory
  ring : RingMemory
  vq : VirtQueue
  reqs : Nat → BlkDevReq
  ioDone : Bool
  signals : Nat
  log : List Event

variable {Disk : Type}

def BlkDevReq.entries (req : BlkDevReq) : Nat := req.outCount.toNat + req.inCount.toNat

/-- `iov + 1`. -/
def BlkDevReq.behindHeader (req : BlkDevReq) : List Iovec :=
  (List.range (virtioBlkQueueSize - 1)).map fun i => req.iov (i + 1)

-- What the pointers named is gone. They stay where they are, but no use of one can be
-- told from that of a null pointer. Entries behind those of the request are not looked at.
def BlkDevReq.unmapAll (req : BlkDevReq) : BlkDevReq :=
  { req with
    iov := fun i => if i < req.entries then { req.iov i with iovBase := none } else req.iov i }

@[simp] theorem unmap_all_unmapped {req : BlkDevReq} {i : Nat} (inside : i < req.entries) :
    (req.unmapAll.iov i).iovBase = none := by
  simp [BlkDevReq.unmapAll, inside]

theorem unmap_all_behind {req : BlkDevReq} {i : Nat} (behind : req.entries ≤ i) :
    req.unmapAll.iov i = req.iov i := by
  simp [BlkDevReq.unmapAll, Nat.not_lt.mpr behind]

def virtioBlkComplete (dev : BlkDev Disk) (req : BlkDevReq) (len : Int) : Option (BlkDev Disk) :=
  match storeTarget (req.iov (req.entries - 1)).iovBase with
  | none => none
  | some status =>
      let value := if len < 0 then virtioBlkSIoerr else virtioBlkSOk
      let id := req.head.toUInt32
      let ring := virtQueueSetUsedElem dev.ring dev.vq id (UInt32.ofInt len)
      let signal := virtioQueueShouldSignal ring dev.vq
      some { dev with
        guest := { dev.guest with bytes := writeRange dev.guest.bytes status [value] }
        ring := ring
        vq := signal.2
        reqs := put dev.reqs req.head.toNat req.unmapAll
        signals := if signal.1 then dev.signals + 1 else dev.signals
        log := dev.log ++ [.status status value, .usedElem id (UInt32.ofInt len)] }

def BlkDev.transferred (dev : BlkDev Disk) (moved : Transferred Disk) : BlkDev Disk :=
  { dev with disk := moved.disk, guest := { dev.guest with bytes := moved.bytes } }

/-- The common body of `disk_image__read` and `disk_image__write`. -/
def diskImageTransfer (op : Option (Transfer Disk)) (dev : BlkDev Disk) (sector : UInt64)
    (iov : List Iovec) (iovcount : Int) (req : BlkDevReq) : Option (BlkDev Disk) :=
  let finish (dev : BlkDev Disk) (total : Int) : Option (BlkDev Disk) :=
    if dev.image.async = false ∧ dev.image.diskReqCb = true then virtioBlkComplete dev req total
    else some dev
  match op with
  | none => finish dev 0
  | some op =>
      let moved := op dev.disk dev.guest.bytes sector iov iovcount
      match moved.total with
      | none => none
      | some total =>
          if total < 0 then some (dev.transferred moved) else finish (dev.transferred moved) total

def diskImageRead (dev : BlkDev Disk) (sector : UInt64) (iov : List Iovec) (iovcount : Int)
    (req : BlkDevReq) : Option (BlkDev Disk) :=
  diskImageTransfer dev.image.ops.read dev sector iov iovcount req

def diskImageWrite (dev : BlkDev Disk) (sector : UInt64) (iov : List Iovec) (iovcount : Int)
    (req : BlkDevReq) : Option (BlkDev Disk) :=
  diskImageTransfer dev.image.ops.write dev sector iov iovcount req

def diskImageFlush (image : DiskImage Disk) (disk : Disk) : Int × Disk :=
  match image.ops.flush with
  | some flush => flush disk
  | none => image.fsync disk

/-- `"%llu%llu%llu"` of the three numbers. -/
def serialText (stat : Stat) : List UInt8 :=
  (Nat.toDigits 10 stat.stDev ++ Nat.toDigits 10 stat.stRdev ++ Nat.toDigits 10 stat.stIno).map
    fun digit => UInt8.ofNat digit.toNat

-- `*len` and the memory after the call: snprintf cuts the text, not its length.
def diskImageGetSerial (image : DiskImage Disk) (bytes : Nat → UInt8) (buffer : Option HostPtr)
    (len : Nat) : Option (Nat × (Nat → UInt8)) :=
  match image.fstat with
  | none => some (len, bytes)
  | some stat =>
      match storeTarget buffer with
      | none => none
      | some target =>
          let text := serialText stat
          some (text.length, writeRange bytes target (text.take (len - 1) ++ [0]))

def virtioBlkDoIoRequest (dev : BlkDev Disk) (req : BlkDevReq) : Option (BlkDev Disk) :=
  match (req.iov 0).iovBase with
  | none => none
  | some header =>
      let type := u32At dev.guest.bytes header.address
      let sector := u64At dev.guest.bytes (header.address + 8)
      let data := req.behindHeader
      let count : Int := (req.entries : Int) - 2
      if type = virtioBlkTIn then diskImageRead dev sector data count req
      else if type = virtioBlkTOut then diskImageWrite dev sector data count req
      else if type = virtioBlkTFlush then
        let flushed := diskImageFlush dev.image dev.disk
        virtioBlkComplete { dev with disk := flushed.2 } req flushed.1
      else if type = virtioBlkTGetId then
        match diskImageGetSerial dev.image dev.guest.bytes (req.iov 1).iovBase virtioBlkIdBytes with
        | none => none
        | some (len, bytes) =>
            virtioBlkComplete { dev with guest := { dev.guest with bytes := bytes } } req len
      else some dev

/-- What the guest has in its memory when the loop comes round. -/
structure Turn where
  ring : RingMemory
  guest : GuestMemory

def BlkDev.seen (dev : BlkDev Disk) (turn : Turn) : BlkDev Disk :=
  { dev with ring := virtQueueAvailableStore turn.ring dev.vq, guest := turn.guest }

def BlkDev.pop (dev : BlkDev Disk) : BlkDev Disk :=
  { dev with
    vq := (virtQueuePop dev.ring dev.vq).2
    log := dev.log ++ [.popped (virtQueuePop dev.ring dev.vq).1] }

/-- `reqs[head]` after the walk from `head`. -/
def popRequest (dev : BlkDev Disk) (head : UInt16) : Option BlkDevReq :=
  if head.toNat < virtioBlkQueueSize then
    match virtQueueGetHeadIov dev.guest dev.ring dev.vq (dev.reqs head.toNat).iov head
        chainFuel with
    | none => none
    | some w =>
        if w.stored.length ≤ virtioBlkQueueSize then some ⟨w.iov, w.outCount, w.inCount, head⟩
        else none
  else none

theorem pop_request_iff {dev : BlkDev Disk} {head : UInt16} {req : BlkDevReq} :
    popRequest dev head = some req ↔ head.toNat < virtioBlkQueueSize ∧
      ∃ w, virtQueueGetHeadIov dev.guest dev.ring dev.vq (dev.reqs head.toNat).iov head chainFuel =
          some w ∧
        w.stored.length ≤ virtioBlkQueueSize ∧ req = ⟨w.iov, w.outCount, w.inCount, head⟩ := by
  unfold popRequest
  by_cases inside : head.toNat < virtioBlkQueueSize
  · cases walked : virtQueueGetHeadIov dev.guest dev.ring dev.vq (dev.reqs head.toNat).iov head
        chainFuel with
    | none => simp [inside]
    | some w =>
        by_cases short : w.stored.length ≤ virtioBlkQueueSize
        · simp [inside, short, eq_comm]
        · simp [inside, short]
  · simp [inside]

-- One turn of the loop of virtio_blk_do_io, or a look that found nothing to do.
def virtioBlkDoIo (dev : BlkDev Disk) (turn : Turn) : Option (BlkDev Disk) :=
  let seen := dev.seen turn
  if virtQueueAvailableLoad seen.ring seen.vq = true ∧ seen.ioDone = false then
    let head := (virtQueuePop seen.ring seen.vq).1
    match popRequest seen.pop head with
    | none => none
    | some req =>
        virtioBlkDoIoRequest { seen.pop with reqs := put seen.pop.reqs head.toNat req } req
  else some seen

/-! One published read of one sector: a zeroed header is a read of sector 0. -/

def readChain : Nat → VringDesc
  | 0 => ⟨0x1000, 16, vringDescFNext, 1⟩
  | 1 => ⟨0x2000, 512, vringDescFNext ||| vringDescFWrite, 2⟩
  | _ => ⟨0x3000, 1, vringDescFWrite, 0⟩

def oneRead : Turn where
  ring := { blankRing with desc := readChain, avail := ⟨0, 1, fun _ => 0⟩ }
  guest := ⟨fun _ => 0, fun _ _ _ => true⟩

end VirtioDisk.BlkDevice
