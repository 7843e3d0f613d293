import VirtioDisk.Transition
import VirtioDisk.DescriptorChain
import VirtioDisk.GuestMapping

/-!
The guest's register writes: virtio/mmio-legacy.c, virtio/mmio-modern.c,
virtio/mmio.c, the queue life cycle of virtio/core.c and the queue operations of
virtio/blk.c. `threads`, `openFds` and `notified` are ghost state: the threads
that run, the event descriptors that are open and those that were written to.
This build does no endianness conversion, so notify_status has nothing to do.
-/

namespace VirtioDisk.MmioRegisters

open DescriptorChain GuestMapping Transition Virtqueue

def numVirtQueues : Nat := 1
def pageSize : UInt64 := 4096

def virtioMmioConfig : UInt32 := 0x100

def virtioConfigSDriverOk : UInt8 := 4
def virtioConfigSMask : UInt32 := 0xcf
def virtioStatusStart : UInt32 := 0x100
def virtioStatusSwab : UInt32 := 0x400

def virtioBlkFSegMax : UInt64 := 2
def virtioBlkFRo : UInt64 := 5
def virtioBlkFFlush : UInt64 := 9
def virtioRingFIndirectDesc : UInt64 := 28
def virtioRingFEventIdx : UInt64 := 29

def virtioEndianLe : UInt16 := 1
def virtioEndianHost : UInt16 := virtioEndianLe

/-- The registers that a write can reach, in either transport. -/
inductive Register where
  | deviceFeaturesSel | driverFeatures | driverFeaturesSel | guestPageSize
  | queueSel | queueNum | queueAlign | queuePfn | queueReady | queueNotify
  | interruptAck | status
  | queueDescLow | queueDescHigh | queueAvailLow | queueAvailHigh | queueUsedLow | queueUsedHigh
  deriving DecidableEq

def Register.offset : Register → UInt32
  | .deviceFeaturesSel => 0x014
  | .driverFeatures => 0x020
  | .driverFeaturesSel => 0x024
  | .guestPageSize => 0x028
  | .queueSel => 0x030
  | .queueNum => 0x038
  | .queueAlign => 0x03c
  | .queuePfn => 0x040
  | .queueReady => 0x044
  | .queueNotify => 0x050
  | .interruptAck => 0x064
  | .status => 0x070
  | .queueDescLow => 0x080
  | .queueDescHigh => 0x084
  | .queueAvailLow => 0x090
  | .queueAvailHigh => 0x094
  | .queueUsedLow => 0x0a0
  | .queueUsedHigh => 0x0a4

def registers : List Register :=
  [.deviceFeaturesSel, .driverFeatures, .driverFeaturesSel, .guestPageSize,
    .queueSel, .queueNum, .queueAlign, .queuePfn, .queueReady, .queueNotify,
    .interruptAck, .status,
    .queueDescLow, .queueDescHigh, .queueAvailLow, .queueAvailHigh, .queueUsedLow, .queueUsedHigh]

def registerAt (addr : UInt32) : Option Register :=
  registers.find? fun register => register.offset == addr

structure VirtioMmioHdr where
  hostFeaturesSel : UInt32
  guestFeaturesSel : UInt32
  guestPageSize : UInt32
  queueSel : UInt32
  queueNum : UInt32
  interruptState : UInt32
  status : UInt32
  deriving DecidableEq

structure VirtioDevice where
  legacy : Bool
  endian : UInt16
  features : UInt64
  status : UInt32
  deriving DecidableEq

structure MmioDevice where
  hdr : VirtioMmioHdr
  vdev : VirtioDevice
  vq : VirtQueue
  demu : DemuState
  readonly : Bool
  ioThread : Nat
  ioEfd : Int
  ioDone : Bool
  threads : List Nat
  openFds : List Int
  notified : List Int

/-- What the host answers while one write is handled. -/
structure HostAnswers where
  ring : Option HostPages
  desc : Option HostPages
  used : Option HostPages
  avail : Option HostPages
  eventfd : Int
  ioThread : Option Nat

/-- Why a write is not followed by a defined state: a BUG_ON that stops the
server, an element of `bdev->vqs` that does not exist, or a join of no thread. -/
inductive Fault where
  | bugOn
  | outsideVqs
  | joinsNoThread
  deriving DecidableEq

def clearedQueue : VirtQueue where
  vring := ⟨0, 0, 0, 0⟩
  vringAddr := ⟨false, 0, 0, 0, 0, 0, 0⟩
  lastAvailIdx := 0
  lastUsedSignalled := 0
  endian := 0
  useEventIdx := false
  enabled := false

def getVq (dev : MmioDevice) (vq : UInt32) : Except Fault VirtQueue :=
  if vq.toNat < numVirtQueues then .ok dev.vq else .error .outsideVqs

def getSizeVq (_dev : MmioDevice) (_vq : UInt32) : Nat := virtioBlkQueueSize

-- FIXME: dynamic, says the source.
def setSizeVq (dev : MmioDevice) (_vq _size : UInt32) : MmioDevice := dev

def getHostFeatures (dev : MmioDevice) : UInt64 :=
  1 <<< virtioBlkFSegMax ||| 1 <<< virtioBlkFFlush ||| 1 <<< virtioRingFEventIdx
    ||| 1 <<< virtioRingFIndirectDesc ||| (if dev.readonly then 1 <<< virtioBlkFRo else 0)

/-! `vring_size` and `vring_init` of linux/virtio_ring.h. -/

def vringSize (num align : UInt32) : UInt64 :=
  let rounding := align.toUInt64 - 1
  let head := 16 * num.toUInt64 + 2 * (3 + num).toUInt64 + rounding
  ((head &&& ~~~rounding) + 2 * 3 + 8 * num.toUInt64).toUInt32.toUInt64

def vringInit (num : Nat) (p : UInt64) (align : UInt32) : Vring :=
  let rounding := align.toUInt64 - 1
  let avail := p + 16 * UInt64.ofNat num
  let behind := avail + 4 + 2 * UInt64.ofNat num + 2
  { num := num, desc := p, avail := avail, used := (behind + rounding) &&& ~~~rounding }

def halves (hi lo : UInt32) : UInt64 := (hi.toUInt64 <<< 32) ||| lo.toUInt64

/-- The queue that virtio_init_device_vq starts from: all it stores before it maps. -/
def enabledQueue (vdev : VirtioDevice) (vq : VirtQueue) : VirtQueue :=
  { vq with
    endian := vdev.endian
    useEventIdx := vdev.features &&& virtioRingFEventIdx != 0
    enabled := true }

def mapRings (vq : VirtQueue) (nrDescs : Nat) (demu : DemuState) (host : HostAnswers) :
    Option (Vring × DemuState) :=
  let addr := vq.vringAddr
  if addr.legacy then do
    let base := addr.pfn.toUInt64 * addr.pgsize.toUInt64
    let size := vringSize (UInt32.ofNat nrDescs) addr.align
    let (p, demu) ← demuMapGuestRange demu base size host.ring
    if p = 0 then none else some (vringInit nrDescs p addr.align, demu)
  else do
    let (desc, demu) ← demuMapGuestRange demu (halves addr.descHi addr.descLo) pageSize host.desc
    let (used, demu) ← demuMapGuestRange demu (halves addr.usedHi addr.usedLo) pageSize host.used
    let (avail, demu) ←
      demuMapGuestRange demu (halves addr.availHi addr.availLo) pageSize host.avail
    if desc = 0 ∨ used = 0 ∨ avail = 0 then none
    else some (⟨nrDescs, desc, avail, used⟩, demu)

def virtioInitDeviceVq (dev : MmioDevice) (vq : VirtQueue) (nrDescs : Nat) (host : HostAnswers) :
    Except Fault MmioDevice :=
  let vq := enabledQueue dev.vdev vq
  match mapRings vq nrDescs dev.demu host with
  | none => .error .bugOn
  | some (vring, demu) => .ok { dev with vq := { vq with vring := vring }, demu := demu }

/-- The I/O thread of queue 0, as `init_vq` starts it. Its callers drop the result. -/
def startIoThread (dev : MmioDevice) (host : HostAnswers) : MmioDevice :=
  let dev := { dev with ioEfd := host.eventfd }
  if host.eventfd < 0 then dev
  else
    let dev := { dev with openFds := host.eventfd :: dev.openFds, ioDone := false }
    match host.ioThread with
    | none => dev
    | some thread => { dev with ioThread := thread, threads := thread :: dev.threads }

def initVq (dev : MmioDevice) (vq : UInt32) (host : HostAnswers) : Except Fault MmioDevice := do
  let queue ← getVq dev vq
  let dev ← virtioInitDeviceVq dev queue virtioBlkQueueSize host
  .ok (startIoThread dev host)

def notifyVq (dev : MmioDevice) : MmioDevice := { dev with notified := dev.notified ++ [dev.ioEfd] }

def exitVq (dev : MmioDevice) : Except Fault MmioDevice :=
  let dev := notifyVq { dev with ioDone := true }
  if dev.ioThread ∈ dev.threads then
    .ok { dev with
      threads := dev.threads.erase dev.ioThread
      openFds := dev.openFds.erase dev.ioEfd }
  else .error .joinsNoThread

/-- What virtio_exit_vq gives back, in its order. -/
def ringRanges (vq : VirtQueue) : List Range :=
  if vq.vringAddr.legacy then
    [⟨vq.vring.desc, vringSize (UInt32.ofNat vq.vring.num) vq.vringAddr.align⟩]
  else [⟨vq.vring.desc, pageSize⟩, ⟨vq.vring.used, pageSize⟩, ⟨vq.vring.avail, pageSize⟩]

def unmapRings (vq : VirtQueue) (demu : DemuState) : DemuState :=
  (ringRanges vq).foldl (fun demu range => demuUnmapGuestRange demu range.ptr range.size) demu

def virtioExitVq (dev : MmioDevice) (num : UInt32) : Except Fault MmioDevice := do
  let vq ← getVq dev num
  if vq.enabled then
    let stopped ← exitVq dev
    .ok { stopped with vq := clearedQueue, demu := unmapRings vq stopped.demu }
  else .ok { dev with vq := clearedQueue }

def virtioMmioInitVq (dev : MmioDevice) (vq : UInt32) (host : HostAnswers) :
    Except Fault MmioDevice := initVq dev vq host

def virtioMmioExitVq (dev : MmioDevice) (vq : UInt32) : Except Fault MmioDevice :=
  virtioExitVq dev vq

def virtioMmioReset (dev : MmioDevice) : Except Fault MmioDevice :=
  (List.range numVirtQueues).foldlM (fun dev vq => virtioMmioExitVq dev (UInt32.ofNat vq)) dev

def virtioSetGuestFeatures (dev : MmioDevice) (features : UInt64) : MmioDevice :=
  { dev with vdev := { dev.vdev with features := dev.vdev.features ||| features } }

def MmioDevice.setStatus (dev : MmioDevice) (status : UInt32) : MmioDevice :=
  { dev with vdev := { dev.vdev with status := status } }

def statusWord (dev : MmioDevice) (status : UInt8) : UInt32 :=
  (dev.vdev.status &&& ~~~virtioConfigSMask) ||| status.toUInt32

-- On first reset, swap device-specific config endianess.
def swabOnReset (dev : MmioDevice) (status : UInt8) : MmioDevice :=
  if status = 0 ∧ dev.vdev.status &&& virtioStatusSwab = 0 then
    dev.setStatus (dev.vdev.status ||| virtioStatusSwab)
  else dev

def virtioNotifyStatus (dev : MmioDevice) (status : UInt8) : Except Fault MmioDevice := do
  let word := statusWord dev status
  let dev ←
    if status &&& virtioConfigSDriverOk ≠ 0 ∧ word &&& virtioStatusStart = 0 then
      .ok (dev.setStatus (word ||| virtioStatusStart))
    else if status = 0 ∧ word &&& virtioStatusStart ≠ 0 then
      virtioMmioReset (dev.setStatus (word &&& ~~~virtioStatusStart))
    else .ok (dev.setStatus word)
  .ok (swabOnReset dev status)

/-! Parts of the two switches of virtio_mmio_config_out. -/

inductive AddressWord where
  | descLo | descHi | availLo | availHi | usedLo | usedHi
  deriving DecidableEq

def storeWord (addr : VringAddr) (val : UInt32) : AddressWord → VringAddr
  | .descLo => { addr with descLo := val }
  | .descHi => { addr with descHi := val }
  | .availLo => { addr with availLo := val }
  | .availHi => { addr with availHi := val }
  | .usedLo => { addr with usedLo := val }
  | .usedHi => { addr with usedHi := val }

def setSelectedWord (dev : MmioDevice) (word : AddressWord) (val : UInt32) :
    Except Fault MmioDevice := do
  let vq ← getVq dev dev.hdr.queueSel
  .ok { dev with vq := { vq with vringAddr := storeWord vq.vringAddr val word } }

-- `vring_addr.pfn` and `pgsize` are the words `desc_lo` and `avail_lo` of the union.
def setSelectedPfn (dev : MmioDevice) (val : UInt32) : Except Fault MmioDevice := do
  let vq ← getVq dev dev.hdr.queueSel
  .ok { dev with vq := { vq with vringAddr :=
    { vq.vringAddr with legacy := true, descLo := val, availLo := dev.hdr.guestPageSize } } }

def setQueueNum (dev : MmioDevice) (val : UInt32) : MmioDevice :=
  setSizeVq { dev with hdr := { dev.hdr with queueNum := val } } dev.hdr.queueSel val

namespace Modern

-- With selector 1 the source only warns.
def virtioMmioConfigOut (dev : MmioDevice) (addr val : UInt32) (host : HostAnswers) :
    Except Fault MmioDevice :=
  match registerAt addr with
  | some .deviceFeaturesSel => .ok { dev with hdr := { dev.hdr with hostFeaturesSel := val } }
  | some .driverFeaturesSel => .ok { dev with hdr := { dev.hdr with guestFeaturesSel := val } }
  | some .queueSel => .ok { dev with hdr := { dev.hdr with queueSel := val } }
  | some .status =>
      virtioNotifyStatus { dev with hdr := { dev.hdr with status := val } } val.toUInt8
  | some .driverFeatures =>
      if dev.hdr.guestFeaturesSel = 0 then .ok (virtioSetGuestFeatures dev val.toUInt64)
      else .ok dev
  | some .queueNum => .ok (setQueueNum dev val)
  | some .queueReady =>
      if val ≠ 0 then virtioMmioInitVq dev dev.hdr.queueSel host
      else virtioMmioExitVq dev dev.hdr.queueSel
  | some .queueNotify => .ok (notifyVq dev)
  | some .interruptAck =>
      .ok { dev with hdr := { dev.hdr with interruptState := dev.hdr.interruptState &&& ~~~val } }
  | some .queueDescLow => setSelectedWord dev .descLo val
  | some .queueDescHigh => setSelectedWord dev .descHi val
  | some .queueUsedLow => setSelectedWord dev .usedLo val
  | some .queueUsedHigh => setSelectedWord dev .usedHi val
  | some .queueAvailLow => setSelectedWord dev .availLo val
  | some .queueAvailHigh => setSelectedWord dev .availHi val
  | _ => .ok dev

end Modern

namespace Legacy

def virtioMmioConfigOut (dev : MmioDevice) (addr val : UInt32) (host : HostAnswers) :
    Except Fault MmioDevice :=
  match registerAt addr with
  | some .deviceFeaturesSel => .ok { dev with hdr := { dev.hdr with hostFeaturesSel := val } }
  | some .driverFeaturesSel => .ok { dev with hdr := { dev.hdr with guestFeaturesSel := val } }
  | some .queueSel => .ok { dev with hdr := { dev.hdr with queueSel := val } }
  | some .status =>
      -- Sample endianness on reset
      let endian := if val = 0 then virtioEndianHost else dev.vdev.endian
      virtioNotifyStatus
        { dev with
          hdr := { dev.hdr with status := val }
          vdev := { dev.vdev with endian := endian } }
        val.toUInt8
  | some .driverFeatures =>
      if dev.hdr.guestFeaturesSel = 0 then .ok (virtioSetGuestFeatures dev val.toUInt64)
      else .ok dev
  | some .guestPageSize => .ok { dev with hdr := { dev.hdr with guestPageSize := val } }
  | some .queueNum => .ok (setQueueNum dev val)
  | some .queueAlign => setSelectedWord dev .descHi val
  | some .queuePfn =>
      if val ≠ 0 then do
        let dev ← setSelectedPfn dev val
        virtioMmioInitVq dev dev.hdr.queueSel host
      else virtioMmioExitVq dev dev.hdr.queueSel
  | some .queueNotify => .ok (notifyVq dev)
  | some .interruptAck =>
      .ok { dev with hdr := { dev.hdr with interruptState := dev.hdr.interruptState &&& ~~~val } }
  | _ => .ok dev

end Legacy

/-- A write below the config space. `data` is the first word of the ioreq's data. -/
structure RegisterWrite where
  offset : UInt32
  data : UInt32
  len : UInt32
  register : offset < virtioMmioConfig

def virtioMmioModernCallback (dev : MmioDevice) (w : RegisterWrite) (host : HostAnswers) :
    Except Fault MmioDevice :=
  if w.len ≠ 4 then .ok dev else Modern.virtioMmioConfigOut dev w.offset w.data host

def virtioMmioLegacyCallback (dev : MmioDevice) (w : RegisterWrite) (host : HostAnswers) :
    Except Fault MmioDevice :=
  Legacy.virtioMmioConfigOut dev w.offset w.data host

/-- virtio_mmio_init registers the callback of the transport. -/
def callback (dev : MmioDevice) (w : RegisterWrite) (host : HostAnswers) :
    Except Fault MmioDevice :=
  if dev.vdev.legacy then virtioMmioLegacyCallback dev w host
  else virtioMmioModernCallback dev w host

/-- Between two writes the I/O thread moves the indices of the queue and may
raise the interrupt. -/
inductive Event where
  | write (w : RegisterWrite) (host : HostAnswers)
  | served (lastAvailIdx lastUsedSignalled : UInt16) (signalled : Bool)

def virtioMmioIntVring : UInt32 := 1

def served (dev : MmioDevice) (lastAvailIdx lastUsedSignalled : UInt16) (signalled : Bool) :
    MmioDevice :=
  if dev.threads = [] ∨ dev.vq.vring.avail = 0 then dev
  else
    let raised := if signalled then virtioMmioIntVring else 0
    { dev with
      vq := { dev.vq with lastAvailIdx := lastAvailIdx, lastUsedSignalled := lastUsedSignalled }
      hdr := { dev.hdr with interruptState := dev.hdr.interruptState ||| raised } }

def step (dev : MmioDevice) : Event → Except Fault MmioDevice
  | .write w host => callback dev w host
  | .served lastAvailIdx lastUsedSignalled signalled =>
      .ok (served dev lastAvailIdx lastUsedSignalled signalled)

/-- A 4-byte write to a register. -/
def wordTo (register : Register) (data : UInt32) : RegisterWrite :=
  ⟨register.offset, data, 4, by cases register <;> decide⟩

/-- A device as virtio_blk__init_one creates it. Other devices of the server may
have decided how guest pages are mapped. -/
def created (legacy readonly : Bool) (useGnttab : Option Bool) : MmioDevice where
  hdr := ⟨0, 0, 0, 0, 0, 0, 0⟩
  vdev := ⟨legacy, if legacy then virtioEndianHost else virtioEndianLe, 0, 0⟩
  vq := clearedQueue
  demu := ⟨useGnttab, []⟩
  readonly := readonly
  ioThread := 0
  ioEfd := 0
  ioDone := false
  threads := []
  openFds := []
  notified := []

/-- A host that has pages, an event descriptor and a thread to give. -/
def willingHost : HostAnswers where
  ring := some ⟨0x10000, by decide, by decide, by decide⟩
  desc := some ⟨0x20000, by decide, by decide, by decide⟩
  used := some ⟨0x30000, by decide, by decide, by decide⟩
  avail := some ⟨0x40000, by decide, by decide, by decide⟩
  eventfd := 5
  ioThread := some 7

/-! What a write asks for, whichever transport and register carry it. -/

inductive Command where
  | ignored
  | deviceFeaturesSel (val : UInt32)
  | driverFeaturesSel (val : UInt32)
  | queueSel (val : UInt32)
  | guestPageSize (val : UInt32)
  | queueNum (val : UInt32)
  | interruptAck (val : UInt32)
  | driverFeatures (val : UInt32)
  | status (val : UInt32)
  | address (word : AddressWord) (val : UInt32)
  | activate (val : UInt32)
  | deactivate
  | notify
  deriving DecidableEq

def ready (val : UInt32) : Command := if val ≠ 0 then .activate val else .deactivate

def legacyCommand (register : Register) (val : UInt32) : Command :=
  match register with
  | .deviceFeaturesSel => .deviceFeaturesSel val
  | .driverFeaturesSel => .driverFeaturesSel val
  | .queueSel => .queueSel val
  | .status => .status val
  | .driverFeatures => .driverFeatures val
  | .guestPageSize => .guestPageSize val
  | .queueNum => .queueNum val
  | .queueAlign => .address .descHi val
  | .queuePfn => ready val
  | .queueNotify => .notify
  | .interruptAck => .interruptAck val
  | _ => .ignored

def modernCommand (register : Register) (val : UInt32) : Command :=
  match register with
  | .guestPageSize | .queueAlign | .queuePfn => .ignored
  | .queueReady => ready val
  | .queueDescLow => .address .descLo val
  | .queueDescHigh => .address .descHi val
  | .queueUsedLow => .address .usedLo val
  | .queueUsedHigh => .address .usedHi val
  | .queueAvailLow => .address .availLo val
  | .queueAvailHigh => .address .availHi val
  | shared => legacyCommand shared val

def command (legacy : Bool) (w : RegisterWrite) : Command :=
  match registerAt w.offset with
  | none => .ignored
  | some register =>
      if legacy then legacyCommand register w.data
      else if w.len ≠ 4 then .ignored else modernCommand register w.data

def statusStored (dev : MmioDevice) (val : UInt32) : MmioDevice :=
  { dev with
    hdr := { dev.hdr with status := val }
    vdev := { dev.vdev with
      endian := if dev.vdev.legacy ∧ val = 0 then virtioEndianHost else dev.vdev.endian } }

def perform (dev : MmioDevice) (host : HostAnswers) : Command → Except Fault MmioDevice
  | .ignored => .ok dev
  | .deviceFeaturesSel val => .ok { dev with hdr := { dev.hdr with hostFeaturesSel := val } }
  | .driverFeaturesSel val => .ok { dev with hdr := { dev.hdr with guestFeaturesSel := val } }
  | .queueSel val => .ok { dev with hdr := { dev.hdr with queueSel := val } }
  | .guestPageSize val => .ok { dev with hdr := { dev.hdr with guestPageSize := val } }
  | .queueNum val => .ok { dev with hdr := { dev.hdr with queueNum := val } }
  | .interruptAck val =>
      .ok { dev with hdr := { dev.hdr with interruptState := dev.hdr.interruptState &&& ~~~val } }
  | .driverFeatures val =>
      .ok (if dev.hdr.guestFeaturesSel = 0 then virtioSetGuestFeatures dev val.toUInt64 else dev)
  | .status val => virtioNotifyStatus (statusStored dev val) val.toUInt8
  | .address word val => setSelectedWord dev word val
  | .activate val => do
      let dev ← if dev.vdev.legacy then setSelectedPfn dev val else .ok dev
      initVq dev dev.hdr.queueSel host
  | .deactivate => virtioExitVq dev dev.hdr.queueSel
  | .notify => .ok (notifyVq dev)

theorem legacy_performs (dev : MmioDevice) (w : RegisterWrite) (host : HostAnswers)
    (legacy : dev.vdev.legacy = true) :
    virtioMmioLegacyCallback dev w host = perform dev host (command true w) := by
  unfold virtioMmioLegacyCallback Legacy.virtioMmioConfigOut command
  cases found : registerAt w.offset with
  | none => rfl
  | some register =>
      cases register
      case driverFeatures =>
        by_cases first : dev.hdr.guestFeaturesSel = 0 <;>
          simp [legacyCommand, perform, first]
      case queuePfn =>
        by_cases zero : w.data = 0
        · simp [legacyCommand, ready, perform, zero, virtioMmioExitVq]
        · simp [legacyCommand, ready, perform, zero, legacy, virtioMmioInitVq]
      case status => simp [legacyCommand, perform, statusStored, legacy]
      all_goals rfl

theorem modern_performs (dev : MmioDevice) (w : RegisterWrite) (host : HostAnswers)
    (modern : dev.vdev.legacy = false) :
    virtioMmioModernCallback dev w host = perform dev host (command false w) := by
  unfold virtioMmioModernCallback Modern.virtioMmioConfigOut command
  by_cases word : w.len = 4
  · simp only [word, ne_eq, not_true_eq_false, if_false]
    cases found : registerAt w.offset with
    | none => rfl
    | some register =>
        cases register
        case driverFeatures =>
          by_cases first : dev.hdr.guestFeaturesSel = 0 <;>
            simp [modernCommand, legacyCommand, perform, first]
        case queueReady =>
          by_cases zero : w.data = 0
          · simp [modernCommand, ready, perform, zero, virtioMmioExitVq]
          · simp [modernCommand, ready, perform, zero, modern, virtioMmioInitVq, bind, Except.bind]
        case status =>
          have kept : (if dev.vdev.legacy = true ∧ w.data = 0 then virtioEndianHost
              else dev.vdev.endian) = dev.vdev.endian := by simp [modern]
          simp only [modernCommand, legacyCommand, perform, statusStored, kept,
            Bool.false_eq_true, if_false]
        all_goals rfl
  · cases registerAt w.offset <;> simp [word, perform]

theorem callback_performs (dev : MmioDevice) (w : RegisterWrite) (host : HostAnswers) :
    callback dev w host = perform dev host (command dev.vdev.legacy w) := by
  cases transport : dev.vdev.legacy with
  | true => simp only [callback, transport, if_true, legacy_performs dev w host transport]
  | false =>
      simp only [callback, transport, Bool.false_eq_true, if_false,
        modern_performs dev w host transport]

/-- A device whose I/O thread has moved the indices of the queue. -/
def MmioDevice.worked (dev : MmioDevice) (lastAvailIdx lastUsedSignalled : UInt16)
    (interruptState : UInt32) : MmioDevice :=
  { dev with
    vq := { dev.vq with lastAvailIdx := lastAvailIdx, lastUsedSignalled := lastUsedSignalled }
    hdr := { dev.hdr with interruptState := interruptState } }

theorem served_cases (dev : MmioDevice) (lastAvailIdx lastUsedSignalled : UInt16)
    (signalled : Bool) :
    served dev lastAvailIdx lastUsedSignalled signalled = dev ∨
      (dev.vq.vring.avail ≠ 0 ∧ ∃ interruptState,
        served dev lastAvailIdx lastUsedSignalled signalled =
          dev.worked lastAvailIdx lastUsedSignalled interruptState) := by
  by_cases resting : dev.threads = [] ∨ dev.vq.vring.avail = 0
  · exact Or.inl (if_pos resting)
  · exact Or.inr ⟨fun null => resting (Or.inr null), _, if_neg resting⟩

/-- A step that was taken: a command was performed, or the I/O thread has worked or not. -/
inductive Stepped (dev : MmioDevice) : Event → MmioDevice → Prop where
  | performed (w host) {next} : perform dev host (command dev.vdev.legacy w) = .ok next →
      Stepped dev (.write w host) next
  | rested (lastAvailIdx lastUsedSignalled signalled) :
      Stepped dev (.served lastAvailIdx lastUsedSignalled signalled) dev
  | worked (lastAvailIdx lastUsedSignalled signalled interruptState) :
      dev.vq.vring.avail ≠ 0 → Stepped dev (.served lastAvailIdx lastUsedSignalled signalled)
        (dev.worked lastAvailIdx lastUsedSignalled interruptState)

theorem step_cases {dev next : MmioDevice} {event : Event} (taken : step dev event = .ok next) :
    Stepped dev event next := by
  cases event with
  | write w host =>
      have done : perform dev host (command dev.vdev.legacy w) = .ok next :=
        (callback_performs dev w host).symm.trans taken
      exact Stepped.performed w host done
  | served lastAvailIdx lastUsedSignalled signalled =>
      cases taken
      rcases served_cases dev lastAvailIdx lastUsedSignalled signalled with
        same | ⟨mapped, interruptState, same⟩
      · rw [same]
        exact Stepped.rested lastAvailIdx lastUsedSignalled signalled
      · rw [same]
        exact Stepped.worked lastAvailIdx lastUsedSignalled signalled interruptState mapped

/-! One rule for each operation on the queue. -/

/-- The device after its thread was joined and its rings were unmapped. -/
def stoppedDevice (dev : MmioDevice) : MmioDevice :=
  { dev with
    vq := clearedQueue
    demu := unmapRings dev.vq dev.demu
    ioDone := true
    threads := dev.threads.erase dev.ioThread
    openFds := dev.openFds.erase dev.ioEfd
    notified := dev.notified ++ [dev.ioEfd] }

theorem get_vq_ok {dev : MmioDevice} {num : UInt32} {vq : VirtQueue}
    (got : getVq dev num = .ok vq) : num = 0 ∧ vq = dev.vq := by
  unfold getVq numVirtQueues at got
  split at got
  · rename_i inside
    cases got
    exact ⟨UInt32.toNat_inj.mp (by simpa using inside), rfl⟩
  · cases got

/-- Only queue 0 is there to be selected. -/
theorem get_vq_bind {α : Type} {dev : MmioDevice} {num : UInt32}
    {rest : VirtQueue → Except Fault α} {result : α} (done : getVq dev num >>= rest = .ok result) :
    num = 0 ∧ rest dev.vq = .ok result := by
  obtain ⟨vq, got, after⟩ := bind_ok done
  obtain ⟨first, rfl⟩ := get_vq_ok got
  exact ⟨first, after⟩

theorem get_vq_first (dev : MmioDevice) : getVq dev 0 = .ok dev.vq := rfl

theorem exit_vq_first (dev : MmioDevice) :
    virtioExitVq dev 0 =
      if dev.vq.enabled then
        if dev.ioThread ∈ dev.threads then .ok (stoppedDevice dev) else .error .joinsNoThread
      else .ok { dev with vq := clearedQueue } := by
  simp only [virtioExitVq, get_vq_first, bind, Except.bind]
  split
  · unfold exitVq notifyVq
    by_cases alive : dev.ioThread ∈ dev.threads <;> simp [alive, stoppedDevice]
  · rfl

theorem exit_vq_ok {dev next : MmioDevice} {num : UInt32}
    (done : virtioExitVq dev num = .ok next) :
    num = 0 ∧ (next = { dev with vq := clearedQueue } ∨ next = stoppedDevice dev) := by
  obtain ⟨rfl, _⟩ := get_vq_bind done
  rw [exit_vq_first] at done
  apply And.intro rfl
  split at done
  · split at done
    · cases done
      exact Or.inr rfl
    · cases done
  · cases done
    exact Or.inl rfl

theorem set_selected_word_ok {dev next : MmioDevice} {word : AddressWord} {val : UInt32}
    (done : setSelectedWord dev word val = .ok next) :
    dev.hdr.queueSel = 0 ∧
      next =
        { dev with vq := { dev.vq with vringAddr := storeWord dev.vq.vringAddr val word } } := by
  obtain ⟨first, stored⟩ := get_vq_bind done
  cases stored
  exact ⟨first, rfl⟩

theorem start_io_thread_frame (dev : MmioDevice) (host : HostAnswers) :
    (startIoThread dev host).hdr = dev.hdr ∧ (startIoThread dev host).vdev = dev.vdev ∧
      (startIoThread dev host).vq = dev.vq ∧ (startIoThread dev host).demu = dev.demu := by
  unfold startIoThread
  split
  · exact ⟨rfl, rfl, rfl, rfl⟩
  · cases host.ioThread <;> exact ⟨rfl, rfl, rfl, rfl⟩

theorem init_vq_first (dev : MmioDevice) (host : HostAnswers) :
    initVq dev 0 host =
      match mapRings (enabledQueue dev.vdev dev.vq) virtioBlkQueueSize dev.demu host with
      | none => .error .bugOn
      | some (vring, demu) => .ok (startIoThread
          { dev with vq := { enabledQueue dev.vdev dev.vq with vring := vring }, demu := demu }
          host) := by
  simp only [initVq, get_vq_first, bind, Except.bind, virtioInitDeviceVq]
  cases mapRings (enabledQueue dev.vdev dev.vq) virtioBlkQueueSize dev.demu host <;> rfl

theorem init_vq_ok {dev next : MmioDevice} {num : UInt32} {host : HostAnswers}
    (done : initVq dev num host = .ok next) :
    num = 0 ∧ ∃ vring demu,
      mapRings (enabledQueue dev.vdev dev.vq) virtioBlkQueueSize dev.demu host =
        some (vring, demu) ∧
      next = startIoThread
        { dev with
          vq := { enabledQueue dev.vdev dev.vq with vring := vring }
          demu := demu } host := by
  obtain ⟨rfl, _⟩ := get_vq_bind done
  rw [init_vq_first] at done
  cases mapped : mapRings (enabledQueue dev.vdev dev.vq) virtioBlkQueueSize dev.demu host with
  | none => simp [mapped] at done
  | some rings =>
      simp only [mapped, Except.ok.injEq] at done
      exact ⟨rfl, rings.1, rings.2, rfl, done.symm⟩

def MmioDevice.withAddr (dev : MmioDevice) (addr : VringAddr) : MmioDevice :=
  { dev with vq := { dev.vq with vringAddr := addr } }

/-- The legacy transport stores the page frame first; the modern one has the
addresses of the rings already. -/
def activationAddr (dev : MmioDevice) (val : UInt32) : VringAddr :=
  if dev.vdev.legacy then
    { dev.vq.vringAddr with legacy := true, descLo := val, availLo := dev.hdr.guestPageSize }
  else dev.vq.vringAddr

theorem activate_first (dev : MmioDevice) (host : HostAnswers) (val : UInt32)
    (first : dev.hdr.queueSel = 0) :
    perform dev host (.activate val) =
      initVq (dev.withAddr (activationAddr dev val)) 0 host := by
  cases transport : dev.vdev.legacy with
  | false =>
      simp only [perform, activationAddr, transport, Bool.false_eq_true, if_false, bind,
        Except.bind, first, MmioDevice.withAddr]
  | true =>
      simp only [perform, activationAddr, transport, if_true, setSelectedPfn, first, get_vq_first,
        bind, Except.bind, MmioDevice.withAddr]

theorem activate_ok {dev next : MmioDevice} {host : HostAnswers} {val : UInt32}
    (done : perform dev host (.activate val) = .ok next) :
    initVq (dev.withAddr (activationAddr dev val)) 0 host = .ok next := by
  have first : dev.hdr.queueSel = 0 := by
    cases transport : dev.vdev.legacy with
    | false =>
        simp only [perform, transport, Bool.false_eq_true, if_false, bind, Except.bind] at done
        exact (get_vq_bind done).1
    | true =>
        simp only [perform, transport, if_true] at done
        obtain ⟨stored, selected, _⟩ := bind_ok done
        exact (get_vq_bind selected).1
  rwa [activate_first dev host val first] at done

/-- What is mapped for a queue is what its exit unmaps. -/
theorem map_rings_maps {vq : VirtQueue} {nrDescs : Nat} {demu after : DemuState}
    {host : HostAnswers} {vring : Vring} (unmapped : demu.held = [])
    (mapped : mapRings vq nrDescs demu host = some (vring, after)) :
    Maps after (ringRanges { vq with vring := vring }) := by
  have idle : Maps demu [] := unmapped
  simp only [mapRings] at mapped
  unfold ringRanges
  split at mapped
  · rename_i legacy
    simp only [Option.bind_eq_bind, Option.bind_eq_some_iff, Prod.exists] at mapped
    obtain ⟨p, first, ring, stored⟩ := mapped
    obtain ⟨valid, same⟩ := Option.ite_none_left_eq_some.mp stored
    cases same
    simpa [legacy, vringInit] using (map_maps idle (Or.inr rfl) ring valid).1
  · rename_i modern
    simp only [Option.bind_eq_bind, Option.bind_eq_some_iff, Prod.exists] at mapped
    obtain ⟨desc, first, mapDesc, used, second, mapUsed, avail, third, mapAvail, stored⟩ := mapped
    obtain ⟨valid, same⟩ := Option.ite_none_left_eq_some.mp stored
    cases same
    simp only [not_or] at valid
    obtain ⟨descMapped, known⟩ := map_maps idle (Or.inr rfl) mapDesc valid.1
    obtain ⟨usedMapped, known⟩ := map_maps descMapped (Or.inl known) mapUsed valid.2.1
    obtain ⟨availMapped, _⟩ := map_maps usedMapped (Or.inl known) mapAvail valid.2.2
    simpa [modern] using availMapped

def ringCalls (addr : VringAddr) (host : HostAnswers) : List (UInt64 × Option HostPages) :=
  if addr.legacy then [(addr.pfn.toUInt64 * addr.pgsize.toUInt64, host.ring)]
  else [(halves addr.descHi addr.descLo, host.desc), (halves addr.usedHi addr.usedLo, host.used),
    (halves addr.availHi addr.availLo, host.avail)]

/-- Whether the rings are mapped, and with which model, depends on their addresses
and on the answers alone. -/
theorem map_rings_latch (vq : VirtQueue) (nrDescs : Nat) (demu : DemuState) (host : HostAnswers) :
    (mapRings vq nrDescs demu host).map (fun rings => rings.2.useGnttab) =
      latchAll demu.useGnttab (ringCalls vq.vringAddr host) := by
  unfold mapRings ringCalls
  cases legacy : vq.vringAddr.legacy
  case true =>
    simp only [legacy, if_true]
    generalize vringSize (UInt32.ofNat nrDescs) vq.vringAddr.align = size
    cases first : latch demu.useGnttab
        (grantAddress (vq.vringAddr.pfn.toUInt64 * vq.vringAddr.pgsize.toUInt64)) with
    | none => simp [latchAll, first, map_range_refused size _ first]
    | some model =>
        obtain ⟨p, after, mapped, known, null⟩ := map_range_latched size host.ring first
        by_cases missing : p = 0
        · simp [latchAll, first, mapped, missing, null.mp missing]
        · simp [latchAll, first, mapped, missing, null.not.mp missing, known]
  case false =>
    simp only [legacy, Bool.false_eq_true, if_false]
    cases first : latch demu.useGnttab
        (grantAddress (halves vq.vringAddr.descHi vq.vringAddr.descLo)) with
    | none => simp [latchAll, first, map_range_refused pageSize _ first]
    | some descModel =>
        obtain ⟨desc, afterDesc, mapDesc, descKnown, noDesc⟩ :=
          map_range_latched pageSize host.desc first
        cases second : latch (some descModel)
            (grantAddress (halves vq.vringAddr.usedHi vq.vringAddr.usedLo)) with
        | none =>
            have refused := map_range_refused pageSize host.used (descKnown ▸ second)
            simp [latchAll, first, mapDesc, second, refused]
        | some usedModel =>
            obtain ⟨used, afterUsed, mapUsed, usedKnown, noUsed⟩ :=
              map_range_latched pageSize host.used (descKnown ▸ second)
            cases third : latch (some usedModel)
                (grantAddress (halves vq.vringAddr.availHi vq.vringAddr.availLo)) with
            | none =>
                have refused := map_range_refused pageSize host.avail (usedKnown ▸ third)
                simp [latchAll, first, mapDesc, second, mapUsed, third, refused]
            | some availModel =>
                obtain ⟨avail, afterAvail, mapAvail, availKnown, noAvail⟩ :=
                  map_range_latched pageSize host.avail (usedKnown ▸ third)
                simp only [latchAll, first, mapDesc, second, mapUsed, third, mapAvail, ← noDesc,
                  ← noUsed, ← noAvail, Option.bind_eq_bind, Option.bind_some]
                by_cases missing : desc = 0 ∨ used = 0 ∨ avail = 0
                · rcases missing with null | null | null <;> simp [null]
                · simp only [not_or] at missing
                  simp [missing, availKnown]

theorem unmap_rings_holds {vq : VirtQueue} {demu : DemuState} (held : Holds demu (ringRanges vq)) :
    (unmapRings vq demu).held = [] := by
  rw [← holds_nil]
  unfold unmapRings
  generalize ringRanges vq = ranges at held
  induction ranges generalizing demu with
  | nil => exact held
  | cons range rest ih => exact ih (unmap_holds held)

theorem mask_or_right_word (x y z : UInt32) : (x ||| y) &&& z = (x &&& z) ||| (y &&& z) :=
  UInt32.toBitVec_inj.mp BitVec.and_or_distrib_right

/-- The eight bits that a guest writes do not reach START. -/
theorem status_word_start (dev : MmioDevice) (status : UInt8) :
    statusWord dev status &&& virtioStatusStart = dev.vdev.status &&& virtioStatusStart := by
  have untouched : ~~~virtioConfigSMask &&& virtioStatusStart = virtioStatusStart := by decide
  have low : status.toUInt32 &&& virtioStatusStart = 0 := by
    rw [← UInt32.toNat_inj, UInt32.toNat_and, UInt8.toNat_toUInt32]
    apply Nat.eq_of_testBit_eq
    intro i
    rw [Nat.testBit_and, show virtioStatusStart.toNat = 2 ^ 8 from rfl, Nat.testBit_two_pow]
    by_cases eighth : 8 = i
    · subst eighth
      simp [Nat.testBit_lt_two_pow status.toNat_lt]
    · simp [eighth]
  rw [statusWord, mask_or_right_word, low, UInt32.or_zero, UInt32.and_assoc, untouched]

theorem reset_first (dev : MmioDevice) : virtioMmioReset dev = virtioExitVq dev 0 := by
  unfold virtioMmioReset numVirtQueues virtioMmioExitVq
  cases exited : virtioExitVq dev 0 <;> simp [exited, List.range_succ]

theorem exit_vq_set_status (dev : MmioDevice) (word : UInt32) :
    virtioExitVq (dev.setStatus word) 0 =
      (virtioExitVq dev 0).map fun exited => exited.setStatus word := by
  rw [exit_vq_first, exit_vq_first]
  cases enabled : dev.vq.enabled with
  | false => simp [MmioDevice.setStatus, enabled, Except.map]
  | true =>
      by_cases alive : dev.ioThread ∈ dev.threads <;>
        simp [MmioDevice.setStatus, stoppedDevice, enabled, alive, Except.map]

theorem swab_set_status (dev : MmioDevice) (word : UInt32) (status : UInt8) :
    ∃ settled, settled &&& virtioStatusStart = word &&& virtioStatusStart ∧
      swabOnReset (dev.setStatus word) status = dev.setStatus settled := by
  have apart : virtioStatusSwab &&& virtioStatusStart = 0 := by decide
  unfold swabOnReset
  split
  · exact ⟨word ||| virtioStatusSwab, by rw [mask_or_right_word, apart, UInt32.or_zero], rfl⟩
  · exact ⟨word, rfl, rfl⟩

/-- A write of 0 while START is set takes queue 0 down. No other one touches it.
START is set by DRIVER_OK and cleared by 0. -/
theorem notify_status_shape (dev : MmioDevice) (status : UInt8) : ∃ word,
    (word &&& virtioStatusStart ≠ 0 ↔ status ≠ 0 ∧
      (status &&& virtioConfigSDriverOk ≠ 0 ∨ dev.vdev.status &&& virtioStatusStart ≠ 0)) ∧
    virtioNotifyStatus dev status =
      if status = 0 ∧ dev.vdev.status &&& virtioStatusStart ≠ 0 then
        (virtioExitVq dev 0).map fun exited => exited.setStatus word
      else .ok (dev.setStatus word) := by
  have start := status_word_start dev status
  have silent : ¬ (0 : UInt8) &&& virtioConfigSDriverOk ≠ 0 := by decide
  by_cases started : dev.vdev.status &&& virtioStatusStart = 0
  · by_cases running : status &&& virtioConfigSDriverOk = 0
    · obtain ⟨settled, bit, same⟩ := swab_set_status dev (statusWord dev status) status
      refine ⟨settled, ?_, ?_⟩
      · simp [bit, start, started, running]
      · simpa [virtioNotifyStatus, start, started, running, bind, Except.bind] using same
    · obtain ⟨settled, bit, same⟩ :=
        swab_set_status dev (statusWord dev status ||| virtioStatusStart) status
      have nonzero : status ≠ 0 := fun zero => running (by rw [zero]; decide)
      refine ⟨settled, ?_, ?_⟩
      · have set : virtioStatusStart ≠ 0 := by decide
        simp [bit, mask_or_right_word, start, started, running, nonzero, set]
      · simpa [virtioNotifyStatus, start, started, running, nonzero, bind, Except.bind] using same
  · by_cases zero : status = 0
    · subst zero
      cases exited : virtioExitVq dev 0 with
      | error fault =>
          refine ⟨0, by simp, ?_⟩
          simp [virtioNotifyStatus, start, started, reset_first, exit_vq_set_status, exited,
            Except.map, bind, Except.bind]
      | ok next =>
          obtain ⟨settled, bit, same⟩ :=
            swab_set_status next (statusWord dev 0 &&& ~~~virtioStatusStart) 0
          refine ⟨settled, ?_, ?_⟩
          · simp [bit, UInt32.and_assoc]
          · simpa [virtioNotifyStatus, silent, start, started, reset_first, exit_vq_set_status,
              exited, Except.map, bind, Except.bind] using same
    · obtain ⟨settled, bit, same⟩ := swab_set_status dev (statusWord dev status) status
      refine ⟨settled, ?_, ?_⟩
      · simp [bit, start, started, zero]
      · simpa [virtioNotifyStatus, start, started, zero, bind, Except.bind] using same

theorem notify_status_reset (dev : MmioDevice)
    (started : dev.vdev.status &&& virtioStatusStart ≠ 0) :
    ∃ word, virtioNotifyStatus dev 0 =
      (virtioExitVq dev 0).map fun exited => exited.setStatus word := by
  obtain ⟨word, _, shape⟩ := notify_status_shape dev 0
  exact ⟨word, by rw [shape, if_pos ⟨rfl, started⟩]⟩

theorem notify_status_other (dev : MmioDevice) (status : UInt8)
    (other : status = 0 → dev.vdev.status &&& virtioStatusStart = 0) :
    ∃ word, virtioNotifyStatus dev status = .ok (dev.setStatus word) := by
  obtain ⟨word, _, shape⟩ := notify_status_shape dev status
  exact ⟨word, by rw [shape, if_neg fun reset => reset.2 (other reset.1)]⟩

theorem notify_status_ok {dev next : MmioDevice} {status : UInt8}
    (done : virtioNotifyStatus dev status = .ok next) :
    ∃ settled word, next = settled.setStatus word ∧
      (settled = dev ∨ virtioExitVq dev 0 = .ok settled) := by
  obtain ⟨word, _, shape⟩ := notify_status_shape dev status
  rw [shape] at done
  split at done
  · cases exited : virtioExitVq dev 0 with
    | error fault => simp [exited, Except.map] at done
    | ok settled =>
        simp only [exited, Except.map, Except.ok.injEq] at done
        exact ⟨settled, word, done.symm, Or.inr rfl⟩
  · cases done
    exact ⟨dev, word, rfl, Or.inl rfl⟩

end VirtioDisk.MmioRegisters
