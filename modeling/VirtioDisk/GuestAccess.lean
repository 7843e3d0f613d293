import VirtioDisk.ByteStore
import VirtioDisk.MmioRegisters

/-!
All accesses of the guest to the windows of a device. The register reads are
those of virtio/mmio-legacy.c and virtio/mmio-modern.c, the config space is that
of virtio/core.c. A read gives the data word of the ioreq, which is 0 before the
callback. Members of `struct blk_dev` are the bytes from `blk_config` on: first
`struct virtio_blk_config`, whose size the system headers define, then the disk
pointer, the queues and the request slots.
-/

namespace VirtioDisk.GuestAccess

open ByteStore MmioRegisters Virtqueue

def virtioMmioMagic : UInt32 := 0x74726976
def virtioIdBlock : UInt32 := 2
def vendorLkvm : UInt32 := 0x4d564b4c
def virtioFVersion1 : UInt64 := 32
def virtioFAccessPlatform : UInt64 := 33

/-- The registers that a read can reach, in either transport. -/
inductive ReadRegister where
  | magicValue | version | deviceId | vendorId | deviceFeatures | queueNumMax | queuePfn
  | queueReady | interruptStatus | status
  | queueDescLow | queueDescHigh | queueAvailLow | queueAvailHigh | queueUsedLow | queueUsedHigh
  | configGeneration
  deriving DecidableEq

def ReadRegister.offset : ReadRegister → UInt32
  | .magicValue => 0x000
  | .version => 0x004
  | .deviceId => 0x008
  | .vendorId => 0x00c
  | .deviceFeatures => 0x010
  | .queueNumMax => 0x034
  | .queuePfn => 0x040
  | .queueReady => 0x044
  | .interruptStatus => 0x060
  | .status => 0x070
  | .queueDescLow => 0x080
  | .queueDescHigh => 0x084
  | .queueAvailLow => 0x090
  | .queueAvailHigh => 0x094
  | .queueUsedLow => 0x0a0
  | .queueUsedHigh => 0x0a4
  | .configGeneration => 0x0fc

def readRegisters : List ReadRegister :=
  [.magicValue, .version, .deviceId, .vendorId, .deviceFeatures, .queueNumMax, .queuePfn,
    .queueReady, .interruptStatus, .status,
    .queueDescLow, .queueDescHigh, .queueAvailLow, .queueAvailHigh, .queueUsedLow, .queueUsedHigh,
    .configGeneration]

def readRegisterAt (addr : UInt32) : Option ReadRegister :=
  readRegisters.find? fun register => register.offset == addr

/-- The words of the header that no write changes. -/
def hdrVersion (dev : MmioDevice) : UInt32 := if dev.vdev.legacy then 1 else 2

def selectedWord (dev : MmioDevice) (word : VirtQueue → UInt32) : Except Fault UInt32 := do
  let vq ← getVq dev dev.hdr.queueSel
  .ok (word vq)

namespace Modern

def virtioMmioConfigIn (dev : MmioDevice) (addr : UInt32) : Except Fault UInt32 :=
  match readRegisterAt addr with
  | some .magicValue => .ok virtioMmioMagic
  | some .version => .ok (hdrVersion dev)
  | some .deviceId => .ok virtioIdBlock
  | some .vendorId => .ok vendorLkvm
  | some .status => .ok dev.hdr.status
  | some .interruptStatus => .ok dev.hdr.interruptState
  | some .deviceFeatures =>
      let features := 1 <<< virtioFVersion1 ||| 1 <<< virtioFAccessPlatform ||| getHostFeatures dev
      if 1 < dev.hdr.hostFeaturesSel then .ok 0
      else .ok (features >>> (32 * dev.hdr.hostFeaturesSel.toUInt64)).toUInt32
  | some .queueNumMax => .ok (UInt32.ofNat (getSizeVq dev dev.hdr.queueSel))
  | some .queueReady => selectedWord dev fun vq => if vq.enabled then 1 else 0
  | some .queueDescLow => selectedWord dev fun vq => vq.vringAddr.descLo
  | some .queueDescHigh => selectedWord dev fun vq => vq.vringAddr.descHi
  | some .queueUsedLow => selectedWord dev fun vq => vq.vringAddr.usedLo
  | some .queueUsedHigh => selectedWord dev fun vq => vq.vringAddr.usedHi
  | some .queueAvailLow => selectedWord dev fun vq => vq.vringAddr.availLo
  | some .queueAvailHigh => selectedWord dev fun vq => vq.vringAddr.availHi
  | _ => .ok 0

end Modern

namespace Legacy

def virtioMmioConfigIn (dev : MmioDevice) (addr : UInt32) : Except Fault UInt32 :=
  match readRegisterAt addr with
  | some .magicValue => .ok virtioMmioMagic
  | some .version => .ok (hdrVersion dev)
  | some .deviceId => .ok virtioIdBlock
  | some .vendorId => .ok vendorLkvm
  | some .status => .ok dev.hdr.status
  | some .interruptStatus => .ok dev.hdr.interruptState
  | some .deviceFeatures =>
      if dev.hdr.hostFeaturesSel = 0 then .ok (getHostFeatures dev).toUInt32 else .ok 0
  | some .queuePfn => selectedWord dev fun vq => vq.vringAddr.pfn
  | some .queueNumMax => .ok (UInt32.ofNat (getSizeVq dev dev.hdr.queueSel))
  | _ => .ok 0

end Legacy

/-- A read below the config space. -/
structure RegisterRead where
  offset : UInt32
  len : UInt32
  register : offset < virtioMmioConfig

def readCallback (dev : MmioDevice) (r : RegisterRead) : Except Fault UInt32 :=
  if dev.vdev.legacy then Legacy.virtioMmioConfigIn dev r.offset
  else if r.len ≠ 4 then .ok 0
  else Modern.virtioMmioConfigIn dev r.offset

abbrev Members := Nat → UInt8

/-- The queue record is kept in `mmio`: a write behind the config is followed in the
bytes alone. -/
structure BlkMmio where
  mmio : MmioDevice
  config : Members

/-- The sizes that virtio_read_config and virtio_write_config know. -/
def ConfigSize (len : Nat) : Prop := len = 1 ∨ len = 2 ∨ len = 4

instance (len : Nat) : Decidable (ConfigSize len) := inferInstanceAs (Decidable (_ ∨ _))

-- Neither compares the end of the access with the size of the config.
def virtioReadConfig (bdev : Members) (offset size : Nat) : UInt32 :=
  if ConfigSize size then UInt32.ofNat (littleEndian bdev offset size) else 0

/-- The first `len` bytes of a data word. -/
def wordBytes (data : UInt32) (len : Nat) : List UInt8 :=
  (List.range len).map fun i => (data >>> UInt32.ofNat (8 * i)).toUInt8

def virtioWriteConfig (bdev : Members) (offset size : Nat) (data : UInt32) : Members :=
  if ConfigSize size then writeRange bdev offset (wordBytes data size) else bdev

/-- What the guest does to the device. `served` is the I/O thread at work in between. -/
inductive Access where
  | write (w : RegisterWrite) (host : HostAnswers)
  | read (r : RegisterRead)
  | configWrite (offset len : Nat) (data : UInt32)
  | configRead (offset len : Nat)
  | served (lastAvailIdx lastUsedSignalled : UInt16) (signalled : Bool)

def event (blk : BlkMmio) (e : Event) : Except Fault BlkMmio :=
  match step blk.mmio e with
  | .error fault => .error fault
  | .ok mmio => .ok { blk with mmio := mmio }

/-- One access, with what a read replies. -/
def access (blk : BlkMmio) : Access → Except Fault (BlkMmio × UInt32)
  | .write w host => do
      let next ← event blk (.write w host)
      .ok (next, 0)
  | .read r =>
      match readCallback blk.mmio r with
      | .error fault => .error fault
      | .ok value => .ok (blk, value)
  | .configWrite offset len data =>
      .ok ({ blk with config := virtioWriteConfig blk.config offset len data }, 0)
  | .configRead offset len => .ok (blk, virtioReadConfig blk.config offset len)
  | .served lastAvailIdx lastUsedSignalled signalled => do
      let next ← event blk (.served lastAvailIdx lastUsedSignalled signalled)
      .ok (next, 0)

def accessStep (blk : BlkMmio) (a : Access) : Except Fault BlkMmio :=
  (access blk a).map Prod.fst

/-- A device as virtio_blk__init_one creates it, with its config filled in. -/
def createdBlk (legacy readonly : Bool) (useGnttab : Option Bool) (config : Members) : BlkMmio :=
  ⟨created legacy readonly useGnttab, config⟩

/-! Accesses that end with the first `size` bytes depend on these alone. -/

def Agree (size : Nat) (first second : Members) : Prop := ∀ i < size, first i = second i

/-- The access does nothing, or ends with the config. -/
def Fits (size offset len : Nat) : Prop := ConfigSize len → offset + len ≤ size

instance (size offset len : Nat) : Decidable (Fits size offset len) :=
  inferInstanceAs (Decidable (_ → _))

section Config
variable {size offset len : Nat} {first second bdev : Members}

@[simp] theorem length_wordBytes (data : UInt32) (len : Nat) :
    (wordBytes data len).length = len := by
  simp [wordBytes]

theorem write_agrees (agree : Agree size first second) (data : UInt32) :
    Agree size (virtioWriteConfig first offset len data)
      (virtioWriteConfig second offset len data) := by
  intro i here
  unfold virtioWriteConfig
  split
  · exact writeRange_congr _ _ (agree i here)
  · exact agree i here

theorem write_outside (fits : Fits size offset len) (data : UInt32) {i : Nat}
    (outside : size ≤ i) : virtioWriteConfig bdev offset len data i = bdev i := by
  unfold virtioWriteConfig
  split
  · next known =>
      have ends := fits known
      exact writeRange_outside _ _ _ _ (Or.inr (by rw [length_wordBytes]; omega))
  · rfl

theorem read_agrees (fits : Fits size offset len) (agree : Agree size first second) :
    virtioReadConfig first offset len = virtioReadConfig second offset len := by
  unfold virtioReadConfig
  split
  · next known =>
      have ends := fits known
      congr 1
      exact littleEndian_congr fun i below => agree _ (by omega)
  · rfl

end Config

end VirtioDisk.GuestAccess
