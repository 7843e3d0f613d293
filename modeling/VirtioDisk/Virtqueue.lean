import VirtioDisk.RingWindow
import Mathlib.Data.List.Basic

/-!
The split virtqueue of include/kvm/virtio.h and the ring functions of
virtio/core.c. `RingMemory` is the guest memory behind the three pointers of a
`struct vring`; both sides write it. Flexible array members are functions of
the index, so that `ring[num]`, where the event indices live, is a cell like
any other. VIRTIO_RING_ENDIAN is the endianness of the host, so the guest/host
conversions of this build are the identity and are not written.
-/

namespace VirtioDisk.Virtqueue

open RingWindow

def vringDescFNext : UInt16 := 1
def vringDescFWrite : UInt16 := 2
def vringDescFIndirect : UInt16 := 4
def vringAvailFNoInterrupt : UInt16 := 1

structure VringDesc where
  addr : UInt64
  len : UInt32
  flags : UInt16
  next : UInt16
  deriving DecidableEq

structure VringAvail where
  flags : UInt16
  idx : UInt16
  ring : Nat → UInt16

structure VringUsedElem where
  id : UInt32
  len : UInt32
  deriving DecidableEq

structure VringUsed where
  flags : UInt16
  idx : UInt16
  ring : Nat → VringUsedElem

structure RingMemory where
  desc : Nat → VringDesc
  avail : VringAvail
  used : VringUsed

/-- The pointers are addresses in the server; 0 is NULL. -/
structure Vring where
  num : Nat
  desc : UInt64
  avail : UInt64
  used : UInt64
  deriving DecidableEq

/-- The two descriptions of `struct vring_addr` are one union of six words. -/
structure VringAddr where
  legacy : Bool
  descLo : UInt32
  descHi : UInt32
  availLo : UInt32
  availHi : UInt32
  usedLo : UInt32
  usedHi : UInt32
  deriving DecidableEq

def VringAddr.pfn (addr : VringAddr) : UInt32 := addr.descLo
def VringAddr.align (addr : VringAddr) : UInt32 := addr.descHi
def VringAddr.pgsize (addr : VringAddr) : UInt32 := addr.availLo

structure VirtQueue where
  vring : Vring
  vringAddr : VringAddr
  lastAvailIdx : UInt16
  lastUsedSignalled : UInt16
  endian : UInt16
  useEventIdx : Bool
  enabled : Bool
  deriving DecidableEq

def vringUsedEvent (ring : RingMemory) (vring : Vring) : UInt16 :=
  ring.avail.ring vring.num

def vringAvailEvent (ring : RingMemory) (vring : Vring) : UInt16 :=
  (ring.used.ring vring.num).id.toUInt16

-- The avail event is the first half word of the element behind the used ring.
def setVringAvailEvent (ring : RingMemory) (vring : Vring) (event : UInt16) : RingMemory :=
  let behind := ring.used.ring vring.num
  let cell := { behind with id := (behind.id &&& 0xffff0000) ||| event.toUInt32 }
  { ring with used := { ring.used with ring := put ring.used.ring vring.num cell } }

def vringNeedEvent (eventIdx newIdx old : UInt16) : Bool :=
  decide (newIdx - eventIdx - 1 < newIdx - old)

def virtQueueUsedIdxAdvance (ring : RingMemory) (jump : UInt16) : RingMemory :=
  { ring with used := { ring.used with idx := ring.used.idx + jump } }

def virtQueueSetUsedElemNoUpdate (ring : RingMemory) (queue : VirtQueue) (head len : UInt32)
    (offset : UInt16) : RingMemory :=
  let idx := ring.used.idx + offset
  { ring with used :=
      { ring.used with ring := put ring.used.ring (idx.toNat % queue.vring.num) ⟨head, len⟩ } }

def virtQueueSetUsedElem (ring : RingMemory) (queue : VirtQueue) (head len : UInt32) :
    RingMemory :=
  virtQueueUsedIdxAdvance (virtQueueSetUsedElemNoUpdate ring queue head len 0) 1

def virtQueuePop (ring : RingMemory) (queue : VirtQueue) : UInt16 × VirtQueue :=
  (ring.avail.ring (queue.lastAvailIdx.toNat % queue.vring.num),
    { queue with lastAvailIdx := queue.lastAvailIdx + 1 })

/-! `virt_queue__available` stores the avail event and then loads the avail
index. The two halves are separate definitions because the driver may run in
between; the full barrier keeps their order. -/

def virtQueueAvailableStore (ring : RingMemory) (vq : VirtQueue) : RingMemory :=
  if vq.vring.avail ≠ 0 ∧ vq.useEventIdx = true then
    setVringAvailEvent ring vq.vring vq.lastAvailIdx
  else ring

def virtQueueAvailableLoad (ring : RingMemory) (vq : VirtQueue) : Bool :=
  if vq.vring.avail = 0 then false else ring.avail.idx != vq.lastAvailIdx

def virtQueueAvailable (ring : RingMemory) (vq : VirtQueue) : Bool × RingMemory :=
  let stored := virtQueueAvailableStore ring vq
  (virtQueueAvailableLoad stored vq, stored)

def virtioQueueShouldSignal (ring : RingMemory) (vq : VirtQueue) : Bool × VirtQueue :=
  if vq.useEventIdx = false then
    (ring.avail.flags &&& vringAvailFNoInterrupt == 0, vq)
  else
    let oldIdx := vq.lastUsedSignalled
    let newIdx := ring.used.idx
    let eventIdx := vringUsedEvent ring vq.vring
    if vringNeedEvent eventIdx newIdx oldIdx then
      (true, { vq with lastUsedSignalled := newIdx })
    else (false, vq)

theorem set_avail_event_ring (ring : RingMemory) (vring : Vring) (event : UInt16) (key : Nat)
    (inside : key < vring.num) :
    (setVringAvailEvent ring vring event).used.ring key = ring.used.ring key :=
  put_other _ _ _ _ (by omega)

theorem low_half_replaced (word : UInt32) (half : UInt16) :
    ((word &&& 0xffff0000) ||| half.toUInt32).toUInt16 = half := by
  apply UInt16.toBitVec_inj.mp
  ext i bound
  simp

@[simp] theorem avail_event_set (ring : RingMemory) (vring : Vring) (event : UInt16) :
    vringAvailEvent (setVringAvailEvent ring vring event) vring = event := by
  simp only [vringAvailEvent, setVringAvailEvent, put_same]
  exact low_half_replaced _ event

@[simp] theorem available_store_avail (ring : RingMemory) (vq : VirtQueue) :
    (virtQueueAvailableStore ring vq).avail = ring.avail := by
  unfold virtQueueAvailableStore
  split <;> rfl

@[simp] theorem available_store_used_idx (ring : RingMemory) (vq : VirtQueue) :
    (virtQueueAvailableStore ring vq).used.idx = ring.used.idx := by
  unfold virtQueueAvailableStore
  split <;> rfl

theorem available_store_used_ring (ring : RingMemory) (vq : VirtQueue) (key : Nat)
    (inside : key < vq.vring.num) :
    (virtQueueAvailableStore ring vq).used.ring key = ring.used.ring key := by
  unfold virtQueueAvailableStore
  split
  · exact set_avail_event_ring ring vq.vring vq.lastAvailIdx key inside
  · rfl

theorem available_load_iff (ring : RingMemory) (vq : VirtQueue) (mapped : vq.vring.avail ≠ 0) :
    virtQueueAvailableLoad ring vq = true ↔ ring.avail.idx ≠ vq.lastAvailIdx := by
  simp [virtQueueAvailableLoad, mapped]

theorem should_signal_queue (ring : RingMemory) (vq : VirtQueue) :
    (virtioQueueShouldSignal ring vq).2.useEventIdx = vq.useEventIdx ∧
      (virtioQueueShouldSignal ring vq).2.vring = vq.vring := by
  unfold virtioQueueShouldSignal
  split
  · exact ⟨rfl, rfl⟩
  · simp only
    split <;> exact ⟨rfl, rfl⟩

/-- Rings of zeroes, and a queue of `num` entries just activated over them. -/
def blankRing : RingMemory where
  desc := fun _ => ⟨0, 0, 0, 0⟩
  avail := ⟨0, 0, fun _ => 0⟩
  used := ⟨0, 0, fun _ => ⟨0, 0⟩⟩

def activatedQueue (num : Nat) : VirtQueue where
  vring := ⟨num, 0x10000, 0x11000, 0x12000⟩
  vringAddr := ⟨false, 0x10000, 0, 0x11000, 0, 0x12000, 0⟩
  lastAvailIdx := 0
  lastUsedSignalled := 0
  endian := 1
  useEventIdx := true
  enabled := true

end VirtioDisk.Virtqueue
