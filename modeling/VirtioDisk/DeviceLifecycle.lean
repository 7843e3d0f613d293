import Mathlib.Data.List.Perm.Subperm
import VirtioDisk.Ledger
import VirtioDisk.Transition

/-!
`device_initialize` and `device_teardown` with the callbacks behind them, of which
there are two: the one of the disk images and the one of the block devices. What is
followed are descriptors, mappings and disks of the images, the block devices and
their memory spaces; other memory is left out. The build has no AIO, and no image
has a wwpn.
-/

namespace VirtioDisk.DeviceLifecycle

open Ledger Transition

inductive Resource where
  | blkFd (image : Nat)
  | fd (image : Nat)
  | disk (image : Nat)
  | mapping (image : Nat)
  | blkDev (image : Nat)
  | space (start : UInt64)
  deriving DecidableEq

/-- Null and error pointers that are followed, and the copy of more images than
`kvm->cfg` has room for. -/
inductive Crash where
  | errorPointer
  | nullPointer
  | overrun
  deriving DecidableEq

/-- What the two checks of `qcow_probe` find in the header. -/
inductive Format where
  | plain
  | qcow1
  | qcow2
  deriving DecidableEq

/-- The parameters of an image, and what its file is. -/
structure Image where
  readonly : Bool
  addr : UInt32
  block : Bool
  format : Format

/-- What the calls for one image come to. `qcowParts` are the reads and allocations of
the probe up to `disk_image__new`; the `new` fields are the allocations of the latter,
in `blkdev__probe`, the qcow probe, and `raw_image__probe`. -/
structure Host where
  stat : Bool
  mounted : Bool
  openBlk : Bool
  ioctl : Bool
  newBlk : Bool
  openFile : Bool
  qcowParts : Bool
  newQcow : Bool
  newMmap : Bool
  mmap : Bool
  newRaw : Bool
  blkDev : Bool
  virtio : Bool
  space : Bool
  mapRange : Bool

abbrev Log := List (Entry Resource)

def acquire (log : Log) (r : Resource) : Log := log ++ [.acquired r]

def release (log : Log) (r : Resource) : Log := log ++ [.released r]

/-! The images. -/

/-- The operations of a disk, by their `close`. -/
inductive Ops where
  | generic
  | mapped
  | qcow
  deriving DecidableEq

structure DiskImage where
  index : Nat
  fd : Resource
  ops : Ops
  addr : UInt32

section Images
variable (index : Nat) (image : Image) (host : Host)

def diskImageNew (malloc : Bool) (fd : Resource) (ops : Ops) (log : Log) :
    Option DiskImage × Log :=
  if malloc then (some ⟨index, fd, ops, image.addr⟩, acquire log (.disk index)) else (none, log)

def diskImageNewMmap (fd : Resource) (log : Log) : Option DiskImage × Log :=
  if host.newMmap then
    let log := acquire log (.disk index)
    if host.mmap then (some ⟨index, fd, .mapped, image.addr⟩, acquire log (.mapping index))
    else (none, release log (.disk index))
  else (none, log)

def blkdevProbe (log : Log) : Option DiskImage × Log :=
  if ¬ image.block then (none, log)
  else if host.mounted then (none, log)
  else if ¬ host.openBlk then (none, log)
  else
    let log := acquire log (.blkFd index)
    if ¬ host.ioctl then (none, release log (.blkFd index))
    else diskImageNew index image host.newBlk (.blkFd index) .generic log

-- The probe of the first version does not know an error pointer from a disk.
def qcowProbe (fd : Resource) (log : Log) : Except Crash (Option DiskImage × Log) :=
  match image.format with
  | .plain => .ok (none, log)
  | .qcow1 =>
      if ¬ host.qcowParts then .ok (none, log)
      else if ¬ host.newQcow then .error .errorPointer
      else .ok (diskImageNew index image true fd .qcow log)
  | .qcow2 =>
      if ¬ host.qcowParts then .ok (none, log)
      else .ok (diskImageNew index image host.newQcow fd .qcow log)

def rawImageProbe (fd : Resource) (log : Log) : Option DiskImage × Log :=
  if image.readonly then
    match diskImageNewMmap index image host fd log with
    | (some disk, log) => (some disk, log)
    | (none, log) => diskImageNew index image host.newRaw fd .generic log
  else diskImageNew index image host.newRaw fd .generic log

def diskImageOpen (log : Log) : Except Crash (Option DiskImage × Log) :=
  if ¬ host.stat then .ok (none, log)
  else
    match blkdevProbe index image host log with
    | (some disk, log) => .ok (some disk, log)
    | (none, log) =>
        if ¬ host.openFile then .ok (none, log)
        else do
          let (disk, log) ← qcowProbe index image host (.fd index) (acquire log (.fd index))
          match disk with
          | some disk => .ok (some disk, log)
          | none =>
              match rawImageProbe index image host (.fd index) log with
              | (some disk, log) => .ok (some disk, log)
              | (none, log) => .ok (none, release log (.fd index))

end Images

/-- `munmap` is all that the mapped operations do, and the qcow operations free only
memory of their own. -/
def diskImageClose (log : Log) (disk : DiskImage) : Log :=
  match disk.ops with
  | .generic => release (release log disk.fd) (.disk disk.index)
  | .mapped => release log (.mapping disk.index)
  | .qcow => log

def openEach (host : Nat → Host) :
    Nat → List Image → List DiskImage → Log → Except Crash (Option (List DiskImage) × Log)
  | _, [], disks, log => .ok (some disks, log)
  | index, image :: rest, disks, log => do
      let (disk, log) ← diskImageOpen index image (host index) log
      match disk with
      | none => .ok (none, disks.foldl diskImageClose log)
      | some disk => openEach host (index + 1) rest (disks ++ [disk]) log

def diskImageCloseAll (disks : List DiskImage) (log : Log) : Log :=
  disks.reverse.foldl diskImageClose log

/-! The block devices. -/

/-- `hasOps` is whether `virtio_init` has come to `vdev->ops`. -/
structure BlkDev where
  index : Nat
  addr : UInt32
  hasOps : Bool

/-- `memory` are the starts of `demu_state.memory`. -/
structure State where
  log : Log
  memory : List UInt64
  bdevs : List BlkDev

def virtioMmioIoSize : UInt64 := 0x200

def demuFindSpace (memory : List UInt64) (addr : UInt64) : Bool :=
  memory.any fun start => start ≤ addr && addr ≤ start + virtioMmioIoSize - 1

def demuDeregisterMemorySpace (s : State) (start : UInt64) : State :=
  if start ∈ s.memory then
    { s with memory := s.memory.erase start, log := release s.log (.space start) }
  else s

def demuRegisterMemorySpace (host : Host) (s : State) (start : UInt64) : Bool × State :=
  if demuFindSpace s.memory start ∨ demuFindSpace s.memory (start + virtioMmioIoSize - 1) then
    (false, s)
  else if ¬ host.space then (false, s)
  else
    let s := { s with memory := start :: s.memory, log := acquire s.log (.space start) }
    if host.mapRange then (true, s) else (false, demuDeregisterMemorySpace s start)

def virtioBlkInitOne (host : Host) (s : State) (disk : DiskImage) : Bool × State :=
  if ¬ host.blkDev then (false, s)
  else
    let s := { s with
      bdevs := s.bdevs ++ [⟨disk.index, disk.addr, host.virtio⟩]
      log := acquire s.log (.blkDev disk.index) }
    if ¬ host.virtio then (false, s)
    else demuRegisterMemorySpace host s disk.addr.toUInt64

def exitEach : List BlkDev → State → Except Crash State
  | [], s => .ok s
  | bdev :: rest, s =>
      if ¬ bdev.hasOps then .error .nullPointer
      else
        let s := demuDeregisterMemorySpace { s with bdevs := rest } bdev.addr.toUInt64
        exitEach rest { s with log := release s.log (.blkDev bdev.index) }

def virtioBlkExit (s : State) : Except Crash State := exitEach s.bdevs s

def virtioBlkInit (host : Nat → Host) : List DiskImage → State → Except Crash (Bool × State)
  | [], s => .ok (true, s)
  | disk :: rest, s =>
      match virtioBlkInitOne (host disk.index) s disk with
      | (true, s) => virtioBlkInit host rest s
      | (false, s) => do
          let s ← virtioBlkExit s
          .ok (false, s)

/-! The device. -/

def maxDiskImages : Nat := 4

/-- One connection: the images of the configuration, and what the host answers. `kvm`
and `disks` are the allocations of the two of these names. -/
structure Connection where
  images : List Image
  kvm : Bool
  disks : Bool
  host : Nat → Host

def diskImageInit (c : Connection) (log : Log) : Except Crash (Option (List DiskImage) × Log) :=
  if c.images = [] then .ok (some [], log)
  else if ¬ c.disks then .ok (none, log)
  else openEach c.host 0 c.images [] log

/-- The disks, `none` for a failure. -/
def deviceInitialize (c : Connection) (s : State) :
    Except Crash (Option (List DiskImage) × State) :=
  if ¬ c.kvm then .ok (none, s)
  else if maxDiskImages < c.images.length then .error .overrun
  else do
    let (disks, log) ← diskImageInit c s.log
    match disks with
    | none => .ok (none, { s with log := log })
    | some disks =>
        let (started, s) ← virtioBlkInit c.host disks { s with log := log }
        .ok (if started then some disks else none, s)

def deviceTeardown (disks : List DiskImage) (s : State) : Except Crash State := do
  let s ← virtioBlkExit s
  .ok { s with log := diskImageCloseAll disks s.log }

/-- A turn of the main loop, for what it has to do with the device. -/
def connect (s : State) (c : Connection) : Except Crash State := do
  let (disks, s) ← deviceInitialize c s
  match disks with
  | none => .ok s
  | some disks => deviceTeardown disks s

def start : State := ⟨[], [], []⟩

end VirtioDisk.DeviceLifecycle
