import Mathlib.Algebra.BigOperators.Group.List.Basic
import Mathlib.Algebra.Order.Group.Multiset
import Mathlib.Algebra.Order.Monoid.Canonical.Defs
import Mathlib.Data.Multiset.OrderedMonoid
import VirtioDisk.DeviceLifecycle

/-!
Connections that leave nothing behind. What a connection loses is added up over
the run: no later connection gives it back. It loses nothing exactly if the disks
it opens have the close that ends them all, `disk_image__close` without an
operation of its own, and if the block devices start whenever all images open.
-/

namespace VirtioDisk.DeviceBalance

open Ledger Transition DeviceLifecycle

/-! One image. -/

section Image
variable (image : Image) (host : Host)

def AsBlock : Prop := image.block ∧ ¬ host.mounted ∧ host.openBlk ∧ host.ioctl ∧ host.newBlk

/-- The descriptor of a block device has no close on this path. -/
def LosesFd : Prop := image.block ∧ ¬ host.mounted ∧ host.openBlk ∧ host.ioctl ∧ ¬ host.newBlk

/-- `qcow_probe` has come to `disk_image__new`. -/
def QcowParts : Prop := image.format ≠ .plain ∧ host.qcowParts

def AsMapping : Prop := image.readonly ∧ host.newMmap ∧ host.mmap

def Opens : Prop :=
  host.stat ∧ (AsBlock image host ∨
    host.openFile ∧ (QcowParts image host ∧ host.newQcow ∨ AsMapping image host ∨ host.newRaw))

/-- It does not open, or as a block device or a raw image that is read and written
through its descriptor. -/
def Plain : Prop :=
  host.stat → ¬ LosesFd image host ∧ (AsBlock image host ∨
    (host.openFile → ¬ AsMapping image host ∧
      (QcowParts image host → ¬ host.newQcow ∧ image.format = .qcow2)))

end Image

theorem acquires {held : Multiset Resource} {log : Log} (holds : Holds held log) (r : Resource) :
    Holds (r ::ₘ held) (acquire log r) := holds.acquired r

theorem releases {held : Multiset Resource} {log : Log} {r : Resource}
    (holds : Holds (r ::ₘ held) log) : Holds held (release log r) := holds.released

/-- What `disk_image__close` gives back. -/
def returned (disk : DiskImage) : Multiset Resource :=
  match disk.ops with
  | .generic => {.disk disk.index, disk.fd}
  | .mapped => {.mapping disk.index}
  | .qcow => 0

theorem close_returns {disk : DiskImage} {held : Multiset Resource} {log : Log}
    (holds : Holds (returned disk + held) log) : Holds held (diskImageClose log disk) := by
  obtain ⟨index, fd, ops, addr⟩ := disk
  cases ops with
  | generic =>
      have both : Holds (fd ::ₘ .disk index ::ₘ held) log := by
        rw [Multiset.cons_swap]
        simpa [returned] using holds
      exact releases (releases both)
  | mapped =>
      have mapping : Holds (.mapping index ::ₘ held) log := by simpa [returned] using holds
      exact releases mapping
  | qcow =>
      rw [returned, Multiset.zero_add] at holds
      exact holds

section Open
variable {index : Nat} {image : Image} {host : Host} {fd : Resource}
variable {held : Multiset Resource} {log : Log}

theorem blkdev_opens (block : AsBlock image host) :
    blkdevProbe index image host log =
      (some ⟨index, .blkFd index, .generic, image.addr⟩,
        acquire (acquire log (.blkFd index)) (.disk index)) := by
  obtain ⟨block, unmounted, opened, sized, allocated⟩ := block
  simp [blkdevProbe, diskImageNew, block, unmounted, opened, sized, allocated]

theorem blkdev_loses (loses : LosesFd image host) :
    blkdevProbe index image host log = (none, acquire log (.blkFd index)) := by
  obtain ⟨block, unmounted, opened, sized, refused⟩ := loses
  simp [blkdevProbe, diskImageNew, block, unmounted, opened, sized, refused]

theorem blkdev_passes (file : ¬ AsBlock image host) (closes : ¬ LosesFd image host)
    (holds : Holds held log) :
    ∃ later, blkdevProbe index image host log = (none, later) ∧ Holds held later := by
  by_cases probed : image.block = true ∧ host.mounted = false ∧ host.openBlk = true
  · obtain ⟨block, unmounted, opened⟩ := probed
    have unsized : host.ioctl = false := by
      by_contra sized
      by_cases allocated : host.newBlk = true
      · exact file ⟨block, by simp [unmounted], opened, by simpa using sized, allocated⟩
      · exact closes ⟨block, by simp [unmounted], opened, by simpa using sized, allocated⟩
    exact ⟨release (acquire log (.blkFd index)) (.blkFd index),
      by simp [blkdevProbe, block, unmounted, opened, unsized],
      releases (acquires holds _)⟩
  · refine ⟨log, ?_, holds⟩
    by_cases block : image.block = true
    · by_cases mounted : host.mounted = true
      · simp [blkdevProbe, block, mounted]
      · have refused : host.openBlk = false := by simpa [block, mounted] using probed
        simp [blkdevProbe, block, mounted, refused]
    · simp [blkdevProbe, block]

theorem qcow_opens (parts : QcowParts image host) (allocated : host.newQcow = true) :
    qcowProbe index image host fd log =
      .ok (some ⟨index, fd, .qcow, image.addr⟩, acquire log (.disk index)) := by
  obtain ⟨versioned, parts⟩ := parts
  unfold qcowProbe
  cases format : image.format with
  | plain => exact absurd format versioned
  | qcow1 => simp [diskImageNew, parts, allocated]
  | qcow2 => simp [diskImageNew, parts, allocated]

theorem qcow_passes (harmless : QcowParts image host → ¬ host.newQcow ∧ image.format = .qcow2) :
    qcowProbe index image host fd log = .ok (none, log) := by
  unfold qcowProbe
  cases format : image.format with
  | plain => rfl
  | qcow1 =>
      by_cases parts : host.qcowParts = true
      · have version := (harmless ⟨by rw [format]; decide, parts⟩).2
        rw [format] at version
        cases version
      · simp [parts]
  | qcow2 =>
      by_cases parts : host.qcowParts = true
      · have refused := (harmless ⟨by rw [format]; decide, parts⟩).1
        simp [diskImageNew, parts, refused]
      · simp [parts]

theorem qcow_crashes (parts : QcowParts image host) (refused : ¬ host.newQcow)
    (version : image.format ≠ .qcow2) :
    qcowProbe index image host fd log = .error .errorPointer := by
  obtain ⟨versioned, parts⟩ := parts
  unfold qcowProbe
  cases format : image.format with
  | plain => exact absurd format versioned
  | qcow1 => simp [parts, refused]
  | qcow2 => exact absurd format version

theorem raw_maps (mapping : AsMapping image host) :
    rawImageProbe index image host fd log =
      (some ⟨index, fd, .mapped, image.addr⟩,
        acquire (acquire log (.disk index)) (.mapping index)) := by
  obtain ⟨readonly, allocated, mapped⟩ := mapping
  simp [rawImageProbe, diskImageNewMmap, readonly, allocated, mapped]

/-- A read-only image whose mapping fails is read through its descriptor. -/
theorem raw_falls_back (index : Nat) (fd : Resource) (unmapped : ¬ AsMapping image host) (holds : Holds held log) :
    ∃ later, Holds held later ∧
      rawImageProbe index image host fd log =
        diskImageNew index image host.newRaw fd .generic later := by
  by_cases readonly : image.readonly = true
  · by_cases allocated : host.newMmap = true
    · have refused : host.mmap = false := by
        simpa [AsMapping, readonly, allocated] using unmapped
      exact ⟨_, releases (acquires holds (.disk index)),
        by simp [rawImageProbe, diskImageNewMmap, readonly, allocated, refused]⟩
    · exact ⟨log, holds, by simp [rawImageProbe, diskImageNewMmap, readonly, allocated]⟩
  · exact ⟨log, holds, by simp [rawImageProbe, readonly]⟩

/-- What one image comes to: what is left of it beyond what its close returns is
nothing exactly if the image is plain. -/
def Opened (index : Nat) (image : Image) (host : Host) (held : Multiset Resource)
    (result : Option DiskImage × Log) : Prop :=
  ∃ leak : Multiset Resource, (leak = 0 ↔ Plain image host) ∧
    match result with
    | (none, log) => ¬ Opens image host ∧ Holds (leak + held) log
    | (some disk, log) =>
        Opens image host ∧ disk.index = index ∧ disk.addr = image.addr ∧
          returned disk + leak ≠ 0 ∧ Holds (returned disk + (leak + held)) log

-- `lost` is what the probe of a block device has lost.
theorem file_outcome (stat : host.stat = true) (file : ¬ AsBlock image host)
    {lost : Multiset Resource} (loses : lost = 0 ↔ ¬ LosesFd image host)
    (holds : Holds (lost + held) log) (openFile : host.openFile = true) :
    Outcome (Opened index image host held) (fun _ => ¬ Plain image host) (do
      let (disk, log) ← qcowProbe index image host (.fd index) (acquire log (.fd index))
      match disk with
      | some disk => .ok (some disk, log)
      | none =>
          match rawImageProbe index image host (.fd index) log with
          | (some disk, log) => .ok (some disk, log)
          | (none, log) => .ok (none, release log (.fd index))) := by
  have plain_iff : Plain image host ↔ lost = 0 ∧ ¬ AsMapping image host ∧
      (QcowParts image host → ¬ host.newQcow ∧ image.format = .qcow2) := by
    simp [Plain, stat, file, openFile, loses]
  have opens_iff : Opens image host ↔
      QcowParts image host ∧ host.newQcow ∨ AsMapping image host ∨ host.newRaw := by
    simp [Opens, stat, file, openFile]
  have opened := acquires holds (.fd index)
  by_cases harmless : QcowParts image host → ¬ host.newQcow ∧ image.format = .qcow2
  · rw [qcow_passes harmless]
    by_cases mapping : AsMapping image host
    · simp only [raw_maps mapping, bind, Except.bind, Outcome]
      refine ⟨.disk index ::ₘ .fd index ::ₘ lost, ?_, opens_iff.mpr (.inr (.inl mapping)),
        rfl, rfl, ?_, ?_⟩
      · simp [plain_iff, mapping]
      · simp
      · simp only [returned, Multiset.cons_add, Multiset.singleton_add]
        exact acquires (acquires opened (.disk index)) (.mapping index)
    · have lost_iff : lost = 0 ↔ Plain image host :=
        ⟨fun kept => plain_iff.mpr ⟨kept, mapping, harmless⟩, fun plain => (plain_iff.mp plain).1⟩
      obtain ⟨later, still, falls⟩ := raw_falls_back index (.fd index) mapping opened
      simp only [falls, bind, Except.bind, Outcome, diskImageNew]
      by_cases allocated : host.newRaw = true
      · rw [if_pos allocated]
        refine ⟨lost, lost_iff, opens_iff.mpr (.inr (.inr allocated)), rfl, rfl, ?_, ?_⟩
        · simp [returned]
        · simpa [returned] using acquires still (.disk index)
      · rw [if_neg allocated]
        refine ⟨lost, lost_iff, ?_, releases still⟩
        rw [opens_iff]
        rintro (⟨parts, disk⟩ | mapped | raw)
        · exact (harmless parts).1 disk
        · exact mapping mapped
        · exact allocated raw
  · obtain ⟨parts, harm⟩ := Classical.not_imp.mp harmless
    by_cases allocated : host.newQcow = true
    · rw [qcow_opens parts allocated]
      refine ⟨.disk index ::ₘ .fd index ::ₘ lost, ?_, opens_iff.mpr (.inl ⟨parts, allocated⟩),
        rfl, rfl, ?_, ?_⟩
      · simpa using fun plain => harmless (plain_iff.mp plain).2.2
      · simp
      · simpa [returned] using acquires opened (.disk index)
    · have version : image.format ≠ .qcow2 := fun second => harm ⟨allocated, second⟩
      rw [qcow_crashes parts allocated version]
      exact fun plain => harmless (plain_iff.mp plain).2.2

theorem open_outcome (holds : Holds held log) :
    Outcome (Opened index image host held) (fun _ => ¬ Plain image host)
      (diskImageOpen index image host log) := by
  unfold diskImageOpen
  by_cases stat : host.stat = true
  · rw [if_neg (by simp [stat])]
    by_cases block : AsBlock image host
    · rw [blkdev_opens block]
      refine ⟨0, ?_, ⟨stat, .inl block⟩, rfl, rfl, ?_, ?_⟩
      · have keeps : ¬ LosesFd image host := fun loses => loses.2.2.2.2 block.2.2.2.2
        simp [Plain, block, keeps]
      · simp [returned]
      · simpa [returned] using acquires (acquires holds (.blkFd index)) (.disk index)
    · obtain ⟨lost, later, probed, loses, still⟩ :
          ∃ (lost : Multiset Resource) (later : Log), blkdevProbe index image host log =
            (none, later) ∧ (lost = 0 ↔ ¬ LosesFd image host) ∧ Holds (lost + held) later := by
        by_cases loses : LosesFd image host
        · exact ⟨{.blkFd index}, _, blkdev_loses loses, by simp [loses],
            by simpa using acquires holds (.blkFd index)⟩
        · obtain ⟨later, probed, still⟩ := blkdev_passes block loses holds
          exact ⟨0, later, probed, by simp [loses], by simpa using still⟩
      simp only [probed]
      by_cases openFile : host.openFile = true
      · rw [if_neg (by simp [openFile])]
        exact file_outcome stat block loses still openFile
      · rw [if_pos openFile]
        refine ⟨lost, ?_, ?_, still⟩
        · simp [Plain, stat, block, openFile, loses]
        · simp [Opens, block, openFile]
  · rw [if_pos stat]
    refine ⟨0, ?_, fun opens => stat opens.1, by simpa using holds⟩
    simp [Plain, stat]

end Open

/-! All images. -/

section Images
variable (host : Nat → Host)

def EachOpens : Nat → List Image → Prop
  | _, [] => True
  | index, image :: rest => Opens image (host index) ∧ EachOpens (index + 1) rest

/-- Up to the first image that does not open. -/
def EachPlain : Nat → List Image → Prop
  | _, [] => True
  | index, image :: rest =>
      Plain image (host index) ∧ (Opens image (host index) → EachPlain (index + 1) rest)

end Images

def returnedEach (disks : List DiskImage) : Multiset Resource := (disks.map returned).sum

/-- Where the block device of a disk is: its image and its address. -/
def place (disk : DiskImage) : Nat × UInt32 := (disk.index, disk.addr)

def places : Nat → List Image → List (Nat × UInt32)
  | _, [] => []
  | index, image :: rest => (index, image.addr) :: places (index + 1) rest

section All
variable {host : Nat → Host} {held : Multiset Resource} {log : Log}

theorem close_each_returns {disks : List DiskImage}
    (holds : Holds (returnedEach disks + held) log) :
    Holds held (disks.foldl diskImageClose log) := by
  induction disks generalizing log with
  | nil => simpa [returnedEach] using holds
  | cons disk rest ih =>
      have first : Holds (returned disk + (returnedEach rest + held)) log := by
        simpa [returnedEach, add_assoc] using holds
      exact ih (close_returns first)

theorem close_all_returns {disks : List DiskImage}
    (holds : Holds (returnedEach disks + held) log) :
    Holds held (diskImageCloseAll disks log) := by
  apply close_each_returns
  have same : returnedEach disks.reverse = returnedEach disks :=
    (disks.reverse_perm.map returned).sum_eq
  rwa [same]

/-- What the images come to: a failure closes what was open, and an image that stays
open is one that its close, or nothing, ends. -/
def EachOpened (host : Nat → Host) (index : Nat) (images : List Image) (before : List DiskImage)
    (held : Multiset Resource) (result : Option (List DiskImage) × Log) : Prop :=
  ∃ leak : Multiset Resource, (leak = 0 ↔ EachPlain host index images) ∧
    match result with
    | (none, log) => ¬ EachOpens host index images ∧ Holds (leak + held) log
    | (some disks, log) =>
        EachOpens host index images ∧ ∃ opened, disks = before ++ opened ∧
          opened.map place = places index images ∧ (opened ≠ [] → returnedEach opened + leak ≠ 0) ∧
          Holds (returnedEach disks + (leak + held)) log

theorem open_each_outcome (index : Nat) (images : List Image) (before : List DiskImage)
    (holds : Holds (returnedEach before + held) log) :
    Outcome (EachOpened host index images before held) (fun _ => ¬ EachPlain host index images)
      (openEach host index images before log) := by
  induction images generalizing index before held log with
  | nil => exact ⟨0, by simp [EachPlain], trivial, [], by simp, rfl, by simp, by simpa using holds⟩
  | cons image rest ih =>
      have first : Outcome (Opened index image (host index) _) _ _ := open_outcome holds
      rw [openEach]
      cases taken : diskImageOpen index image (host index) log with
      | error crash =>
          rw [taken] at first
          exact fun plain => first plain.1
      | ok result =>
          rw [taken] at first
          obtain ⟨leak, leak_iff, later⟩ := first
          obtain ⟨_ | disk, log⟩ := result
          · obtain ⟨closed, still⟩ := later
            refine ⟨leak, ?_, fun opens => closed opens.1, close_each_returns ?_⟩
            · simp [EachPlain, leak_iff, closed]
            · rwa [add_left_comm]
          · obtain ⟨opens, same_index, same_addr, some_left, still⟩ := later
            have still : Holds (returnedEach (before ++ [disk]) + (leak + held)) log := by
              simpa [returnedEach, add_assoc, add_left_comm] using still
            have tail := ih (index + 1) (before ++ [disk]) still
            change Outcome _ _ (openEach host (index + 1) rest (before ++ [disk]) log)
            cases ended : openEach host (index + 1) rest (before ++ [disk]) log with
            | error crash =>
                rw [ended] at tail
                exact fun plain => tail (plain.2 opens)
            | ok result =>
                rw [ended] at tail
                obtain ⟨more, more_iff, later⟩ := tail
                have none_left : more + leak = 0 ↔ EachPlain host index (image :: rest) := by
                  simp [EachPlain, opens, leak_iff, more_iff, and_comm]
                obtain ⟨_ | disks, log⟩ := result
                · obtain ⟨closed, still⟩ := later
                  exact ⟨more + leak, none_left, fun each => closed each.2, by rwa [add_assoc]⟩
                · obtain ⟨each, opened, rfl, placed, left, still⟩ := later
                  refine ⟨more + leak, none_left, ⟨opens, each⟩, disk :: opened, by simp, ?_, ?_,
                    by rwa [add_assoc more]⟩
                  · simp [places, place, same_index, same_addr, ← placed]
                  · intro _ nothing
                    apply some_left
                    simp only [returnedEach, List.map_cons, List.sum_cons, add_eq_zero] at nothing ⊢
                    exact ⟨nothing.1.1, nothing.2.2⟩

end All

/-! The block devices. -/

/-- A block device that registers its memory space. -/
def Starts (host : Host) (memory : List UInt64) (addr : UInt64) : Prop :=
  host.blkDev ∧ host.virtio ∧ ¬ demuFindSpace memory addr ∧
    ¬ demuFindSpace memory (addr + virtioMmioIoSize - 1) ∧ host.space ∧ host.mapRange

def AllStart (host : Nat → Host) : List UInt64 → List (Nat × UInt32) → Prop
  | _, [] => True
  | memory, (index, addr) :: rest =>
      Starts (host index) memory addr.toUInt64 ∧ AllStart host (addr.toUInt64 :: memory) rest

def spaces (memory : List UInt64) : Multiset Resource := memory.map Resource.space

def blkDevs (bdevs : List BlkDev) : Multiset Resource :=
  bdevs.map fun bdev => Resource.blkDev bdev.index

/-- Between block devices: every memory space is the one of a block device, and every
block device has its operations. -/
structure Running (base : Multiset Resource) (s : State) : Prop where
  holds : Holds (spaces s.memory + (blkDevs s.bdevs + base)) s.log
  memory : s.memory.Subperm (s.bdevs.map fun bdev => bdev.addr.toUInt64)
  hasOps : ∀ bdev ∈ s.bdevs, bdev.hasOps

structure Idle (base : Multiset Resource) (s : State) : Prop where
  holds : Holds base s.log
  memory : s.memory = []
  bdevs : s.bdevs = []

section BlockDevices
variable {base other : Multiset Resource} {s : State}

theorem Idle.running (idle : Idle base s) : Running base s := by
  refine ⟨?_, ?_, ?_⟩
  · simpa [idle.memory, idle.bdevs, spaces, blkDevs] using idle.holds
  · simp [idle.memory]
  · simp [idle.bdevs]

@[simp] theorem deregister_bdevs (s : State) (start : UInt64) :
    (demuDeregisterMemorySpace s start).bdevs = s.bdevs := by
  unfold demuDeregisterMemorySpace
  split_ifs <;> rfl

@[simp] theorem deregister_memory (s : State) (start : UInt64) :
    (demuDeregisterMemorySpace s start).memory = s.memory.erase start := by
  unfold demuDeregisterMemorySpace
  split_ifs with member
  · rfl
  · exact (List.erase_of_not_mem member).symm

theorem deregister_holds (start : UInt64) (holds : Holds (spaces s.memory + other) s.log) :
    Holds (spaces (s.memory.erase start) + other) (demuDeregisterMemorySpace s start).log := by
  unfold demuDeregisterMemorySpace
  split_ifs with member
  · have content : spaces s.memory = .space start ::ₘ spaces (s.memory.erase start) := by
      rw [spaces, spaces, Multiset.cons_coe]
      exact Multiset.coe_eq_coe.mpr ((List.perm_cons_erase member).map _)
    rw [content, Multiset.cons_add] at holds
    exact releases holds
  · rwa [List.erase_of_not_mem member]

theorem exit_each_idle {bdevs : List BlkDev} (same : s.bdevs = bdevs) (running : Running base s) :
    ∃ final, exitEach bdevs s = .ok final ∧ Idle base final := by
  induction bdevs generalizing s with
  | nil =>
      have empty : s.memory = [] := by simpa [same] using running.memory
      refine ⟨s, rfl, ?_, empty, same⟩
      simpa [empty, same, spaces, blkDevs] using running.holds
  | cons bdev rest ih =>
      have ops : bdev.hasOps = true := running.hasOps bdev (by simp [same])
      rw [exitEach, if_neg (by simp [ops])]
      have left := deregister_holds (s := { s with bdevs := rest }) bdev.addr.toUInt64 running.holds
      refine ih (by simp) ⟨releases ?_, ?_, ?_⟩
      · simpa [same, blkDevs, ← Multiset.cons_coe] using left
      · have covered := running.memory.erase bdev.addr.toUInt64
        simpa [same] using covered
      · exact fun later member => running.hasOps later (by simp_all)

/-- `virtio_blk__exit` gives back all block devices, and their memory spaces. -/
theorem exit_idle (running : Running base s) :
    ∃ final, virtioBlkExit s = .ok final ∧ Idle base final := exit_each_idle rfl running

theorem exit_each_crashes {bdevs : List BlkDev} (bare : ∃ bdev ∈ bdevs, ¬ bdev.hasOps) :
    exitEach bdevs s = .error .nullPointer := by
  induction bdevs generalizing s with
  | nil => simp at bare
  | cons bdev rest ih =>
      by_cases ops : bdev.hasOps = true
      · rw [exitEach, if_neg (by simp [ops])]
        exact ih (by simpa [ops] using bare)
      · rw [exitEach, if_pos ops]

section Start
variable {host : Host} {start : UInt64} {disk : DiskImage}

theorem register_takes (below : ¬ demuFindSpace s.memory start)
    (above : ¬ demuFindSpace s.memory (start + virtioMmioIoSize - 1)) (space : host.space = true)
    (mapped : host.mapRange = true) :
    demuRegisterMemorySpace host s start = (true, { s with
      memory := start :: s.memory, log := acquire s.log (.space start) }) := by
  simp [demuRegisterMemorySpace, below, above, space, mapped]

theorem register_refuses (holds : Holds (spaces s.memory + other) s.log)
    (fails : ¬ (¬ demuFindSpace s.memory start ∧
      ¬ demuFindSpace s.memory (start + virtioMmioIoSize - 1) ∧ host.space ∧ host.mapRange)) :
    ∃ log, demuRegisterMemorySpace host s start = (false, { s with log := log }) ∧
      Holds (spaces s.memory + other) log := by
  unfold demuRegisterMemorySpace
  by_cases overlaps : demuFindSpace s.memory start ∨
      demuFindSpace s.memory (start + virtioMmioIoSize - 1)
  · exact ⟨s.log, by rw [if_pos overlaps], holds⟩
  · rw [if_neg overlaps]
    by_cases space : host.space = true
    · rw [if_neg (by simp [space])]
      have unmapped : ¬ host.mapRange = true := by
        intro mapped
        exact fails ⟨fun below => overlaps (.inl below), fun above => overlaps (.inr above),
          space, mapped⟩
      refine ⟨release (acquire s.log (.space start)) (.space start), ?_,
        releases (acquires holds _)⟩
      simp [unmapped, demuDeregisterMemorySpace]
    · exact ⟨s.log, by rw [if_pos space], holds⟩

/-- The state in which `virtio_init` is called. -/
def listed (host : Host) (s : State) (disk : DiskImage) : State :=
  { s with
    bdevs := s.bdevs ++ [⟨disk.index, disk.addr, host.virtio⟩]
    log := acquire s.log (.blkDev disk.index) }

theorem listed_holds (running : Running base s) :
    Holds (spaces s.memory + (blkDevs (listed host s disk).bdevs + base))
      (listed host s disk).log := by
  have one_more : blkDevs (listed host s disk).bdevs = .blkDev disk.index ::ₘ blkDevs s.bdevs := by
    rw [listed, blkDevs, blkDevs, Multiset.cons_coe, List.map_append]
    exact Multiset.coe_eq_coe.mpr (List.perm_append_singleton _ _)
  rw [one_more, Multiset.cons_add, Multiset.add_cons]
  exact acquires running.holds _

theorem listed_hasOps (running : Running base s) (virtio : host.virtio = true) :
    ∀ bdev ∈ (listed host s disk).bdevs, bdev.hasOps := by
  intro bdev member
  rcases List.mem_append.mp member with before | last
  · exact running.hasOps bdev before
  · rw [List.mem_singleton.mp last, virtio]

theorem listed_memory (running : Running base s) :
    (disk.addr.toUInt64 :: s.memory).Subperm
      ((listed host s disk).bdevs.map fun bdev => bdev.addr.toUInt64) := by
  rw [listed, List.map_append]
  exact ((List.subperm_cons _).mpr running.memory).trans
    (List.perm_append_singleton _ _).symm.subperm

theorem start_running (running : Running base s)
    (starts : Starts host s.memory disk.addr.toUInt64) :
    ∃ final, virtioBlkInitOne host s disk = (true, final) ∧ Running base final ∧
      final.memory = disk.addr.toUInt64 :: s.memory := by
  obtain ⟨allocated, virtio, below, above, space, mapped⟩ := starts
  have taken : virtioBlkInitOne host s disk =
      demuRegisterMemorySpace host (listed host s disk) disk.addr.toUInt64 := by
    rw [virtioBlkInitOne, if_neg (by simp [allocated]), if_neg (by simp [virtio])]
    rfl
  refine ⟨_, taken.trans (register_takes below above space mapped),
    ⟨?_, listed_memory running, listed_hasOps running virtio⟩, rfl⟩
  have grown : spaces (disk.addr.toUInt64 :: s.memory) =
      .space disk.addr.toUInt64 ::ₘ spaces s.memory := rfl
  dsimp only [listed]
  rw [grown, Multiset.cons_add]
  exact acquires (listed_holds running) _

theorem start_fails (running : Running base s)
    (fails : ¬ Starts host s.memory disk.addr.toUInt64) :
    ∃ final, virtioBlkInitOne host s disk = (false, final) ∧
      (Running base final ∨ ∃ bdev ∈ final.bdevs, ¬ bdev.hasOps) := by
  unfold virtioBlkInitOne
  by_cases allocated : host.blkDev = true
  · rw [if_neg (by simp [allocated])]
    by_cases virtio : host.virtio = true
    · rw [if_neg (by simp [virtio])]
      obtain ⟨log, refused, holds⟩ := register_refuses (s := listed host s disk)
        (listed_holds running) fun free => fails ⟨allocated, virtio, free⟩
      refine ⟨_, refused, .inl ⟨holds, ?_, listed_hasOps running virtio⟩⟩
      exact ((List.sublist_cons_self _ _).subperm).trans (listed_memory running)
    · rw [if_pos virtio]
      exact ⟨_, rfl, .inr ⟨_, List.mem_append_right _ (List.mem_singleton_self _), virtio⟩⟩
  · rw [if_pos allocated]
    exact ⟨s, rfl, .inl running⟩

end Start

/-- `virtio_blk__init` starts all block devices, or none is left. -/
theorem blk_init_outcome (host : Nat → Host) (disks : List DiskImage) (running : Running base s) :
    Outcome (fun result =>
        (result.1 = true ∧ AllStart host s.memory (disks.map place) ∧ Running base result.2) ∨
        (result.1 = false ∧ ¬ AllStart host s.memory (disks.map place) ∧ Idle base result.2))
      (fun _ => ¬ AllStart host s.memory (disks.map place)) (virtioBlkInit host disks s) := by
  induction disks generalizing s with
  | nil => exact .inl ⟨rfl, trivial, running⟩
  | cons disk rest ih =>
      rw [virtioBlkInit]
      by_cases starts : Starts (host disk.index) s.memory disk.addr.toUInt64
      · obtain ⟨next, started, going, grown⟩ := start_running running starts
        have tail := ih going
        have same : AllStart host s.memory ((disk :: rest).map place) ↔
            AllStart host next.memory (rest.map place) := by
          simp [place, AllStart, starts, grown]
        simp only [started, same]
        exact tail
      · have fails : ¬ AllStart host s.memory ((disk :: rest).map place) :=
          fun all => starts all.1
        obtain ⟨next, failed, going | bare⟩ := start_fails running starts
        · obtain ⟨final, ended, idle⟩ := exit_idle going
          simp only [failed, ended]
          exact .inr ⟨rfl, fails, idle⟩
        · simp only [failed, virtioBlkExit, exit_each_crashes bare]
          exact fails

end BlockDevices

/-! A connection. -/

/-- A connection that leaves nothing behind. `device_initialize` has a place for four
images, and frees only `kvm` when the block devices do not start. -/
def Sound (c : Connection) : Prop :=
  c.kvm → c.images.length ≤ maxDiskImages ∧ (c.images ≠ [] → c.disks →
    EachPlain c.host 0 c.images ∧
      (EachOpens c.host 0 c.images → AllStart c.host [] (places 0 c.images)))

theorem teardown_returns {disks : List DiskImage} {base : Multiset Resource} {s : State}
    (running : Running (returnedEach disks + base) s) :
    ∃ final, deviceTeardown disks s = .ok final ∧ Idle base final := by
  obtain ⟨ended, exited, idle⟩ := exit_idle running
  refine ⟨{ ended with log := diskImageCloseAll disks ended.log }, ?_,
    close_all_returns idle.holds, idle.memory, idle.bdevs⟩
  rw [deviceTeardown, exited]
  rfl

section Connect
variable {c : Connection} {held leak : Multiset Resource} {s : State} {disks : List DiskImage}

theorem sound_iff (kvm : c.kvm = true) (room : c.images.length ≤ maxDiskImages)
    (allocated : c.images ≠ [] → c.disks = true) :
    Sound c ↔ EachPlain c.host 0 c.images ∧
      (EachOpens c.host 0 c.images → AllStart c.host [] (places 0 c.images)) := by
  by_cases none : c.images = []
  · simp [Sound, none, EachPlain, places, AllStart]
  · simp [Sound, none, kvm, room, allocated none]

theorem image_init_eq (allocated : c.images ≠ [] → c.disks = true) (log : Log) :
    diskImageInit c log = openEach c.host 0 c.images [] log := by
  unfold diskImageInit
  by_cases none : c.images = []
  · rw [if_pos none, none]
    rfl
  · rw [if_neg none, if_neg (by simp [allocated none])]

/-- `device_initialize` and the teardown after it, without the images. -/
def devices (c : Connection) (s : State) : Option (List DiskImage) × Log → Except Crash State
  | (none, log) => .ok { s with log := log }
  | (some disks, log) => do
      let (started, s) ← virtioBlkInit c.host disks { s with log := log }
      if started then deviceTeardown disks s else .ok s

theorem connect_eq (kvm : c.kvm = true) (room : c.images.length ≤ maxDiskImages) :
    connect s c = diskImageInit c s.log >>= devices c s := by
  rw [connect, deviceInitialize, if_neg (by simp [kvm]), if_neg (by omega)]
  cases diskImageInit c s.log with
  | error crash => rfl
  | ok result =>
      obtain ⟨_ | disks, log⟩ := result
      · rfl
      · simp only [devices, bind, Except.bind]
        cases virtioBlkInit c.host disks { s with log := log } with
        | error crash => rfl
        | ok result =>
            obtain ⟨_ | _, _⟩ := result <;> rfl

/-- The devices of images that have all opened. Disks stay open when the devices do
not start, and there is no such disk that leaves nothing. -/
theorem devices_outcome {log : Log} (memory : s.memory = [])
    (idle : Idle (returnedEach disks + (leak + held)) { s with log := log })
    (placed : disks.map place = places 0 c.images)
    (left : disks ≠ [] → returnedEach disks + leak ≠ 0) :
    Outcome (fun final => ∃ more : Multiset Resource,
        (more = 0 ↔ leak = 0 ∧ AllStart c.host [] (places 0 c.images)) ∧
        Idle (more + held) final)
      (fun _ => ¬ AllStart c.host [] (places 0 c.images)) (devices c s (some disks, log)) := by
  have outcome := blk_init_outcome c.host disks idle.running
  simp only [placed, memory] at outcome
  simp only [devices, memory]
  refine outcome.bind ?_
  rintro ⟨started, next⟩ (⟨rfl, all, running⟩ | ⟨rfl, fails, ended⟩)
  · obtain ⟨final, torn, finished⟩ := teardown_returns running
    simp only [if_true, torn]
    exact ⟨leak, by simp [all], finished⟩
  · refine ⟨returnedEach disks + leak, ?_, by rwa [add_assoc]⟩
    have some_open : disks ≠ [] := by
      rintro rfl
      rw [← placed] at fails
      exact fails trivial
    simp [fails, left some_open]

theorem connect_outcome (c : Connection) (idle : Idle held s) :
    Outcome (fun final => ∃ leak : Multiset Resource, (leak = 0 ↔ Sound c) ∧
      Idle (leak + held) final) (fun _ => ¬ Sound c) (connect s c) := by
  by_cases kvm : c.kvm = true
  · by_cases room : c.images.length ≤ maxDiskImages
    · rw [connect_eq kvm room]
      by_cases allocated : c.images ≠ [] → c.disks = true
      · have same := sound_iff kvm room allocated
        have none : Holds (returnedEach [] + held) s.log := by
          simpa [returnedEach] using idle.holds
        have each : Outcome _ _ (openEach c.host 0 c.images [] s.log) :=
          open_each_outcome 0 c.images [] none
        rw [image_init_eq allocated]
        cases opened : openEach c.host 0 c.images [] s.log with
        | error crash =>
            rw [opened] at each
            exact fun sound => each (same.mp sound).1
        | ok result =>
            rw [opened] at each
            obtain ⟨leak, leak_iff, later⟩ := each
            change Outcome _ _ (devices c s result)
            obtain ⟨_ | disks, log⟩ := result
            · obtain ⟨closed, left⟩ := later
              exact ⟨leak, by simp [same, leak_iff, closed], left, idle.memory, idle.bdevs⟩
            · obtain ⟨opens, _, rfl, placed, left, still⟩ := later
              have sound_all : Sound c ↔ leak = 0 ∧ AllStart c.host [] (places 0 c.images) := by
                simp [same, leak_iff, opens]
              have done := devices_outcome (c := c) idle.memory
                ⟨still, idle.memory, idle.bdevs⟩ placed left
              cases ended : devices c s (some _, log) with
              | error crash =>
                  rw [ended] at done
                  exact fun sound => done (sound_all.mp sound).2
              | ok final =>
                  rw [ended] at done
                  rwa [sound_all]
      · obtain ⟨some_image, refused⟩ := Classical.not_imp.mp allocated
        rw [diskImageInit, if_neg some_image, if_pos refused]
        refine ⟨0, by simp [Sound, room, refused], ?_⟩
        simpa using idle
    · have overrun : connect s c = .error .overrun := by
        rw [connect, deviceInitialize, if_neg (by simp [kvm]), if_pos (by omega)]
        rfl
      rw [overrun]
      exact fun sound => room (sound kvm).1
  · have refused : connect s c = .ok s := by
      rw [connect, deviceInitialize, if_pos kvm]
      rfl
    rw [refused]
    exact ⟨0, by simp [Sound, kvm], by simpa using idle⟩

theorem run_outcome (cycles : List Connection) (idle : Idle held s) :
    Outcome (fun final => ∃ leak : Multiset Resource, (leak = 0 ↔ ∀ c ∈ cycles, Sound c) ∧
      Idle (leak + held) final) (fun _ => ¬ ∀ c ∈ cycles, Sound c)
      (cycles.foldlM connect s) := by
  induction cycles generalizing held s with
  | nil => exact ⟨0, by simp, by simpa using idle⟩
  | cons c rest ih =>
      have first := connect_outcome c idle
      rw [List.foldlM_cons]
      cases taken : connect s c with
      | error crash =>
          rw [taken] at first
          exact fun sound => first (sound c List.mem_cons_self)
      | ok next =>
          rw [taken] at first
          obtain ⟨leak, leak_iff, left⟩ := first
          have tail := ih left
          change Outcome _ _ (rest.foldlM connect next)
          cases ended : rest.foldlM connect next with
          | error crash =>
              rw [ended] at tail
              exact fun sound => tail fun c later => sound c (List.mem_cons_of_mem _ later)
          | ok final =>
              rw [ended] at tail
              obtain ⟨more, more_iff, still⟩ := tail
              refine ⟨more + leak, ?_, by rwa [add_assoc]⟩
              rw [add_eq_zero, more_iff, leak_iff, List.forall_mem_cons, and_comm]

end Connect

theorem cycles_balanced_iff (cycles : List Connection) :
    (∃ final, cycles.foldlM connect start = .ok final ∧ Settled final.log) ↔
      ∀ c ∈ cycles, Sound c := by
  have idle : Idle 0 start := ⟨rfl, rfl, rfl⟩
  have outcome := run_outcome cycles idle
  cases ran : cycles.foldlM connect start with
  | error crash =>
      rw [ran] at outcome
      constructor
      · rintro ⟨_, ended, _⟩
        cases ended
      · exact fun sound => absurd sound outcome
  | ok final =>
      rw [ran] at outcome
      obtain ⟨leak, leak_iff, left⟩ := outcome
      rw [← leak_iff, ← add_zero leak, ← left.holds.settled_iff]
      constructor
      · rintro ⟨_, ended, settled⟩
        cases ended
        exact settled
      · exact fun settled => ⟨final, rfl, settled⟩

/-- A host that refuses nothing, and on which nothing is a mounted block device. -/
def willingHost : Host where
  stat := true
  mounted := false
  openBlk := true
  ioctl := true
  newBlk := true
  openFile := true
  qcowParts := true
  newQcow := true
  newMmap := true
  mmap := true
  newRaw := true
  blkDev := true
  virtio := true
  space := true
  mapRange := true

/-- One read-only raw image, which is mapped. Its close leaves descriptor and disk. -/
def readOnlyConnection : Connection where
  images := [{ readonly := true, addr := 0x2000000, block := false, format := .plain }]
  kvm := true
  disks := true
  host := fun _ => willingHost

theorem read_only_image_leaks :
    ¬ ∃ final, [readOnlyConnection].foldlM connect start = .ok final ∧ Settled final.log := by
  rintro ⟨final, ran, settled⟩
  cases ran
  exact absurd settled (by decide)

end VirtioDisk.DeviceBalance
