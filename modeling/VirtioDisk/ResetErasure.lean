import VirtioDisk.QueueLifecycle
import VirtioDisk.QueueSelector

/-!
Two histories of one device, each ended by a write of 0 to STATUS, and what the
guest can see of the difference afterwards. virtio_notify_status clears the queue
records if START is set and stores the new status. The accepted features, the
interrupt status, the config bytes, the page size of the legacy transport and the
mapping model of the server are not reset by anything.
-/

namespace VirtioDisk.ResetErasure

open ByteStore DescriptorChain GuestAccess GuestMapping MmioRegisters QueueReset QueueSelector
open Transition Virtqueue

inductive Selector where
  | deviceFeatures | driverFeatures | queue
  deriving DecidableEq

def selected (dev : MmioDevice) : Selector → UInt32
  | .deviceFeatures => dev.hdr.hostFeaturesSel
  | .driverFeatures => dev.hdr.guestFeaturesSel
  | .queue => dev.hdr.queueSel

def commandUses : Command → List Selector
  | .driverFeatures _ => [.driverFeatures]
  | .address _ _ | .activate _ | .deactivate => [.queue]
  | .ignored | .deviceFeaturesSel _ | .driverFeaturesSel _ | .queueSel _ | .guestPageSize _
  | .queueNum _ | .interruptAck _ | .status _ | .notify => []

def commandSets : Command → List Selector
  | .deviceFeaturesSel _ => [.deviceFeatures]
  | .driverFeaturesSel _ => [.driverFeatures]
  | .queueSel _ => [.queue]
  | _ => []

def readUses (legacy : Bool) (r : RegisterRead) : List Selector :=
  (if readRegisterAt r.offset = some .deviceFeatures then [.deviceFeatures] else []) ++
    (if selectedRead legacy r then [.queue] else [])

def uses (legacy : Bool) : Access → List Selector
  | .write w _ => commandUses (command legacy w)
  | .read r => readUses legacy r
  | _ => []

def sets (legacy : Bool) : Access → List Selector
  | .write w _ => commandSets (command legacy w)
  | _ => []

def note (legacy : Bool) (written : List Selector) (a : Access) : List Selector :=
  sets legacy a ++ written

/-- The access does not leave the `size` bytes of the config. -/
def Within (size : Nat) : Access → Prop
  | .configWrite offset len _ | .configRead offset len => Fits size offset len
  | .write _ _ | .read _ | .served _ _ _ => True

/-- The I/O thread rests, and a selector that is used has been written before. -/
def Permitted (size : Nat) (legacy : Bool) (written : List Selector) (a : Access) : Prop :=
  (∀ selector ∈ uses legacy a, selector ∈ written) ∧ Within size a ∧
    ∀ lastAvailIdx lastUsedSignalled signalled,
      a ≠ .served lastAvailIdx lastUsedSignalled signalled

def Continuation (size : Nat) (legacy : Bool) (accesses : List Access) : Prop :=
  Follows (note legacy) (Permitted size legacy) [] accesses

structure Seen where
  replies : List UInt32
  features : UInt64
  useEventIdx : Bool
  deriving DecidableEq

def seen (blk : BlkMmio) (accesses : List Access) : Except Fault Seen :=
  (replies access blk accesses).map fun result =>
    ⟨result.1, result.2.mmio.vdev.features, result.2.mmio.vq.useEventIdx⟩

/-- What two queues have in common for the guest. A legacy guest sees the page
frame alone. -/
structure QueueAlike (legacy : Bool) (first second : VirtQueue) : Prop where
  enabled : first.enabled = second.enabled
  eventIdx : first.useEventIdx = second.useEventIdx
  pfn : first.vringAddr.pfn = second.vringAddr.pfn
  words : legacy = false → first.vringAddr = second.vringAddr

/-- The page frames of two guest page sizes are addresses of the same kind. -/
def PageSizesAlike (first second : UInt32) : Prop :=
  ∀ pfn : UInt32, grantAddress (pfn.toUInt64 * first.toUInt64) =
    grantAddress (pfn.toUInt64 * second.toUInt64)

structure Alike (legacy : Bool) (written : List Selector) (first second : MmioDevice) : Prop where
  kind : first.vdev.legacy = legacy
  transport : first.vdev.legacy = second.vdev.legacy
  readonly : first.readonly = second.readonly
  features : first.vdev.features = second.vdev.features
  started : Started first ↔ Started second
  status : first.hdr.status = second.hdr.status
  interrupts : first.hdr.interruptState = second.hdr.interruptState
  model : first.demu.useGnttab = second.demu.useGnttab
  queue : QueueAlike first.vdev.legacy first.vq second.vq
  pageSize : first.vdev.legacy = true →
    PageSizesAlike first.hdr.guestPageSize second.hdr.guestPageSize
  threads : first.threads = second.threads
  joined : first.threads = [] ∨ first.ioThread = second.ioThread
  selectors : ∀ selector ∈ written, selected first selector = selected second selector

section Step
variable {legacy : Bool} {written : List Selector} {first second : MmioDevice}

theorem selected_word_alike (chosen : selected first .queue = selected second .queue)
    (word : VirtQueue → UInt32) (same : word first.vq = word second.vq) :
    selectedWord first word = selectedWord second word := by
  have sel : first.hdr.queueSel = second.hdr.queueSel := chosen
  unfold selectedWord getVq
  rw [sel]
  split
  · exact congrArg Except.ok same
  · rfl

theorem legacy_read_alike (alike : Alike legacy written first second) (addr : UInt32)
    (features : readRegisterAt addr = some .deviceFeatures →
      selected first .deviceFeatures = selected second .deviceFeatures)
    (queue : readRegisterAt addr = some .queuePfn →
      selected first .queue = selected second .queue) :
    Legacy.virtioMmioConfigIn first addr = Legacy.virtioMmioConfigIn second addr := by
  have hostFeatures : getHostFeatures first = getHostFeatures second := by
    rw [getHostFeatures, getHostFeatures, alike.readonly]
  unfold Legacy.virtioMmioConfigIn hdrVersion getSizeVq
  rw [← alike.transport, alike.status, alike.interrupts]
  cases found : readRegisterAt addr with
  | none => rfl
  | some register =>
      cases register
      case deviceFeatures =>
        have sel : first.hdr.hostFeaturesSel = second.hdr.hostFeaturesSel := features found
        rw [sel, hostFeatures]
      case queuePfn => exact selected_word_alike (queue found) _ alike.queue.pfn
      all_goals rfl

theorem modern_read_alike (alike : Alike legacy written first second) (addr : UInt32)
    (modern : first.vdev.legacy = false)
    (features : readRegisterAt addr = some .deviceFeatures →
      selected first .deviceFeatures = selected second .deviceFeatures)
    (queue : ∀ register, readRegisterAt addr = some register → register ∈ modernPerQueue →
      selected first .queue = selected second .queue) :
    Modern.virtioMmioConfigIn first addr = Modern.virtioMmioConfigIn second addr := by
  have hostFeatures : getHostFeatures first = getHostFeatures second := by
    rw [getHostFeatures, getHostFeatures, alike.readonly]
  have words := alike.queue.words modern
  unfold Modern.virtioMmioConfigIn hdrVersion getSizeVq
  rw [← alike.transport, alike.status, alike.interrupts]
  cases found : readRegisterAt addr with
  | none => rfl
  | some register =>
      have chosen := queue register found
      cases register
      case deviceFeatures =>
        have sel : first.hdr.hostFeaturesSel = second.hdr.hostFeaturesSel := features found
        simp only [sel, hostFeatures]
      case queueReady =>
        apply selected_word_alike (chosen (by decide))
        rw [alike.queue.enabled]
      case queueDescLow | queueDescHigh | queueAvailLow | queueAvailHigh | queueUsedLow
          | queueUsedHigh =>
        apply selected_word_alike (chosen (by decide))
        rw [words]
      all_goals rfl

theorem read_alike (alike : Alike legacy written first second) (r : RegisterRead)
    (permitted : ∀ selector ∈ readUses first.vdev.legacy r, selector ∈ written) :
    readCallback first r = readCallback second r := by
  have features : readRegisterAt r.offset = some .deviceFeatures →
      selected first .deviceFeatures = selected second .deviceFeatures := by
    intro found
    apply alike.selectors
    apply permitted
    simp [readUses, found]
  have queue : selectedRead first.vdev.legacy r = true →
      selected first .queue = selected second .queue := by
    intro chosen
    apply alike.selectors
    apply permitted
    simp [readUses, chosen]
  unfold readCallback
  rw [← alike.transport]
  cases transport : first.vdev.legacy with
  | true =>
      apply legacy_read_alike alike r.offset features
      intro found
      apply queue
      simp [selectedRead, found, transport]
  | false =>
      by_cases word : r.len = 4
      · simp only [Bool.false_eq_true, if_false, word, ne_eq, not_true_eq_false]
        apply modern_read_alike alike r.offset transport features
        intro register found member
        apply queue
        simp [selectedRead, found, transport, word, member]
      · simp [word]

theorem QueueAlike.refl (legacy : Bool) (vq : VirtQueue) : QueueAlike legacy vq vq :=
  ⟨rfl, rfl, rfl, fun _ => rfl⟩

theorem unmap_rings_model (vq : VirtQueue) (demu : DemuState) :
    (unmapRings vq demu).useGnttab = demu.useGnttab := by
  unfold unmapRings
  induction ringRanges vq generalizing demu with
  | nil => rfl
  | cons range rest ih =>
      rw [List.foldl_cons, ih]
      unfold demuUnmapGuestRange
      split <;> rfl

theorem Alike.alive_iff (alike : Alike legacy written first second) :
    first.ioThread ∈ first.threads ↔ second.ioThread ∈ second.threads := by
  rw [← alike.threads]
  rcases alike.joined with none | same
  · simp [none]
  · rw [same]

theorem stopped_alike (alike : Alike legacy written first second)
    (alive : first.ioThread ∈ first.threads) :
    Alike legacy written (stoppedDevice first) (stoppedDevice second) := by
  have same : first.ioThread = second.ioThread := by
    rcases alike.joined with none | same
    · simp [none] at alive
    · exact same
  exact { alike with
    model := by
      show (unmapRings _ _).useGnttab = (unmapRings _ _).useGnttab
      rw [unmap_rings_model, unmap_rings_model, alike.model]
    queue := QueueAlike.refl _ _
    threads := by
      show first.threads.erase _ = second.threads.erase _
      rw [alike.threads, same]
    joined := Or.inr same }

theorem get_vq_alike (chosen : selected first .queue = selected second .queue) :
    Lockstep (fun left right => left = first.vq ∧ right = second.vq)
      (getVq first first.hdr.queueSel) (getVq second second.hdr.queueSel) := by
  have sel : first.hdr.queueSel = second.hdr.queueSel := chosen
  unfold getVq
  rw [sel]
  split
  · exact ⟨rfl, rfl⟩
  · rfl

theorem exit_alike (alike : Alike legacy written first second) :
    Lockstep (Alike legacy written) (virtioExitVq first 0) (virtioExitVq second 0) := by
  rw [exit_vq_first, exit_vq_first, ← alike.queue.enabled]
  split
  · by_cases alive : first.ioThread ∈ first.threads
    · rw [if_pos alive, if_pos (alike.alive_iff.mp alive)]
      exact stopped_alike alike alive
    · rw [if_neg alive, if_neg (alike.alive_iff.not.mp alive)]
      rfl
  · exact { alike with queue := QueueAlike.refl _ _ }

theorem set_status_alike (alike : Alike legacy written first second) {left right : UInt32}
    (started : left &&& virtioStatusStart ≠ 0 ↔ right &&& virtioStatusStart ≠ 0) :
    Alike legacy written (first.setStatus left) (second.setStatus right) :=
  { alike with started := started }

theorem notify_status_alike (alike : Alike legacy written first second) (status : UInt8) :
    Lockstep (Alike legacy written) (virtioNotifyStatus first status)
      (virtioNotifyStatus second status) := by
  obtain ⟨left, setLeft, shapeLeft⟩ := notify_status_shape first status
  obtain ⟨right, setRight, shapeRight⟩ := notify_status_shape second status
  have started : first.vdev.status &&& virtioStatusStart ≠ 0 ↔
      second.vdev.status &&& virtioStatusStart ≠ 0 := alike.started
  have same : left &&& virtioStatusStart ≠ 0 ↔ right &&& virtioStatusStart ≠ 0 := by
    rw [setLeft, setRight, started]
  rw [shapeLeft, shapeRight]
  simp only [started]
  split
  · have together := exit_alike alike
    cases leftExit : virtioExitVq first 0 <;> cases rightExit : virtioExitVq second 0 <;>
      rw [leftExit, rightExit] at together
    · exact together
    · exact together.elim
    · exact together.elim
    · exact set_status_alike together same
  · exact set_status_alike alike same

theorem start_io_thread_alike (alike : Alike legacy written first second) (host : HostAnswers) :
    Alike legacy written (startIoThread first host) (startIoThread second host) := by
  unfold startIoThread
  split
  · exact { alike with }
  · cases host.ioThread with
    | none => exact { alike with }
    | some thread =>
        exact { alike with
          threads := congrArg (List.cons thread) alike.threads
          joined := Or.inr rfl }

theorem ring_calls_alike (alike : Alike legacy written first second) (val : UInt32)
    (host : HostAnswers) :
    latchAll first.demu.useGnttab (ringCalls (activationAddr first val) host) =
      latchAll second.demu.useGnttab (ringCalls (activationAddr second val) host) := by
  rw [alike.model]
  unfold activationAddr
  rw [← alike.transport]
  cases transport : first.vdev.legacy with
  | true =>
      have kind := alike.pageSize transport val
      simp only [if_true, ringCalls, latchAll, VringAddr.pfn, VringAddr.pgsize, kind]
  | false =>
      simp only [Bool.false_eq_true, if_false]
      rw [alike.queue.words transport]

theorem activation_addr_alike (alike : Alike legacy written first second) (val : UInt32) :
    (activationAddr first val).pfn = (activationAddr second val).pfn ∧
      (first.vdev.legacy = false → activationAddr first val = activationAddr second val) := by
  unfold activationAddr
  rw [← alike.transport]
  cases transport : first.vdev.legacy with
  | true => exact ⟨rfl, fun modern => by cases modern⟩
  | false =>
      have words := alike.queue.words transport
      exact ⟨congrArg VringAddr.pfn words, fun _ => words⟩

/-- What mapRings starts from when a queue is activated. -/
def activated (dev : MmioDevice) (val : UInt32) : VirtQueue :=
  enabledQueue dev.vdev (dev.withAddr (activationAddr dev val)).vq

theorem activated_alike (alike : Alike legacy written first second) (val : UInt32) :
    QueueAlike first.vdev.legacy (activated first val) (activated second val) := by
  obtain ⟨pfn, words⟩ := activation_addr_alike alike val
  refine ⟨rfl, ?_, pfn, words⟩
  show (first.vdev.features &&& _ != 0) = (second.vdev.features &&& _ != 0)
  rw [alike.features]

theorem activate_maps (dev : MmioDevice) (host : HostAnswers) (val : UInt32)
    (first : dev.hdr.queueSel = 0) :
    perform dev host (.activate val) =
      match mapRings (activated dev val) virtioBlkQueueSize dev.demu host with
      | none => .error .bugOn
      | some (vring, demu) => .ok (startIoThread
          { dev with vq := { activated dev val with vring := vring }, demu := demu } host) := by
  rw [activate_first dev host val first, init_vq_first]
  rfl

theorem activate_alike (alike : Alike legacy written first second) (host : HostAnswers)
    (val : UInt32)
    (chosen : selected first .queue = selected second .queue) :
    Lockstep (Alike legacy written) (perform first host (.activate val))
      (perform second host (.activate val)) := by
  have sel : first.hdr.queueSel = second.hdr.queueSel := chosen
  by_cases inside : Inside first
  · have zero := inside_first inside
    rw [activate_maps first host val zero, activate_maps second host val (sel ▸ zero)]
    have left := map_rings_latch (activated first val) virtioBlkQueueSize first.demu host
    have right := map_rings_latch (activated second val) virtioBlkQueueSize second.demu host
    have same := (left.trans (ring_calls_alike alike val host)).trans right.symm
    cases leftRings : mapRings (activated first val) virtioBlkQueueSize first.demu host <;>
      cases rightRings : mapRings (activated second val) virtioBlkQueueSize second.demu host <;>
      simp only [leftRings, rightRings, Option.map_none, Option.map_some, reduceCtorEq,
        Option.some.injEq] at same
    · rfl
    · have queue := activated_alike alike val
      apply start_io_thread_alike
      exact { alike with
        model := same
        queue := ⟨queue.enabled, queue.eventIdx, queue.pfn, queue.words⟩ }
  · have outside : ¬ Inside second := by
      unfold Inside at inside ⊢
      rwa [← sel]
    rw [(activate_outside_iff host val).mpr inside, (activate_outside_iff host val).mpr outside]
    rfl

theorem address_alike (alike : Alike legacy written first second) (word : AddressWord)
    (val : UInt32)
    (chosen : selected first .queue = selected second .queue) :
    Lockstep (Alike legacy written) (setSelectedWord first word val)
      (setSelectedWord second word val) := by
  apply (get_vq_alike chosen).bind
  rintro left right ⟨rfl, rfl⟩
  have pfn : first.vq.vringAddr.descLo = second.vq.vringAddr.descLo := alike.queue.pfn
  have words : first.vdev.legacy = false →
      storeWord first.vq.vringAddr val word = storeWord second.vq.vringAddr val word :=
    fun modern => by rw [alike.queue.words modern]
  have kept : (storeWord first.vq.vringAddr val word).descLo =
      (storeWord second.vq.vringAddr val word).descLo := by
    cases word <;> first | rfl | exact pfn
  exact { alike with queue := ⟨alike.queue.enabled, alike.queue.eventIdx, kept, words⟩ }

/-- One register write. A selector that it sets is known to agree afterwards. -/
theorem perform_alike (alike : Alike legacy written first second) (host : HostAnswers)
    (request : Command) (permitted : ∀ selector ∈ commandUses request, selector ∈ written) :
    Lockstep (Alike legacy (commandSets request ++ written)) (perform first host request)
      (perform second host request) := by
  have agree : ∀ selector ∈ commandUses request,
      selected first selector = selected second selector :=
    fun selector used => alike.selectors selector (permitted selector used)
  cases request with
  | activate val => exact activate_alike alike host val (agree .queue (by simp [commandUses]))
  | address word val =>
      exact address_alike alike word val (agree .queue (by simp [commandUses]))
  | deactivate =>
      have sel : first.hdr.queueSel = second.hdr.queueSel := agree .queue (by simp [commandUses])
      by_cases inside : Inside first
      · show Lockstep _ (virtioExitVq first first.hdr.queueSel)
          (virtioExitVq second second.hdr.queueSel)
        rw [← sel, inside_first inside]
        exact exit_alike alike
      · have outside : ¬ Inside second := by
          unfold Inside at inside ⊢
          rwa [← sel]
        rw [(perform_outside_iff first host .deactivate).mpr ⟨rfl, inside⟩,
          (perform_outside_iff second host .deactivate).mpr ⟨rfl, outside⟩]
        rfl
  | status val =>
      apply notify_status_alike
      exact { alike with status := rfl }
  | driverFeatures val =>
      have sel : first.hdr.guestFeaturesSel = second.hdr.guestFeaturesSel :=
        agree .driverFeatures (by simp [commandUses])
      show Alike legacy written (if first.hdr.guestFeaturesSel = 0 then _ else _)
        (if second.hdr.guestFeaturesSel = 0 then _ else _)
      rw [← sel]
      split
      · exact { alike with
          features := congrArg (fun features => features ||| val.toUInt64) alike.features }
      · exact alike
  | interruptAck val =>
      exact { alike with
        interrupts := congrArg (fun state => state &&& ~~~val) alike.interrupts }
  | guestPageSize val => exact { alike with pageSize := fun _ _ => rfl }
  | deviceFeaturesSel val | driverFeaturesSel val | queueSel val =>
      refine { alike with selectors := ?_ }
      intro selector member
      rcases List.mem_cons.mp member with rfl | old
      · rfl
      · have same := alike.selectors selector old
        cases selector
        · first | rfl | exact same
        · first | rfl | exact same
        · first | rfl | exact same
  | ignored | queueNum _ | notify => exact { alike with }

end Step

/-- The transports are alike and the config bytes are the same. -/
structure BlkAlike (size : Nat) (legacy : Bool) (written : List Selector)
    (first second : BlkMmio) : Prop where
  mmio : Alike legacy written first.mmio second.mmio
  config : Agree size first.config second.config

section Access
variable {size : Nat} {legacy : Bool} {written : List Selector} {first second : BlkMmio}

theorem event_write (blk : BlkMmio) (w : RegisterWrite) (host : HostAnswers) :
    event blk (.write w host) =
      match perform blk.mmio host (command blk.mmio.vdev.legacy w) with
      | .error fault => .error fault
      | .ok mmio => .ok { blk with mmio := mmio } := by
  rw [← callback_performs]
  rfl

theorem write_alike (alike : BlkAlike size legacy written first second) (w : RegisterWrite)
    (host : HostAnswers)
    (permitted : ∀ selector ∈ commandUses (command first.mmio.vdev.legacy w),
      selector ∈ written) :
    Lockstep (BlkAlike size legacy (commandSets (command first.mmio.vdev.legacy w) ++ written))
      (event first (.write w host)) (event second (.write w host)) := by
  have together := perform_alike alike.mmio host _ permitted
  rw [event_write, event_write, ← alike.mmio.transport]
  cases left : perform first.mmio host (command first.mmio.vdev.legacy w) <;>
    cases right : perform second.mmio host (command first.mmio.vdev.legacy w) <;>
    rw [left, right] at together
  · exact together
  · exact together.elim
  · exact together.elim
  · exact ⟨together, alike.config⟩

/-- One access: the same reply, and nothing that tells the devices apart. -/
theorem access_alike (alike : BlkAlike size legacy written first second) (a : Access)
    (permitted : Permitted size legacy written a) :
    Lockstep (fun left right => left.2 = right.2 ∧
        BlkAlike size legacy (note legacy written a) left.1 right.1)
      (access first a) (access second a) := by
  obtain ⟨used, within, resting⟩ := permitted
  obtain rfl := alike.mmio.kind
  cases a with
  | write w host =>
      apply (write_alike alike w host used).bind
      intro left right kept
      exact ⟨rfl, kept⟩
  | read r =>
      have same := read_alike alike.mmio r used
      simp only [access]
      rw [← same]
      cases readCallback first.mmio r with
      | error fault => rfl
      | ok value => exact ⟨rfl, alike⟩
  | configWrite offset len data =>
      exact ⟨rfl, { alike with config := write_agrees alike.config data }⟩
  | configRead offset len => exact ⟨read_agrees within alike.config, alike⟩
  | served lastAvailIdx lastUsedSignalled signalled =>
      exact absurd rfl (resting lastAvailIdx lastUsedSignalled signalled)

end Access

/-- The queue record that a write of 0 to STATUS leaves. -/
def remainingQueue (dev : MmioDevice) : VirtQueue :=
  if Started dev then clearedQueue else dev.vq

def remainingThreads (dev : MmioDevice) : List Nat :=
  if Started dev ∧ dev.vq.enabled = true then dev.threads.erase dev.ioThread else dev.threads

/-- Two devices about to be reset that agree in all that a reset leaves. -/
structure SameSticky (size : Nat) (first second : BlkMmio) : Prop where
  features : first.mmio.vdev.features = second.mmio.vdev.features
  interrupts : first.mmio.hdr.interruptState = second.mmio.hdr.interruptState
  config : Agree size first.config second.config
  model : first.mmio.demu.useGnttab = second.mmio.demu.useGnttab
  pageSize : first.mmio.vdev.legacy = true →
    PageSizesAlike first.mmio.hdr.guestPageSize second.mmio.hdr.guestPageSize
  queue : QueueAlike first.mmio.vdev.legacy (remainingQueue first.mmio) (remainingQueue second.mmio)
  threads : remainingThreads first.mmio = remainingThreads second.mmio
  joined : remainingThreads first.mmio = [] ∨ first.mmio.ioThread = second.mmio.ioThread

/-- A device after a write of 0 to STATUS. -/
structure Reset (dev next : MmioDevice) : Prop where
  transport : next.vdev.legacy = dev.vdev.legacy
  readonly : next.readonly = dev.readonly
  features : next.vdev.features = dev.vdev.features
  started : ¬ Started next
  status : next.hdr.status = 0
  interrupts : next.hdr.interruptState = dev.hdr.interruptState
  pageSize : next.hdr.guestPageSize = dev.hdr.guestPageSize
  model : next.demu.useGnttab = dev.demu.useGnttab
  queue : next.vq = remainingQueue dev
  threads : next.threads = remainingThreads dev
  ioThread : next.ioThread = dev.ioThread

theorem status_zero_resets {dev next : MmioDevice} {host : HostAnswers}
    (done : perform dev host (.status 0) = .ok next) : Reset dev next := by
  obtain ⟨word, set, shape⟩ := notify_status_shape (statusStored dev 0) 0
  have cleared : ¬ word &&& virtioStatusStart ≠ 0 := fun bit => (set.mp bit).1 rfl
  have taken : virtioNotifyStatus (statusStored dev 0) 0 = .ok next := done
  rw [shape] at taken
  by_cases started : Started dev
  · rw [if_pos ⟨rfl, started⟩, exit_vq_first] at taken
    by_cases enabled : dev.vq.enabled = true
    · by_cases alive : dev.ioThread ∈ dev.threads
      · simp only [statusStored, enabled, alive, if_true, Except.map, Except.ok.injEq] at taken
        cases taken
        constructor
        case started => exact cleared
        case model => exact unmap_rings_model dev.vq dev.demu
        case queue => exact (if_pos started).symm
        case threads => exact (if_pos ⟨started, enabled⟩).symm
        all_goals rfl
      · simp [statusStored, enabled, alive, Except.map] at taken
    · simp only [statusStored, enabled, Except.map, if_false, Except.ok.injEq,
        Bool.false_eq_true] at taken
      cases taken
      constructor
      case started => exact cleared
      case queue => exact (if_pos started).symm
      case threads => exact (if_neg fun both => enabled both.2).symm
      all_goals rfl
  · rw [if_neg fun both => started both.2] at taken
    cases taken
    constructor
    case started => exact cleared
    case queue => exact (if_neg started).symm
    case threads => exact (if_neg fun both => started both.1).symm
    all_goals rfl

/-- The transport and the disk of a device are decided when it is created. -/
def SameKind (legacy readonly : Bool) (dev : MmioDevice) : Prop :=
  dev.vdev.legacy = legacy ∧ dev.readonly = readonly

section Kind
variable {legacy readonly : Bool} {dev next : MmioDevice}

theorem start_io_thread_kind (kind : SameKind legacy readonly dev) (host : HostAnswers) :
    SameKind legacy readonly (startIoThread dev host) := by
  unfold startIoThread
  split
  · exact kind
  · cases host.ioThread <;> exact kind

theorem exit_vq_kind (kind : SameKind legacy readonly dev) {num : UInt32}
    (done : virtioExitVq dev num = .ok next) : SameKind legacy readonly next := by
  obtain ⟨_, rfl | rfl⟩ := exit_vq_ok done
  · exact kind
  · exact kind

theorem perform_kind (kind : SameKind legacy readonly dev) {host : HostAnswers}
    {request : Command} (done : perform dev host request = .ok next) :
    SameKind legacy readonly next := by
  cases request with
  | activate val =>
      obtain ⟨_, vring, demu, _, rfl⟩ := init_vq_ok (activate_ok done)
      apply start_io_thread_kind
      exact kind
  | deactivate => exact exit_vq_kind kind done
  | address word val =>
      obtain ⟨_, rfl⟩ := set_selected_word_ok done
      exact kind
  | status val =>
      have stored : SameKind legacy readonly (statusStored dev val) := kind
      obtain ⟨settled, word, rfl, rfl | exited⟩ := notify_status_ok done
      · exact stored
      · have kept : SameKind legacy readonly settled := exit_vq_kind stored exited
        exact kept
  | driverFeatures val =>
      cases done
      split
      · exact kind
      · exact kind
  | ignored | notify | deviceFeaturesSel | driverFeaturesSel | queueSel | guestPageSize | queueNum
  | interruptAck =>
      cases done
      exact kind

theorem step_kind (kind : SameKind legacy readonly dev) {event : Event}
    (taken : step dev event = .ok next) : SameKind legacy readonly next := by
  cases step_cases taken with
  | performed w host done => exact perform_kind kind done
  | rested | worked => exact kind

theorem event_ok {blk next : BlkMmio} {e : Event} (taken : event blk e = .ok next) :
    ∃ mmio, step blk.mmio e = .ok mmio ∧ next = { blk with mmio := mmio } := by
  unfold event at taken
  cases stepped : step blk.mmio e with
  | error fault => simp [stepped] at taken
  | ok mmio =>
      simp only [stepped, Except.ok.injEq] at taken
      exact ⟨mmio, rfl, taken.symm⟩

theorem access_step_ok {blk next : BlkMmio} {a : Access} (taken : accessStep blk a = .ok next) :
    ∃ reply, access blk a = .ok (next, reply) := by
  unfold accessStep at taken
  cases answered : access blk a with
  | error fault => simp [answered, Except.map] at taken
  | ok result =>
      simp only [answered, Except.map, Except.ok.injEq] at taken
      exact ⟨result.2, by rw [← taken]⟩

/-- A register write and the work of the I/O thread are steps of the transport. No
other access touches it. -/
theorem access_step_cases {blk next : BlkMmio} {a : Access}
    (taken : accessStep blk a = .ok next) :
    next.mmio = blk.mmio ∨ ∃ e, step blk.mmio e = .ok next.mmio := by
  obtain ⟨reply, answered⟩ := access_step_ok taken
  cases a with
  | write w host =>
      obtain ⟨_, stepped, same⟩ := bind_ok answered
      cases same
      obtain ⟨mmio, done, rfl⟩ := event_ok stepped
      exact Or.inr ⟨_, done⟩
  | served lastAvailIdx lastUsedSignalled signalled =>
      obtain ⟨_, stepped, same⟩ := bind_ok answered
      cases same
      obtain ⟨mmio, done, rfl⟩ := event_ok stepped
      exact Or.inr ⟨_, done⟩
  | read r =>
      simp only [access] at answered
      split at answered <;> cases answered
      exact Or.inl rfl
  | configWrite | configRead =>
      cases answered
      exact Or.inl rfl

theorem access_kind {blk after : BlkMmio} {a : Access}
    (kind : SameKind legacy readonly blk.mmio) (taken : accessStep blk a = .ok after) :
    SameKind legacy readonly after.mmio := by
  rcases access_step_cases taken with same | ⟨e, stepped⟩
  · rwa [same]
  · exact step_kind kind stepped

end Kind

/-- Accesses that end in a write of 0 to STATUS, and where they lead. What they store
behind the config would be in the queue record. -/
structure History (size : Nat) (start : BlkMmio) where
  accesses : List Access
  reset : RegisterWrite
  host : HostAnswers
  before : BlkMmio
  after : BlkMmio
  within : ∀ a ∈ accesses, Within size a
  ran : accesses.foldlM accessStep start = .ok before
  resets : command start.mmio.vdev.legacy reset = .status 0
  done : accessStep before (.write reset host) = .ok after

section Histories
variable {size : Nat} {legacy readonly : Bool} {start : BlkMmio}

theorem History.kind (kind : SameKind legacy readonly start.mmio) (h : History size start) :
    SameKind legacy readonly h.before.mmio :=
  fold_invariant (fun blk => SameKind legacy readonly blk.mmio)
    (fun _ _ _ kept taken => access_kind kept taken) kind h.ran

theorem History.reset_after (kind : SameKind legacy readonly start.mmio)
    (h : History size start) :
    Reset h.before.mmio h.after.mmio ∧ h.after.config = h.before.config := by
  obtain ⟨_, answered⟩ := access_step_ok h.done
  obtain ⟨_, stepped, same⟩ := bind_ok answered
  cases same
  have request : command h.before.mmio.vdev.legacy h.reset = .status 0 := by
    rw [(h.kind kind).1, ← kind.1]
    exact h.resets
  rw [event_write, request] at stepped
  cases done : perform h.before.mmio h.host (.status 0) with
  | error fault => simp [done] at stepped
  | ok mmio =>
      simp only [done, Except.ok.injEq] at stepped
      rw [← stepped]
      exact ⟨status_zero_resets done, rfl⟩

theorem histories_alike (kind : SameKind legacy readonly start.mmio)
    {first second : History size start} (same : SameSticky size first.before second.before) :
    BlkAlike size legacy [] first.after second.after := by
  obtain ⟨left, leftConfig⟩ := first.reset_after kind
  obtain ⟨right, rightConfig⟩ := second.reset_after kind
  have leftKind := first.kind kind
  have rightKind := second.kind kind
  have transport : first.after.mmio.vdev.legacy = first.before.mmio.vdev.legacy := left.transport
  constructor
  · constructor
    · rw [transport, leftKind.1]
    · rw [left.transport, right.transport, leftKind.1, rightKind.1]
    · rw [left.readonly, right.readonly, leftKind.2, rightKind.2]
    · rw [left.features, right.features, same.features]
    · exact iff_of_false left.started right.started
    · rw [left.status, right.status]
    · rw [left.interrupts, right.interrupts, same.interrupts]
    · rw [left.model, right.model, same.model]
    · rw [left.queue, right.queue, transport]
      exact same.queue
    · rw [transport, left.pageSize, right.pageSize]
      exact same.pageSize
    · rw [left.threads, right.threads, same.threads]
    · rw [left.threads, left.ioThread, right.ioThread]
      exact same.joined
    · intro selector member
      cases member
  · rw [leftConfig, rightConfig]
    exact same.config

end Histories

/-- After two histories that agree in what a reset leaves, the guest cannot tell
them apart: neither by the replies, nor by the outcome. -/
theorem reset_erases_history (size : Nat) (legacy readonly : Bool) (useGnttab : Option Bool)
    (config : Members)
    (first second : History size (createdBlk legacy readonly useGnttab config))
    (same : SameSticky size first.before second.before) (accesses : List Access)
    (continued : Continuation size legacy accesses) :
    seen first.after accesses = seen second.after accesses := by
  have alike : BlkAlike size legacy [] first.after second.after := histories_alike ⟨rfl, rfl⟩ same
  have keeps : ∀ written left right a, BlkAlike size legacy written left right →
      Permitted size legacy written a → Lockstep (fun left right => left.2 = right.2 ∧
        BlkAlike size legacy (note legacy written a) left.1 right.1)
      (access left a) (access right a) :=
    fun _ _ _ a kept permitted => access_alike kept a permitted
  have together := replies_lockstep keeps alike continued
  apply Lockstep.same
  unfold seen
  cases left : replies access first.after accesses <;>
    cases right : replies access second.after accesses <;> rw [left, right] at together
  · exact together
  · exact together.elim
  · exact together.elim
  · obtain ⟨sameReplies, final⟩ := together
    show Seen.mk _ _ _ = Seen.mk _ _ _
    rw [sameReplies, final.mmio.features, final.mmio.queue.eventIdx]

/-- A device of a server in which another device has decided for foreign pages. -/
def device : BlkMmio := createdBlk false false (some false) fun _ => 0

def resetAlone : History 60 device where
  accesses := []
  reset := wordTo .status 0
  host := willingHost
  before := _
  after := _
  within := by simp [Within]
  ran := rfl
  resets := rfl
  done := rfl

def driven : History 60 device where
  accesses := [.write (wordTo .queueDescLow 0x1000) willingHost,
    .write (wordTo .queueReady 1) willingHost, .write (wordTo .status 4) willingHost]
  reset := wordTo .status 0
  host := willingHost
  before := _
  after := _
  within := by simp [Within]
  ran := rfl
  resets := rfl
  done := rfl

def lookAtQueue : List Access :=
  [.write (wordTo .queueSel 0) willingHost, .read (wordFrom .queueReady),
    .read (wordFrom .queueDescLow)]

theorem look_at_queue_continues (size : Nat) : Continuation size false lookAtQueue := by
  refine ⟨⟨?_, trivial, ?_⟩, ⟨?_, trivial, ?_⟩, ⟨?_, trivial, ?_⟩, trivial⟩
  · decide
  · simp
  · decide
  · simp
  · decide
  · simp

theorem reset_erases_driven_queue :
    seen driven.after lookAtQueue = seen resetAlone.after lookAtQueue :=
  reset_erases_history 60 false false (some false) (fun _ => 0) driven resetAlone
    { features := rfl
      interrupts := rfl
      config := fun _ _ => rfl
      model := rfl
      pageSize := fun legacy => nomatch legacy
      queue := QueueAlike.refl _ _
      threads := by decide
      joined := Or.inl (by decide) }
    lookAtQueue (look_at_queue_continues 60)

def accepting : History 60 device where
  accesses := [.write (wordTo .driverFeatures 0x20000000) willingHost]
  reset := wordTo .status 0
  host := willingHost
  before := _
  after := _
  within := by simp [Within]
  ran := rfl
  resets := rfl
  done := rfl

/-- A feature that was accepted before the reset is still accepted after it. -/
theorem accepted_feature_survives :
    ¬ ∀ (first second : History 60 device) (accesses : List Access),
      Continuation 60 false accesses →
        seen first.after accesses = seen second.after accesses := by
  intro erased
  have same := erased accepting resetAlone [] trivial
  have features : accepting.after.mmio.vdev.features = resetAlone.after.mmio.vdev.features := by
    injection same with outcome
    exact congrArg Seen.features outcome
  exact absurd features (by decide)

end VirtioDisk.ResetErasure
