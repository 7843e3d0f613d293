import VirtioDisk.ResetErasure

/-!
The two transports side by side. On the registers that both have, virtio/mmio-legacy.c
and virtio/mmio-modern.c do the same, except that the legacy one samples the endianness
at a reset. Two devices that start out alike then reply alike, and stay so in all but
the transport and this one member.
-/

namespace VirtioDisk.TransportAgreement

open ByteStore GuestAccess MmioRegisters QueueSelector ResetErasure Transition

/-- MAGIC, DEVICE_ID, VENDOR_ID, DEVICE_FEATURES and its selector, DRIVER_FEATURES and its
selector, QUEUE_SEL, QUEUE_NUM_MAX, QUEUE_NUM, QUEUE_NOTIFY, INTERRUPT_STATUS, INTERRUPT_ACK
and STATUS. -/
def sharedOffsets : List UInt32 :=
  [0x000, 0x008, 0x00c, 0x010, 0x014, 0x020, 0x024, 0x030, 0x034, 0x038, 0x050, 0x060, 0x064,
    0x070]

/-- An access both transports are to treat alike; `sel` is the selector of the host features. -/
def Shared (size : Nat) (sel : UInt32) : Access → Prop
  | .write w _ => w.len = 4 ∧ w.offset ∈ sharedOffsets
  | .read r => r.len = 4 ∧ r.offset ∈ sharedOffsets ∧
      (r.offset = ReadRegister.deviceFeatures.offset → sel = 0)
  | .configWrite offset len _ => offset + len ≤ size
  | .configRead offset len => offset + len ≤ size
  | .served _ _ _ => True

instance (size : Nat) (sel : UInt32) : DecidablePred (Shared size sel)
  | .write _ _ => inferInstanceAs (Decidable (_ ∧ _))
  | .read _ => inferInstanceAs (Decidable (_ ∧ _ ∧ (_ → _)))
  | .configWrite _ _ _ => inferInstanceAs (Decidable (_ ≤ _))
  | .configRead _ _ => inferInstanceAs (Decidable (_ ≤ _))
  | .served _ _ _ => instDecidableTrue

def track (sel : UInt32) : Access → UInt32
  | .write w _ => if w.offset = Register.deviceFeaturesSel.offset then w.data else sel
  | _ => sel

/-- The device with the other transport. -/
def withTransport (legacy : Bool) (blk : BlkMmio) : BlkMmio :=
  { blk with mmio := { blk.mmio with vdev := { blk.mmio.vdev with legacy := legacy } } }

def twin (endian : UInt16) (dev : MmioDevice) : MmioDevice :=
  { dev with vdev := { dev.vdev with legacy := true, endian := endian } }

/-- All of the registers, features, status words, queue records and config are equal; the
transports differ, and what the legacy one has sampled. -/
structure Twins (sel : UInt32) (legacy modern : BlkMmio) : Prop where
  mmio : legacy.mmio = twin legacy.mmio.vdev.endian modern.mmio
  config : legacy.config = modern.config
  transport : modern.mmio.vdev.legacy = false
  selector : modern.mmio.hdr.hostFeaturesSel = sel

section Registers
variable (endian : UInt16) (dev : MmioDevice)

theorem twin_exit : virtioExitVq (twin endian dev) 0 = (virtioExitVq dev 0).map (twin endian) := by
  rw [exit_vq_first, exit_vq_first]
  cases enabled : dev.vq.enabled with
  | false => simp [twin, enabled, Except.map]
  | true =>
      by_cases alive : dev.ioThread ∈ dev.threads <;>
        simp [twin, stoppedDevice, enabled, alive, Except.map]

theorem twin_swab (status : UInt8) :
    swabOnReset (twin endian dev) status = twin endian (swabOnReset dev status) := by
  unfold swabOnReset
  split <;> split <;> first | rfl | contradiction

theorem twin_status (status : UInt8) :
    virtioNotifyStatus (twin endian dev) status =
      (virtioNotifyStatus dev status).map (twin endian) := by
  have word : statusWord (twin endian dev) status = statusWord dev status := rfl
  have stored (value : UInt32) :
      (twin endian dev).setStatus value = twin endian (dev.setStatus value) := rfl
  unfold virtioNotifyStatus
  simp only [word, stored, reset_first]
  by_cases started : status &&& virtioConfigSDriverOk ≠ 0 ∧
      statusWord dev status &&& virtioStatusStart = 0
  · simp only [if_pos started, bind, Except.bind, twin_swab, Except.map]
  · by_cases reset : status = 0 ∧ statusWord dev status &&& virtioStatusStart ≠ 0
    · simp only [if_neg started, if_pos reset, twin_exit]
      cases virtioExitVq (dev.setStatus (statusWord dev status &&& ~~~virtioStatusStart)) 0 with
      | error fault => rfl
      | ok next => simp only [bind, Except.bind, Except.map, twin_swab]
    · simp only [if_neg started, if_neg reset, bind, Except.bind, twin_swab, Except.map]

theorem twin_served (lastAvailIdx lastUsedSignalled : UInt16) (signalled : Bool) :
    served (twin endian dev) lastAvailIdx lastUsedSignalled signalled =
      twin endian (served dev lastAvailIdx lastUsedSignalled signalled) := by
  by_cases idle : dev.threads = [] ∨ dev.vq.vring.avail = 0
  · have resting : served dev lastAvailIdx lastUsedSignalled signalled = dev := if_pos idle
    rw [resting]
    exact if_pos idle
  · have worked : served dev lastAvailIdx lastUsedSignalled signalled = _ := if_neg idle
    rw [worked]
    exact if_neg idle

/-- The commands that neither transport has for itself. -/
def Common : Command → Prop
  | .address _ _ | .activate _ | .deactivate | .guestPageSize _ => False
  | _ => True

theorem shared_registers : ∀ offset ∈ sharedOffsets, ∀ register, registerAt offset = some register →
    ∀ val, modernCommand register val = legacyCommand register val ∧
      Common (legacyCommand register val) := by
  intro offset shared register found val
  have own : sharedOffsets.all (fun offset => registerAt offset ∉ [some Register.guestPageSize,
      some .queueAlign, some .queuePfn, some .queueReady, some .queueDescLow, some .queueDescHigh,
      some .queueAvailLow, some .queueAvailHigh, some .queueUsedLow, some .queueUsedHigh]) := by
    decide
  have foreign := of_decide_eq_true (List.all_eq_true.mp own offset shared)
  rw [found] at foreign
  cases register
  case deviceFeaturesSel | driverFeatures | driverFeaturesSel | queueSel | queueNum | queueNotify
      | interruptAck | status =>
    exact ⟨rfl, trivial⟩
  all_goals exact absurd (by decide) foreign

theorem shared_command (w : RegisterWrite) (len : w.len = 4) (shared : w.offset ∈ sharedOffsets) :
    command true w = command false w ∧ Common (command false w) := by
  unfold command
  cases found : registerAt w.offset with
  | none => exact ⟨rfl, trivial⟩
  | some register =>
      obtain ⟨same, common⟩ := shared_registers w.offset shared register found w.data
      simp only [len, if_true, Bool.false_eq_true, if_false, ne_eq, not_true_eq_false, same]
      exact ⟨trivial, common⟩

/-- The endianness that the legacy transport has sampled after a command. -/
def sampled (endian : UInt16) : Command → UInt16
  | .status val => if val = 0 then virtioEndianHost else endian
  | _ => endian

theorem twin_perform (host : HostAnswers) {request : Command} (common : Common request) :
    perform (twin endian dev) host request =
      (perform dev host request).map (twin (sampled endian request)) := by
  cases request with
  | address _ _ | activate _ | deactivate | guestPageSize _ => exact common.elim
  | status val =>
      have stored : statusStored (twin endian dev) val =
          twin (sampled endian (.status val)) (statusStored dev val) := by
        simp [statusStored, twin, sampled]
      show virtioNotifyStatus (statusStored (twin endian dev) val) val.toUInt8 = _
      rw [stored]
      exact twin_status _ _ _
  | driverFeatures val =>
      by_cases first : dev.hdr.guestFeaturesSel = 0 <;>
        simp [perform, twin, sampled, first, virtioSetGuestFeatures, Except.map]
  | ignored | deviceFeaturesSel _ | driverFeaturesSel _ | queueSel _ | queueNum _
  | interruptAck _ | notify => rfl

/-- The bits that the modern transport adds to the features are in the high word. -/
theorem low_features :
    ((1 <<< virtioFVersion1 ||| 1 <<< virtioFAccessPlatform ||| getHostFeatures dev) >>>
      (32 * (0 : UInt32).toUInt64)).toUInt32 = (getHostFeatures dev).toUInt32 := by
  unfold getHostFeatures
  cases dev.readonly <;> decide

theorem twin_read (modern : dev.vdev.legacy = false) (r : RegisterRead) (len : r.len = 4)
    (shared : r.offset ∈ sharedOffsets)
    (selected : r.offset = ReadRegister.deviceFeatures.offset → dev.hdr.hostFeaturesSel = 0) :
    readCallback (twin endian dev) r = readCallback dev r := by
  have own : sharedOffsets.all (fun offset => readRegisterAt offset ∉ [some ReadRegister.version,
      some .queuePfn, some .queueReady, some .queueDescLow, some .queueDescHigh,
      some .queueAvailLow, some .queueAvailHigh, some .queueUsedLow, some .queueUsedHigh]) := by
    decide
  have foreign := of_decide_eq_true (List.all_eq_true.mp own r.offset shared)
  show Legacy.virtioMmioConfigIn (twin endian dev) r.offset = readCallback dev r
  unfold readCallback
  simp only [modern, len, Bool.false_eq_true, if_false, ne_eq, not_true_eq_false]
  unfold Legacy.virtioMmioConfigIn Modern.virtioMmioConfigIn
  cases found : readRegisterAt r.offset with
  | none => rfl
  | some register =>
      rw [found] at foreign
      cases register
      case deviceFeatures =>
        have zero : dev.hdr.hostFeaturesSel = 0 := selected (by
          have same := List.find?_some found
          exact (beq_iff_eq.mp same).symm)
        have low := low_features dev
        simp only [twin, zero, if_true]
        rw [if_neg (by decide), low]
        rfl
      case magicValue | deviceId | vendorId | queueNumMax | interruptStatus | status
          | configGeneration => rfl
      all_goals exact absurd (by decide) foreign

end Registers

section Accesses
variable {size : Nat} {sel : UInt32} {legacy modern : BlkMmio}

/-- The selector of the host features after a command. -/
def commandSel (sel : UInt32) : Command → UInt32
  | .deviceFeaturesSel val => val
  | _ => sel

theorem exit_selector {dev next : MmioDevice} {num : UInt32}
    (done : virtioExitVq dev num = .ok next) :
    next.hdr.hostFeaturesSel = dev.hdr.hostFeaturesSel := by
  obtain ⟨_, rfl | rfl⟩ := exit_vq_ok done
  · rfl
  · rfl

theorem perform_selector {dev next : MmioDevice} {host : HostAnswers} {request : Command}
    (common : Common request) (done : perform dev host request = .ok next) :
    next.hdr.hostFeaturesSel = commandSel dev.hdr.hostFeaturesSel request := by
  cases request with
  | address _ _ | activate _ | deactivate | guestPageSize _ => exact common.elim
  | status val =>
      obtain ⟨settled, word, rfl, rfl | exited⟩ := notify_status_ok done
      · rfl
      · have kept := exit_selector exited
        exact kept
  | driverFeatures val =>
      cases done
      split
      · rfl
      · rfl
  | ignored | deviceFeaturesSel _ | driverFeaturesSel _ | queueSel _ | queueNum _
  | interruptAck _ | notify =>
      cases done
      rfl

theorem track_write (sel : UInt32) (w : RegisterWrite) (host : HostAnswers) (len : w.len = 4) :
    track sel (.write w host) = commandSel sel (command false w) := by
  unfold track command
  cases found : registerAt w.offset with
  | none =>
      have other : w.offset ≠ Register.deviceFeaturesSel.offset := by
        intro same
        rw [same] at found
        exact absurd found (by decide)
      exact if_neg other
  | some register =>
      have same : register.offset = w.offset := beq_iff_eq.mp (List.find?_some found :)
      simp only [Bool.false_eq_true, if_false, len, ne_eq, not_true_eq_false, ← same]
      cases register
      case queueReady =>
        rw [if_neg (by decide)]
        show sel = commandSel sel (ready w.data)
        unfold ready
        split
        · rfl
        · rfl
      all_goals rfl

theorem write_together (twins : Twins sel legacy modern) (w : RegisterWrite) (host : HostAnswers)
    (len : w.len = 4) (shared : w.offset ∈ sharedOffsets) :
    Lockstep (Twins (track sel (.write w host))) (event legacy (.write w host))
      (event modern (.write w host)) := by
  obtain ⟨same, common⟩ := shared_command w len shared
  have other : legacy.mmio.vdev.legacy = true := by rw [twins.mmio]; rfl
  have both := twin_perform legacy.mmio.vdev.endian modern.mmio host common
  rw [event_write, event_write, other, twins.transport, same, track_write sel w host len]
  rw [twins.mmio, both]
  cases done : perform modern.mmio host (command false w) with
  | error fault => rfl
  | ok next =>
      refine ⟨rfl, twins.config, ?_, ?_⟩
      · exact (perform_kind ⟨twins.transport, rfl⟩ done).1
      · rw [← twins.selector]
        exact perform_selector common done

theorem served_together (twins : Twins sel legacy modern)
    (lastAvailIdx lastUsedSignalled : UInt16) (signalled : Bool) :
    Lockstep (Twins sel)
      (event legacy (.served lastAvailIdx lastUsedSignalled signalled))
      (event modern (.served lastAvailIdx lastUsedSignalled signalled)) := by
  have both := twin_served legacy.mmio.vdev.endian modern.mmio lastAvailIdx lastUsedSignalled
    signalled
  rw [← twins.mmio] at both
  refine ⟨?_, twins.config, ?_, ?_⟩
  · show served legacy.mmio lastAvailIdx lastUsedSignalled signalled = twin _ _
    rw [both]
    rfl
  · rcases served_cases modern.mmio lastAvailIdx lastUsedSignalled signalled with
      rested | ⟨_, state, worked⟩
    · show (served modern.mmio lastAvailIdx lastUsedSignalled signalled).vdev.legacy = false
      rw [rested, twins.transport]
    · show (served modern.mmio lastAvailIdx lastUsedSignalled signalled).vdev.legacy = false
      rw [worked]
      exact twins.transport
  · rcases served_cases modern.mmio lastAvailIdx lastUsedSignalled signalled with
      rested | ⟨_, state, worked⟩
    · show (served modern.mmio lastAvailIdx lastUsedSignalled signalled).hdr.hostFeaturesSel = sel
      rw [rested, twins.selector]
    · show (served modern.mmio lastAvailIdx lastUsedSignalled signalled).hdr.hostFeaturesSel = sel
      rw [worked]
      exact twins.selector

theorem access_together (twins : Twins sel legacy modern) (a : Access)
    (shared : Shared size sel a) :
    Lockstep (fun left right => left.2 = right.2 ∧ Twins (track sel a) left.1 right.1)
      (access legacy a) (access modern a) := by
  cases a with
  | write w host =>
      apply (write_together twins w host shared.1 shared.2).bind
      intro left right kept
      exact ⟨rfl, kept⟩
  | served lastAvailIdx lastUsedSignalled signalled =>
      apply (served_together twins lastAvailIdx lastUsedSignalled signalled).bind
      intro left right kept
      exact ⟨rfl, kept⟩
  | read r =>
      obtain ⟨len, inside, selected⟩ := shared
      have same : readCallback legacy.mmio r = readCallback modern.mmio r := by
        rw [twins.mmio]
        apply twin_read _ _ twins.transport r len inside
        intro features
        rw [twins.selector, selected features]
      simp only [access]
      rw [same]
      cases readCallback modern.mmio r with
      | error fault => rfl
      | ok value => exact ⟨rfl, twins⟩
  | configRead offset len => exact ⟨congrArg (virtioReadConfig · offset len) twins.config, twins⟩
  | configWrite offset len data =>
      have same := congrArg (virtioWriteConfig · offset len data) twins.config
      exact ⟨rfl, { twins with config := same }⟩

/-- Two devices that differ in the transport alone reply alike to every sequence of shared
accesses, and are left alike by it. -/
theorem transports_agree (size : Nat) (blk : BlkMmio) (accesses : List Access)
    (shared : Follows track (Shared size) blk.mmio.hdr.hostFeaturesSel accesses) :
    Lockstep
      (fun legacy modern => legacy.1 = modern.1 ∧
        Twins (accesses.foldl track blk.mmio.hdr.hostFeaturesSel) legacy.2 modern.2)
      (replies access (withTransport true blk) accesses)
      (replies access (withTransport false blk) accesses) := by
  have start : Twins blk.mmio.hdr.hostFeaturesSel (withTransport true blk)
      (withTransport false blk) := ⟨rfl, rfl, rfl, rfl⟩
  have keeps : ∀ sel legacy modern a, Twins sel legacy modern → Shared size sel a →
      Lockstep (fun left right => left.2 = right.2 ∧ Twins (track sel a) left.1 right.1)
        (access legacy a) (access modern a) :=
    fun _ _ _ a twins allowed => access_together twins a allowed
  exact replies_lockstep keeps start shared

/-- A guest that looks at the features, accepts one, starts the driver and resets it again. -/
def probing : List Access :=
  [.read (wordFrom .magicValue), .write (wordTo .deviceFeaturesSel 0) willingHost,
    .read (wordFrom .deviceFeatures), .write (wordTo .driverFeatures 0x20000000) willingHost,
    .write (wordTo .status 4) willingHost, .configWrite 0 4 7, .configRead 0 2,
    .read (wordFrom .interruptStatus), .write (wordTo .status 0) willingHost,
    .read (wordFrom .status)]

theorem probing_shared : Follows track (Shared 60) 0 probing :=
  ⟨by decide, by decide, by decide, by decide, by decide, by decide, by decide, by decide,
    by decide, by decide, trivial⟩

theorem transports_probed_alike :
    Lockstep
      (fun legacy modern => legacy.1 = modern.1 ∧
        Twins (probing.foldl track 0) legacy.2 modern.2)
      (replies access (withTransport true device) probing)
      (replies access (withTransport false device) probing) :=
  transports_agree 60 device probing probing_shared

end Accesses

end VirtioDisk.TransportAgreement
