import VirtioDisk.MmioRegisters

/-!
What a write of 0 to STATUS leaves behind. virtio_notify_status takes the queues
down only if START is set, that is if DRIVER_OK was written before; a queue is
activated by another register, at any time. A second activation of an enabled
queue forgets the thread and the rings of the first, and one that fails half-way
leaves an enabled queue without a thread.
-/

namespace VirtioDisk.QueueReset

open GuestMapping MmioRegisters Transition Virtqueue

def Started (dev : MmioDevice) : Prop := dev.vdev.status &&& virtioStatusStart ≠ 0

instance (dev : MmioDevice) : Decidable (Started dev) := inferInstanceAs (Decidable (_ ≠ _))

structure Stopped (dev : MmioDevice) : Prop where
  disabled : dev.vq.enabled = false
  noThread : dev.threads = []
  unmapped : dev.demu.held = []

/-- The pages that the exit of a legacy queue unmaps from its ring. -/
def legacyRingPages (vq : VirtQueue) : UInt32 :=
  pageCount vq.vring.desc (vringSize (UInt32.ofNat vq.vring.num) vq.vringAddr.align)

/-- A write that does not break the balance of activations: it selects queue 0,
activates only a queue that is not enabled, with an event descriptor and a thread
to be had, and does not change the size of a legacy ring while it is in use. -/
def OrderlyCommand (dev : MmioDevice) (host : HostAnswers) : Command → Prop
  | .activate _ => dev.hdr.queueSel = 0 ∧ dev.vq.enabled = false ∧
      0 ≤ host.eventfd ∧ host.ioThread ≠ none
  | .deactivate => dev.hdr.queueSel = 0
  | .address word val => dev.hdr.queueSel = 0 ∧
      (dev.vq.enabled = true → dev.vq.vringAddr.legacy = true →
        legacyRingPages { dev.vq with vringAddr := storeWord dev.vq.vringAddr val word } =
          legacyRingPages dev.vq)
  | _ => True

def Orderly (dev : MmioDevice) : Event → Prop
  | .served _ _ _ => True
  | .write w host => OrderlyCommand dev host (command dev.vdev.legacy w)

structure Inv (dev : MmioDevice) : Prop where
  idle : dev.vq.enabled = false → dev.threads = [] ∧ dev.demu.held = []
  running : dev.vq.enabled = true →
    dev.threads = [dev.ioThread] ∧ Holds dev.demu (ringRanges dev.vq)

def OnlyBug (fault : Fault) : Prop := fault = .bugOn

theorem created_inv (legacy readonly : Bool) (useGnttab : Option Bool) :
    Inv (created legacy readonly useGnttab) where
  idle := fun _ => ⟨rfl, rfl⟩
  running := by simp [created, clearedQueue]

theorem Stopped.inv {dev : MmioDevice} (stopped : Stopped dev) : Inv dev where
  idle := fun _ => ⟨stopped.noThread, stopped.unmapped⟩
  running := fun enabled => absurd (stopped.disabled.symm.trans enabled) Bool.false_ne_true

section Preservation
variable {dev : MmioDevice}

theorem exit_stops (inv : Inv dev) :
    ∃ next, virtioExitVq dev 0 = .ok next ∧ Stopped next := by
  rw [exit_vq_first]
  cases enabled : dev.vq.enabled with
  | false =>
      obtain ⟨noThread, unmapped⟩ := inv.idle enabled
      exact ⟨_, rfl, rfl, noThread, unmapped⟩
  | true =>
      obtain ⟨alone, held⟩ := inv.running enabled
      have alive : dev.ioThread ∈ dev.threads := by simp [alone]
      simp only [alive, if_true]
      refine ⟨_, rfl, rfl, ?_, unmap_rings_holds held⟩
      simp [stoppedDevice, alone]

theorem status_inv (inv : Inv dev) (status : UInt8) :
    ∃ next, virtioNotifyStatus dev status = .ok next ∧ Inv next ∧
      (status = 0 → Started dev → Stopped next) ∧
      (status = 0 → ¬ Started dev → next.vq = dev.vq) := by
  by_cases reset : status = 0 ∧ Started dev
  · obtain ⟨rfl, started⟩ := reset
    obtain ⟨exited, done, stopped⟩ := exit_stops inv
    obtain ⟨word, settled⟩ := notify_status_reset dev started
    have still : Stopped (exited.setStatus word) :=
      ⟨stopped.disabled, stopped.noThread, stopped.unmapped⟩
    refine ⟨exited.setStatus word, ?_, still.inv, fun _ _ => still, ?_⟩
    · rw [settled, done]
      rfl
    · intro _ unstarted
      exact absurd started unstarted
  · obtain ⟨word, same⟩ := notify_status_other dev status
      (fun zero => by_contra fun set => reset ⟨zero, set⟩)
    refine ⟨_, same, ⟨inv.idle, inv.running⟩, ?_, fun _ _ => rfl⟩
    intro zero started
    exact absurd ⟨zero, started⟩ reset

theorem address_inv (inv : Inv dev) (word : AddressWord) (val : UInt32)
    (first : dev.hdr.queueSel = 0)
    (kept : dev.vq.enabled = true → dev.vq.vringAddr.legacy = true →
      legacyRingPages { dev.vq with vringAddr := storeWord dev.vq.vringAddr val word } =
        legacyRingPages dev.vq) :
    Outcome Inv OnlyBug (setSelectedWord dev word val) := by
  have stored : setSelectedWord dev word val =
      .ok (dev.withAddr (storeWord dev.vq.vringAddr val word)) := by
    simp only [setSelectedWord, first, get_vq_first, bind, Except.bind]
    rfl
  have sameKind : (storeWord dev.vq.vringAddr val word).legacy = dev.vq.vringAddr.legacy := by
    cases word <;> rfl
  rw [stored]
  refine ⟨inv.idle, fun enabled => ?_⟩
  obtain ⟨alone, held⟩ := inv.running enabled
  refine ⟨alone, ?_⟩
  unfold ringRanges at held ⊢
  simp only [MmioDevice.withAddr, sameKind]
  split at held
  · rename_i legacy
    simp only [legacy, if_true]
    exact holds_resized held (kept enabled legacy)
  · rename_i modern
    rw [if_neg modern]
    exact held

theorem activate_inv (inv : Inv dev) (val : UInt32) {host : HostAnswers}
    (first : dev.hdr.queueSel = 0) (disabled : dev.vq.enabled = false)
    (opened : 0 ≤ host.eventfd) (spawned : host.ioThread ≠ none) :
    Outcome Inv OnlyBug (perform dev host (.activate val)) := by
  obtain ⟨noThread, unmapped⟩ := inv.idle disabled
  rw [activate_first dev host val first, init_vq_first]
  split
  · rfl
  · rename_i vring demu mapped
    have held := (map_rings_maps unmapped mapped).holds
    have valid : ¬ host.eventfd < 0 := by omega
    cases thread : host.ioThread with
    | none => exact absurd thread spawned
    | some thread =>
        simp only [startIoThread, valid, if_false, thread]
        constructor
        · intro off
          cases off
        · intro _
          exact ⟨by simp [MmioDevice.withAddr, noThread], held⟩

theorem perform_inv (inv : Inv dev) (host : HostAnswers) (request : Command)
    (orderly : OrderlyCommand dev host request) :
    Outcome Inv OnlyBug (perform dev host request) := by
  cases request with
  | activate val =>
      obtain ⟨first, disabled, opened, spawned⟩ := orderly
      exact activate_inv inv val first disabled opened spawned
  | deactivate =>
      obtain ⟨next, done, stopped⟩ := exit_stops inv
      have first : dev.hdr.queueSel = 0 := orderly
      show Outcome Inv OnlyBug (virtioExitVq dev dev.hdr.queueSel)
      rw [first, done]
      exact stopped.inv
  | address word val => exact address_inv inv word val orderly.1 orderly.2
  | status val =>
      have stored : Inv (statusStored dev val) := ⟨inv.idle, inv.running⟩
      obtain ⟨next, done, kept, _⟩ := status_inv stored val.toUInt8
      show Outcome Inv OnlyBug (virtioNotifyStatus (statusStored dev val) val.toUInt8)
      rw [done]
      exact kept
  | driverFeatures val =>
      show Inv (if dev.hdr.guestFeaturesSel = 0 then _ else dev)
      split
      · exact ⟨inv.idle, inv.running⟩
      · exact inv
  | ignored | notify | deviceFeaturesSel | driverFeaturesSel | queueSel | guestPageSize | queueNum
  | interruptAck => exact ⟨inv.idle, inv.running⟩

theorem step_inv (inv : Inv dev) (event : Event) (orderly : Orderly dev event) :
    Outcome Inv OnlyBug (step dev event) := by
  cases event with
  | write w host =>
      show Outcome Inv OnlyBug (callback dev w host)
      rw [callback_performs]
      exact perform_inv inv host _ orderly
  | served lastAvailIdx lastUsedSignalled signalled =>
      show Inv (served dev lastAvailIdx lastUsedSignalled signalled)
      rcases served_cases dev lastAvailIdx lastUsedSignalled signalled with
        same | ⟨_, interruptState, same⟩
      · rw [same]
        exact inv
      · rw [same]
        exact ⟨inv.idle, inv.running⟩

end Preservation

/-- A write of 0 to STATUS ends in a state in which nothing of the queue is left. -/
def ResetStops (dev : MmioDevice) (w : RegisterWrite) (host : HostAnswers) : Prop :=
  Outcome Stopped (fun _ => False) (step dev (.write w host))

theorem reset_iff_started {dev : MmioDevice} (inv : Inv dev) (w : RegisterWrite)
    (host : HostAnswers) (reset : command dev.vdev.legacy w = .status 0) :
    ResetStops dev w host ↔ (dev.vq.enabled = true → Started dev) := by
  have stored : Inv (statusStored dev 0) := ⟨inv.idle, inv.running⟩
  obtain ⟨next, done, kept, taken, left⟩ := status_inv stored 0
  have stepped : step dev (.write w host) = .ok next := by
    show callback dev w host = _
    rw [callback_performs, reset]
    exact done
  unfold ResetStops
  rw [stepped]
  constructor
  · intro stopped enabled
    by_contra unstarted
    have same : next.vq = dev.vq := left rfl unstarted
    have disabled : next.vq.enabled = false := Stopped.disabled stopped
    rw [same] at disabled
    exact Bool.false_ne_true (disabled.symm.trans enabled)
  · intro condition
    by_cases started : Started dev
    · exact taken rfl started
    · have disabled : dev.vq.enabled = false := by
        cases enabled : dev.vq.enabled with
        | false => rfl
        | true => exact absurd (condition enabled) started
      have same : next.vq = dev.vq := left rfl started
      obtain ⟨noThread, unmapped⟩ := kept.idle (same ▸ disabled)
      exact ⟨same ▸ disabled, noThread, unmapped⟩

/-- After any orderly run, a write of 0 to STATUS stops an enabled queue exactly
if START is set. -/
theorem reset_stops_queue_iff_started (legacy readonly : Bool) (useGnttab : Option Bool)
    (events : List Event)
    (orderly : Meets step Orderly (created legacy readonly useGnttab) events) :
    Outcome (fun dev => ∀ w host, command dev.vdev.legacy w = .status 0 →
        (ResetStops dev w host ↔ (dev.vq.enabled = true → Started dev)))
      OnlyBug (events.foldlM step (created legacy readonly useGnttab)) := by
  have reached : Outcome Inv OnlyBug (events.foldlM step (created legacy readonly useGnttab)) :=
    fold_meets (fun _ event permitted inv => step_inv inv event permitted)
      (created_inv legacy readonly useGnttab) orderly
  cases ran : events.foldlM step (created legacy readonly useGnttab) with
  | error fault =>
      rw [ran] at reached
      exact reached
  | ok dev =>
      rw [ran] at reached
      intro w host reset
      exact reset_iff_started reached w host reset

def activation : List Event := [.write (wordTo .queueReady 1) willingHost]

def bringUp : List Event := activation ++ [.write (wordTo .status 4) willingHost]

theorem reset_stops_queue_driver_ok : ∃ dev,
    bringUp.foldlM step (created false false none) = .ok dev ∧ dev.vq.enabled = true ∧
      ResetStops dev (wordTo .status 0) willingHost :=
  have stops := reset_stops_queue_iff_started false false none bringUp
    ⟨⟨rfl, rfl, by decide, by decide⟩, trivial, trivial⟩
  ⟨_, rfl, rfl, (stops (wordTo .status 0) willingHost rfl).mpr fun _ => by decide⟩

/-- QUEUE_READY, then a reset before DRIVER_OK: the queue and its thread stay. -/
theorem reset_before_driver_ok : ∃ dev,
    activation.foldlM step (created false false none) = .ok dev ∧
      ¬ ResetStops dev (wordTo .status 0) willingHost := by
  refine ⟨_, rfl, ?_⟩
  intro stopped
  have disabled : true = false := Stopped.disabled stopped
  cases disabled

end VirtioDisk.QueueReset
