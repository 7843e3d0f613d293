import VirtioDisk.QueueReset

/-!
The balance of activations: what exists for the queue while it is enabled, and
that nothing is left of it while it is not. init_vq sets `enabled` first and
takes the mappings, the event descriptor and the thread after that; it never
looks whether the queue is enabled already, and its result is dropped.
-/

namespace VirtioDisk.QueueLifecycle

open GuestMapping MmioRegisters QueueReset Transition

/-- One I/O thread, one event descriptor and one set of ring mappings: those that
the exit of the queue will join, close and unmap. -/
structure Running (dev : MmioDevice) : Prop where
  oneThread : dev.threads = [dev.ioThread]
  oneEventfd : dev.openFds = [dev.ioEfd]
  oneRing : Maps dev.demu (ringRanges dev.vq)

structure Idle (dev : MmioDevice) : Prop where
  noThread : dev.threads = []
  noEventfd : dev.openFds = []
  unmapped : dev.demu.held = []

structure Balanced (dev : MmioDevice) : Prop where
  running : dev.vq.enabled = true → Running dev
  idle : dev.vq.enabled = false → Idle dev

theorem created_balanced (legacy readonly : Bool) (useGnttab : Option Bool) :
    Balanced (created legacy readonly useGnttab) where
  running := by simp [created, clearedQueue]
  idle := fun _ => ⟨rfl, rfl, rfl⟩

/-- What a write leaves alone when it works on no queue. -/
theorem Balanced.same_queue {dev next : MmioDevice} (balanced : Balanced dev)
    (threads : next.threads = dev.threads) (ioThread : next.ioThread = dev.ioThread)
    (openFds : next.openFds = dev.openFds) (ioEfd : next.ioEfd = dev.ioEfd)
    (demu : next.demu = dev.demu) (enabled : next.vq.enabled = dev.vq.enabled)
    (rings : dev.vq.enabled = true → Maps dev.demu (ringRanges dev.vq) →
      Maps dev.demu (ringRanges next.vq)) : Balanced next := by
  constructor
  · intro on
    obtain ⟨oneThread, oneEventfd, oneRing⟩ := balanced.running (enabled ▸ on)
    constructor
    · rw [threads, ioThread, oneThread]
    · rw [openFds, ioEfd, oneEventfd]
    · rw [demu]
      exact rings (enabled ▸ on) oneRing
  · intro off
    obtain ⟨noThread, noEventfd, unmapped⟩ := balanced.idle (enabled ▸ off)
    constructor
    · rw [threads, noThread]
    · rw [openFds, noEventfd]
    · rw [demu, unmapped]

section Preservation
variable {dev : MmioDevice}

/-- A deactivation undoes the one activation there was. -/
theorem exit_balanced (balanced : Balanced dev) :
    ∃ next, virtioExitVq dev 0 = .ok next ∧ next.vq.enabled = false ∧ Idle next := by
  rw [exit_vq_first]
  cases enabled : dev.vq.enabled with
  | false =>
      obtain ⟨noThread, noEventfd, unmapped⟩ := balanced.idle enabled
      exact ⟨_, rfl, rfl, noThread, noEventfd, unmapped⟩
  | true =>
      obtain ⟨oneThread, oneEventfd, oneRing⟩ := balanced.running enabled
      have alive : dev.ioThread ∈ dev.threads := by simp [oneThread]
      simp only [alive, if_true]
      apply Exists.intro (stoppedDevice dev)
      apply And.intro rfl
      apply And.intro rfl
      constructor
      · simp [stoppedDevice, oneThread]
      · simp [stoppedDevice, oneEventfd]
      · exact unmap_rings_holds oneRing.holds

theorem Idle.balanced {dev : MmioDevice} (idle : Idle dev) (disabled : dev.vq.enabled = false) :
    Balanced dev where
  running := fun enabled => absurd (disabled.symm.trans enabled) Bool.false_ne_true
  idle := fun _ => idle

theorem status_balanced (balanced : Balanced dev) (status : UInt8) :
    Outcome Balanced OnlyBug (virtioNotifyStatus dev status) := by
  by_cases reset : status = 0 ∧ Started dev
  · obtain ⟨rfl, started⟩ := reset
    obtain ⟨exited, done, disabled, idle⟩ := exit_balanced balanced
    obtain ⟨word, settled⟩ := notify_status_reset dev started
    rw [settled, done]
    exact Idle.balanced ⟨idle.noThread, idle.noEventfd, idle.unmapped⟩ disabled
  · obtain ⟨word, same⟩ := notify_status_other dev status
      (fun zero => by_contra fun set => reset ⟨zero, set⟩)
    rw [same]
    exact balanced.same_queue rfl rfl rfl rfl rfl rfl fun _ maps => maps

theorem address_balanced (balanced : Balanced dev) (word : AddressWord) (val : UInt32)
    (first : dev.hdr.queueSel = 0)
    (kept : dev.vq.enabled = true → dev.vq.vringAddr.legacy = true →
      legacyRingPages { dev.vq with vringAddr := storeWord dev.vq.vringAddr val word } =
        legacyRingPages dev.vq) :
    Outcome Balanced OnlyBug (setSelectedWord dev word val) := by
  have stored : setSelectedWord dev word val =
      .ok (dev.withAddr (storeWord dev.vq.vringAddr val word)) := by
    simp only [setSelectedWord, first, get_vq_first, bind, Except.bind]
    rfl
  have sameKind : (storeWord dev.vq.vringAddr val word).legacy = dev.vq.vringAddr.legacy := by
    cases word <;> rfl
  rw [stored]
  show Balanced (dev.withAddr (storeWord dev.vq.vringAddr val word))
  refine balanced.same_queue rfl rfl rfl rfl rfl rfl ?_
  intro enabled maps
  unfold ringRanges at maps ⊢
  simp only [MmioDevice.withAddr, sameKind]
  split at maps
  · rename_i legacy
    rw [if_pos legacy]
    exact maps_resized maps (kept enabled legacy)
  · rename_i modern
    rw [if_neg modern]
    exact maps

theorem activate_balanced (balanced : Balanced dev) (val : UInt32) {host : HostAnswers}
    (first : dev.hdr.queueSel = 0) (disabled : dev.vq.enabled = false)
    (opened : 0 ≤ host.eventfd) (spawned : host.ioThread ≠ none) :
    Outcome Balanced OnlyBug (perform dev host (.activate val)) := by
  obtain ⟨noThread, noEventfd, unmapped⟩ := balanced.idle disabled
  rw [activate_first dev host val first, init_vq_first]
  split
  · rfl
  · rename_i vring demu mapped
    have maps := map_rings_maps unmapped mapped
    have valid : ¬ host.eventfd < 0 := by omega
    cases thread : host.ioThread with
    | none => exact absurd thread spawned
    | some thread =>
        simp only [startIoThread, valid, if_false, thread]
        constructor
        · intro _
          constructor
          · simp [MmioDevice.withAddr, noThread]
          · simp [MmioDevice.withAddr, noEventfd]
          · exact maps
        · intro off
          cases off

theorem perform_balanced (balanced : Balanced dev) (host : HostAnswers) (request : Command)
    (orderly : OrderlyCommand dev host request) :
    Outcome Balanced OnlyBug (perform dev host request) := by
  cases request with
  | activate val =>
      obtain ⟨first, disabled, opened, spawned⟩ := orderly
      exact activate_balanced balanced val first disabled opened spawned
  | deactivate =>
      obtain ⟨next, done, disabled, idle⟩ := exit_balanced balanced
      have first : dev.hdr.queueSel = 0 := orderly
      show Outcome Balanced OnlyBug (virtioExitVq dev dev.hdr.queueSel)
      rw [first, done]
      exact idle.balanced disabled
  | address word val => exact address_balanced balanced word val orderly.1 orderly.2
  | status val =>
      apply status_balanced
      exact balanced.same_queue rfl rfl rfl rfl rfl rfl fun _ maps => maps
  | driverFeatures val =>
      show Balanced (if dev.hdr.guestFeaturesSel = 0 then _ else dev)
      split
      · exact balanced.same_queue rfl rfl rfl rfl rfl rfl fun _ maps => maps
      · exact balanced
  | ignored | notify | deviceFeaturesSel | driverFeaturesSel | queueSel | guestPageSize | queueNum
  | interruptAck =>
      exact balanced.same_queue rfl rfl rfl rfl rfl rfl fun _ maps => maps

theorem step_balanced (balanced : Balanced dev) (event : Event) (orderly : Orderly dev event) :
    Outcome Balanced OnlyBug (step dev event) := by
  cases event with
  | write w host =>
      show Outcome Balanced OnlyBug (callback dev w host)
      rw [callback_performs]
      exact perform_balanced balanced host _ orderly
  | served lastAvailIdx lastUsedSignalled signalled =>
      show Balanced (served dev lastAvailIdx lastUsedSignalled signalled)
      rcases served_cases dev lastAvailIdx lastUsedSignalled signalled with
        same | ⟨_, interruptState, same⟩
      · rw [same]
        exact balanced
      · rw [same]
        exact balanced.same_queue rfl rfl rfl rfl rfl rfl fun _ maps => maps

end Preservation

/-- In every run of orderly writes the queue is enabled exactly while one thread,
one event descriptor and one set of ring mappings exist for it. -/
theorem activations_balanced (legacy readonly : Bool) (useGnttab : Option Bool)
    (events : List Event)
    (orderly : Meets step Orderly (created legacy readonly useGnttab) events) :
    Outcome Balanced OnlyBug (events.foldlM step (created legacy readonly useGnttab)) :=
  fold_meets (fun _ event permitted balanced => step_balanced balanced event permitted)
    (created_balanced legacy readonly useGnttab) orderly

theorem activations_balanced_bring_up :
    Outcome Balanced OnlyBug (bringUp.foldlM step (created false false none)) :=
  activations_balanced false false none bringUp
    ⟨⟨rfl, rfl, by decide, by decide⟩, trivial, trivial⟩

def activatedTwice : List Event := activation ++ activation

/-- QUEUE_READY := 1 twice: two threads run for one queue. -/
theorem second_activation_unbalanced :
    ¬ Outcome (fun dev => dev.vq.enabled = true ↔ Running dev) OnlyBug
      (activatedTwice.foldlM step (created false false none)) := by
  intro balanced
  have oneThread : [7, 7] = [7] := (balanced.mp rfl).oneThread
  cases oneThread

end VirtioDisk.QueueLifecycle
