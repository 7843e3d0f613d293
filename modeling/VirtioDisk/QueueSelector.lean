import VirtioDisk.GuestAccess

/-!
Which element of `bdev->vqs` an access works on. QUEUE_SEL stores any word, and
vmmio_selected_vq turns it into an element of the array at every later use,
without a look at get_vq_count. The reset alone counts its queues itself.
-/

namespace VirtioDisk.QueueSelector

open GuestAccess MmioRegisters Transition

/-- The commands that work on the selected queue. -/
def Command.selected : Command → Bool
  | .address _ _ | .activate _ | .deactivate => true
  | .ignored | .deviceFeaturesSel _ | .driverFeaturesSel _ | .queueSel _ | .guestPageSize _
  | .queueNum _ | .interruptAck _ | .driverFeatures _ | .status _ | .notify => false

def modernPerQueue : List ReadRegister :=
  [.queueReady, .queueDescLow, .queueDescHigh, .queueAvailLow, .queueAvailHigh,
    .queueUsedLow, .queueUsedHigh]

def selectedRead (legacy : Bool) (r : RegisterRead) : Bool :=
  match readRegisterAt r.offset with
  | none => false
  | some register =>
      if legacy then register == .queuePfn else r.len == 4 && modernPerQueue.contains register

/-- An access to a register of the selected queue. -/
def perQueue (legacy : Bool) : Access → Bool
  | .write w _ => Command.selected (command legacy w)
  | .read r => selectedRead legacy r
  | _ => false

def Inside (dev : MmioDevice) : Prop := dev.hdr.queueSel.toNat < numVirtQueues

instance (dev : MmioDevice) : Decidable (Inside dev) := inferInstanceAs (Decidable (_ < _))

def Selects (blk : BlkMmio) (a : Access) : Prop :=
  perQueue blk.mmio.vdev.legacy a = true → Inside blk.mmio

section Step
variable {dev : MmioDevice}

theorem get_vq_inside (inside : Inside dev) : getVq dev dev.hdr.queueSel = .ok dev.vq :=
  if_pos inside

theorem get_vq_outside (outside : ¬ Inside dev) :
    getVq dev dev.hdr.queueSel = .error .outsideVqs := if_neg outside

theorem inside_first (inside : Inside dev) : dev.hdr.queueSel = 0 :=
  (get_vq_ok (get_vq_inside inside)).1

theorem selected_word_outside_iff (word : Virtqueue.VirtQueue → UInt32) :
    selectedWord dev word = .error .outsideVqs ↔ ¬ Inside dev := by
  unfold selectedWord
  by_cases inside : Inside dev
  · simp [get_vq_inside inside, inside, bind, Except.bind]
  · simp [get_vq_outside inside, inside, bind, Except.bind]

theorem read_outside_iff (r : RegisterRead) :
    readCallback dev r = .error .outsideVqs ↔
      selectedRead dev.vdev.legacy r = true ∧ ¬ Inside dev := by
  unfold readCallback selectedRead
  cases transport : dev.vdev.legacy with
  | true =>
      simp only [if_true, Legacy.virtioMmioConfigIn]
      cases found : readRegisterAt r.offset with
      | none => simp
      | some register =>
          cases register
          case queuePfn => simp [selected_word_outside_iff]
          case deviceFeatures => by_cases first : dev.hdr.hostFeaturesSel = 0 <;> simp [first]
          all_goals simp
  | false =>
      simp only [Bool.false_eq_true, if_false, Modern.virtioMmioConfigIn]
      by_cases word : r.len = 4
      · simp only [word, ne_eq, not_true_eq_false, if_false, beq_self_eq_true, Bool.true_and]
        cases found : readRegisterAt r.offset with
        | none => simp
        | some register =>
            cases register
            case deviceFeatures =>
              by_cases high : 1 < dev.hdr.hostFeaturesSel <;> simp [high, modernPerQueue]
            all_goals simp [selected_word_outside_iff, modernPerQueue]
      · cases readRegisterAt r.offset <;> simp [word]

theorem exit_vq_first_inside (dev : MmioDevice) : virtioExitVq dev 0 ≠ .error .outsideVqs := by
  rw [exit_vq_first]
  split
  · split <;> simp
  · simp

/-- The reset walks the queues that exist. -/
theorem notify_status_inside (status : UInt8) :
    virtioNotifyStatus dev status ≠ .error .outsideVqs := by
  by_cases reset : status = 0 ∧ dev.vdev.status &&& virtioStatusStart ≠ 0
  · obtain ⟨rfl, started⟩ := reset
    obtain ⟨word, settled⟩ := notify_status_reset dev started
    rw [settled]
    have inside := exit_vq_first_inside dev
    cases exited : virtioExitVq dev 0 with
    | ok next => simp [Except.map]
    | error fault =>
        rw [exited] at inside
        simpa [Except.map] using inside
  · obtain ⟨word, same⟩ := notify_status_other dev status
      (fun zero => by_contra fun set => reset ⟨zero, set⟩)
    simp [same]

theorem activate_outside_iff (host : HostAnswers) (val : UInt32) :
    perform dev host (.activate val) = .error .outsideVqs ↔ ¬ Inside dev := by
  by_cases inside : Inside dev
  · rw [activate_first dev host val (inside_first inside), init_vq_first]
    simp only [inside, not_true_eq_false, iff_false]
    split <;> simp
  · simp only [inside, not_false_eq_true, iff_true]
    cases transport : dev.vdev.legacy with
    | true =>
        simp [perform, transport, setSelectedPfn, get_vq_outside inside, bind, Except.bind]
    | false => simp [perform, transport, initVq, get_vq_outside inside, bind, Except.bind]

theorem perform_outside_iff (dev : MmioDevice) (host : HostAnswers) (request : Command) :
    perform dev host request = .error .outsideVqs ↔
      Command.selected request = true ∧ ¬ Inside dev := by
  cases request with
  | activate val => simpa [Command.selected] using activate_outside_iff host val
  | deactivate =>
      by_cases inside : Inside dev
      · have first := exit_vq_first_inside dev
        simpa [perform, inside, inside_first inside] using first
      · simp [perform, virtioExitVq, get_vq_outside inside, inside, Command.selected, bind,
          Except.bind]
  | address word val =>
      by_cases inside : Inside dev
      · simp [perform, setSelectedWord, get_vq_inside inside, inside, bind, Except.bind]
      · simp [perform, setSelectedWord, get_vq_outside inside, inside, Command.selected, bind,
          Except.bind]
  | status val => simpa [perform, Command.selected] using notify_status_inside val.toUInt8
  | ignored | notify | deviceFeaturesSel | driverFeaturesSel | queueSel | guestPageSize | queueNum
  | interruptAck | driverFeatures => simp [perform, Command.selected]

end Step

theorem event_fault_iff (blk : BlkMmio) (e : Event) (fault : Fault) :
    event blk e = .error fault ↔ step blk.mmio e = .error fault := by
  unfold event
  cases step blk.mmio e <;> simp

/-- An access leaves the array exactly if it works on the selected queue while no
queue that exists is selected. -/
theorem access_outside_iff (blk : BlkMmio) (a : Access) :
    accessStep blk a = .error .outsideVqs ↔ ¬ Selects blk a := by
  unfold accessStep Selects
  rw [Classical.not_imp]
  cases a with
  | write w host =>
      have performed := perform_outside_iff blk.mmio host (command blk.mmio.vdev.legacy w)
      rw [← callback_performs] at performed
      refine Iff.trans ?_ performed
      rw [show callback blk.mmio w host = step blk.mmio (.write w host) from rfl,
        ← event_fault_iff]
      simp only [access, bind, Except.bind]
      cases event blk (.write w host) <;> simp [Except.map]
  | read r =>
      refine Iff.trans ?_ (read_outside_iff r)
      simp only [access]
      cases readCallback blk.mmio r <;> simp [Except.map]
  | configWrite | configRead => simp [access, perQueue, Except.map]
  | served lastAvailIdx lastUsedSignalled signalled =>
      simp [access, event, step, perQueue, bind, Except.bind, Except.map]

/-- The accesses of a guest stay inside `bdev->vqs` exactly if each access to a
per-queue register is made while a queue that exists is selected. -/
theorem queue_accesses_confined_iff (blk : BlkMmio) (accesses : List Access) :
    accesses.foldlM accessStep blk ≠ .error .outsideVqs ↔
      Meets accessStep Selects blk accesses :=
  fold_avoids_iff access_outside_iff blk accesses

/-- A 4-byte read of a register. -/
def wordFrom (register : ReadRegister) : RegisterRead :=
  ⟨register.offset, 4, by cases register <;> decide⟩

def secondQueue : List Access :=
  [.write (wordTo .queueSel 1) willingHost, .read (wordFrom .queueReady)]

theorem second_queue_outside :
    ¬ secondQueue.foldlM accessStep (createdBlk false false none fun _ => 0) ≠
      .error .outsideVqs := fun confined => confined rfl

end VirtioDisk.QueueSelector
