import VirtioDisk.QueueReset

/-!
What one event does to the queue: it is activated, taken down or cleared, its
addresses are written, or it stays as it is but for the indices that the I/O
thread moves.
-/

namespace VirtioDisk.QueueHistory

open MmioRegisters QueueReset Transition Virtqueue

/-- What an event asks for. The I/O thread asks for nothing. -/
def asks (dev : MmioDevice) : Event → Command
  | .served _ _ _ => .ignored
  | .write w _ => command dev.vdev.legacy w

/-- A write that takes an enabled queue down. -/
def exitsQueue (dev : MmioDevice) (event : Event) : Bool :=
  dev.vq.enabled &&
    match asks dev event with
    | .deactivate => dev.hdr.queueSel = 0
    | .status val => val.toUInt8 = 0 ∧ Started dev
    | .ignored | .deviceFeaturesSel _ | .driverFeaturesSel _ | .queueSel _ | .guestPageSize _
    | .queueNum _ | .interruptAck _ | .driverFeatures _ | .address _ _ | .activate _
    | .notify => false

/-- The requests that do more to a queue than to take it down. -/
def works : Command → Bool
  | .activate _ | .notify | .address _ _ => true
  | .ignored | .deviceFeaturesSel _ | .driverFeaturesSel _ | .queueSel _ | .guestPageSize _
  | .queueNum _ | .interruptAck _ | .driverFeatures _ | .status _ | .deactivate => false

/-- The queue of an effect that leaves everything but the indices alone. -/
structure SameQueue (dev next : MmioDevice) : Prop where
  enabled : next.vq.enabled = dev.vq.enabled
  vring : next.vq.vring = dev.vq.vring
  addr : next.vq.vringAddr = dev.vq.vringAddr
  ioEfd : next.ioEfd = dev.ioEfd

inductive Effect (dev : MmioDevice) (event : Event) (next : MmioDevice) : Prop where
  | activated (w host val) : event = .write w host → asks dev event = .activate val →
      initVq (dev.withAddr (activationAddr dev val)) 0 host = .ok next → Effect dev event next
  | stopped : works (asks dev event) = false → exitsQueue dev event = true →
      next.vq = clearedQueue → next.ioEfd = dev.ioEfd →
      next.notified = dev.notified ++ [dev.ioEfd] → Effect dev event next
  | cleared : works (asks dev event) = false → exitsQueue dev event = false →
      dev.vq.enabled = false → next.vq = clearedQueue → next.ioEfd = dev.ioEfd →
      next.notified = dev.notified → Effect dev event next
  | notified (w host) : event = .write w host → asks dev event = .notify →
      SameQueue dev next → next.notified = dev.notified ++ [dev.ioEfd] → Effect dev event next
  | addressed (word val) : asks dev event = .address word val →
      next.vq = { dev.vq with vringAddr := storeWord dev.vq.vringAddr val word } →
      next.ioEfd = dev.ioEfd → next.notified = dev.notified → Effect dev event next
  | kept : works (asks dev event) = false → exitsQueue dev event = false →
      SameQueue dev next → next.notified = dev.notified → Effect dev event next

variable {dev next : MmioDevice} {event : Event}

theorem exits_enabled (exits : exitsQueue dev event = true) : dev.vq.enabled = true :=
  (Bool.and_eq_true_iff.mp exits).1

theorem start_io_thread_ghost (dev : MmioDevice) (host : HostAnswers) :
    (startIoThread dev host).ioEfd = host.eventfd ∧
      (startIoThread dev host).notified = dev.notified := by
  rw [startIoThread]
  split
  · exact ⟨rfl, rfl⟩
  · cases host.ioThread <;> exact ⟨rfl, rfl⟩

/-- An activation enables the queue, whatever becomes of its thread. -/
theorem init_vq_enables {host : HostAnswers} (done : initVq dev 0 host = .ok next) :
    next.vq.enabled = true ∧ next.ioEfd = host.eventfd ∧ next.notified = dev.notified := by
  obtain ⟨_, vring, demu, _, same⟩ := init_vq_ok done
  subst same
  obtain ⟨_, _, queue, _⟩ := start_io_thread_frame
    { dev with vq := { enabledQueue dev.vdev dev.vq with vring := vring }, demu := demu } host
  have ghost := start_io_thread_ghost
    { dev with vq := { enabledQueue dev.vdev dev.vq with vring := vring }, demu := demu } host
  refine ⟨?_, ghost⟩
  rw [queue]
  rfl

theorem status_effect {w : RegisterWrite} {host : HostAnswers} {val : UInt32}
    (asked : command dev.vdev.legacy w = .status val)
    (done : virtioNotifyStatus (statusStored dev val) val.toUInt8 = .ok next) :
    Effect dev (.write w host) next := by
  have exits : exitsQueue dev (.write w host) =
      (dev.vq.enabled && decide (val.toUInt8 = 0 ∧ Started dev)) := by
    rw [exitsQueue, asks, asked]
  have idle : works (asks dev (.write w host)) = false := by rw [asks, asked]; rfl
  by_cases reset : val.toUInt8 = 0 ∧ Started dev
  · obtain ⟨word, taken⟩ := notify_status_reset (statusStored dev val) reset.2
    rw [reset.1, taken, exit_vq_first] at done
    cases enabled : dev.vq.enabled with
    | false =>
        rw [if_neg (by simp [statusStored, enabled])] at done
        cases done
        exact .cleared idle (by rw [exits, enabled]; rfl) enabled rfl rfl rfl
    | true =>
        rw [if_pos (by simp [statusStored, enabled])] at done
        split at done
        · cases done
          exact .stopped idle (by rw [exits, enabled, decide_eq_true reset]; rfl) rfl rfl rfl
        · cases done
  · obtain ⟨word, same⟩ := notify_status_other (statusStored dev val) val.toUInt8
      (fun zero => by_contra fun set => reset ⟨zero, set⟩)
    rw [same] at done
    cases done
    refine .kept idle ?_ ⟨rfl, rfl, rfl, rfl⟩ rfl
    rw [exits, decide_eq_false reset, Bool.and_false]

theorem deactivate_effect {w : RegisterWrite} {host : HostAnswers}
    (asked : command dev.vdev.legacy w = .deactivate)
    (done : virtioExitVq dev dev.hdr.queueSel = .ok next) :
    Effect dev (.write w host) next := by
  have exits : exitsQueue dev (.write w host) =
      (dev.vq.enabled && decide (dev.hdr.queueSel = 0)) := by
    rw [exitsQueue, asks, asked]
  have idle : works (asks dev (.write w host)) = false := by rw [asks, asked]; rfl
  obtain ⟨first, _⟩ := exit_vq_ok done
  rw [first, exit_vq_first] at done
  cases enabled : dev.vq.enabled with
  | false =>
      rw [enabled, if_neg Bool.false_ne_true] at done
      cases done
      exact .cleared idle (by rw [exits, enabled]; rfl) enabled rfl rfl rfl
  | true =>
      rw [enabled, if_pos rfl] at done
      split at done
      · cases done
        exact .stopped idle (by rw [exits, enabled, decide_eq_true first]; rfl) rfl rfl rfl
      · cases done

theorem step_effect (taken : step dev event = .ok next) : Effect dev event next := by
  cases step_cases taken with
  | rested => exact .kept rfl (Bool.and_false _) ⟨rfl, rfl, rfl, rfl⟩ rfl
  | worked => exact .kept rfl (Bool.and_false _) ⟨rfl, rfl, rfl, rfl⟩ rfl
  | performed w host done =>
      cases asked : command dev.vdev.legacy w with
      | activate val =>
          rw [asked] at done
          exact .activated w host val rfl asked (activate_ok done)
      | deactivate =>
          rw [asked] at done
          exact deactivate_effect asked done
      | status val =>
          rw [asked] at done
          exact status_effect asked done
      | notify =>
          rw [asked] at done
          cases done
          exact .notified w host rfl asked ⟨rfl, rfl, rfl, rfl⟩ rfl
      | address word val =>
          rw [asked] at done
          obtain ⟨_, same⟩ := set_selected_word_ok done
          subst same
          exact .addressed word val asked rfl rfl rfl
      | driverFeatures val =>
          rw [asked] at done
          cases done
          refine .kept (by rw [asks, asked]; rfl) (by rw [exitsQueue, asks, asked, Bool.and_false])
            ?_ ?_
          · split <;> exact ⟨rfl, rfl, rfl, rfl⟩
          · split <;> rfl
      | ignored | deviceFeaturesSel | driverFeaturesSel | queueSel | guestPageSize | queueNum
      | interruptAck =>
          rw [asked] at done
          cases done
          exact .kept (by rw [asks, asked]; rfl)
            (by rw [exitsQueue, asks, asked, Bool.and_false]) ⟨rfl, rfl, rfl, rfl⟩ rfl

end VirtioDisk.QueueHistory
