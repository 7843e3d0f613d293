import VirtioDisk.SplitRing

/-!
Completion interrupts in event index mode. `virtio_blk_complete` writes a used
element and then asks `virtio_queue__should_signal`. The driver may move
`used_event` at any time in between; what counts is the value the check reads,
so it is part of the completion. `quiet` is ghost state: the completions since
the last interrupt, or since the queue was activated.
-/

namespace VirtioDisk.CompletionInterrupt

open RingWindow Virtqueue

structure Completion where
  head : UInt32
  len : UInt32
  usedEvent : UInt16

structure Device where
  ring : RingMemory
  vq : VirtQueue
  quiet : Nat

def driverSetsUsedEvent (ring : RingMemory) (vring : Vring) (event : UInt16) : RingMemory :=
  { ring with avail := { ring.avail with ring := put ring.avail.ring vring.num event } }

def completeAndSignal (s : Device) (completion : Completion) : Bool × Device :=
  let used := virtQueueSetUsedElem s.ring s.vq completion.head completion.len
  let armed := driverSetsUsedEvent used s.vq.vring completion.usedEvent
  let signal := virtioQueueShouldSignal armed s.vq
  (signal.1, ⟨armed, signal.2, if signal.1 then 0 else s.quiet + 1⟩)

def completeAll : Device → List Completion → Device
  | s, [] => s
  | s, completion :: rest => completeAll (completeAndSignal s completion).2 rest

/-- The driver asked for the interrupt of exactly this completion: it moves
`used->idx` from `used_event` to `used_event + 1`. -/
def Armed (s : Device) (completion : Completion) : Prop :=
  s.ring.used.idx = completion.usedEvent

def NeverLost : Device → List Completion → Prop
  | _, [] => True
  | s, completion :: rest =>
      (Armed s completion → (completeAndSignal s completion).1 = true) ∧
        NeverLost (completeAndSignal s completion).2 rest

/-- No armed completion brings `used->idx` back to the index that was signalled last. -/
def SignalledApart : Device → List Completion → Prop
  | _, [] => True
  | s, completion :: rest =>
      (Armed s completion → s.ring.used.idx + 1 ≠ s.vq.lastUsedSignalled) ∧
        SignalledApart (completeAndSignal s completion).2 rest

instance (s : Device) (completion : Completion) : Decidable (Armed s completion) :=
  inferInstanceAs (Decidable (s.ring.used.idx = completion.usedEvent))

instance decideSignalledApart : (s : Device) → (completions : List Completion) →
    Decidable (SignalledApart s completions)
  | _, [] => inferInstanceAs (Decidable True)
  | s, completion :: rest =>
      have := decideSignalledApart (completeAndSignal s completion).2 rest
      inferInstanceAs (Decidable ((Armed s completion → _) ∧ _))

@[simp] theorem set_used_elem_idx (ring : RingMemory) (queue : VirtQueue) (head len : UInt32) :
    (virtQueueSetUsedElem ring queue head len).used.idx = ring.used.idx + 1 := rfl

@[simp] theorem driver_event_used (ring : RingMemory) (vring : Vring) (event : UInt16) :
    (driverSetsUsedEvent ring vring event).used = ring.used := rfl

@[simp] theorem driver_event_read (ring : RingMemory) (vring : Vring) (event : UInt16) :
    vringUsedEvent (driverSetsUsedEvent ring vring event) vring = event := by
  simp [vringUsedEvent, driverSetsUsedEvent]

theorem complete_used_idx (s : Device) (completion : Completion) :
    (completeAndSignal s completion).2.ring.used.idx = s.ring.used.idx + 1 := rfl

theorem should_signal_event_mode (ring : RingMemory) (vq : VirtQueue)
    (mode : vq.useEventIdx = true) :
    (virtioQueueShouldSignal ring vq).1 =
      vringNeedEvent (vringUsedEvent ring vq.vring) ring.used.idx vq.lastUsedSignalled := by
  simp only [virtioQueueShouldSignal, mode, Bool.true_eq_false, if_false]
  split <;> simp_all

theorem complete_mode (s : Device) (completion : Completion)
    (mode : s.vq.useEventIdx = true) :
    (completeAndSignal s completion).2.vq.useEventIdx = true :=
  (should_signal_queue _ _).1.trans mode

theorem complete_signals (s : Device) (completion : Completion)
    (mode : s.vq.useEventIdx = true) :
    (completeAndSignal s completion).1 =
      vringNeedEvent completion.usedEvent (s.ring.used.idx + 1) s.vq.lastUsedSignalled := by
  simp only [completeAndSignal]
  rw [should_signal_event_mode _ _ mode]
  simp

-- At the armed index the distance to the event is 0, so the comparison only
-- fails when the distance to the last signalled index is 0 as well.
theorem need_event_armed (event old : UInt16) :
    vringNeedEvent event (event + 1) old = true ↔ event + 1 ≠ old := by
  have distance : event + 1 - event - 1 = 0 := by grind
  simp only [vringNeedEvent, distance, decide_eq_true_eq]
  constructor
  · intro before same
    subst old
    simp at before
  · intro different
    grind

theorem armed_signal_iff (s : Device) (completion : Completion)
    (mode : s.vq.useEventIdx = true) (armed : Armed s completion) :
    (completeAndSignal s completion).1 = true ↔ s.ring.used.idx + 1 ≠ s.vq.lastUsedSignalled := by
  have index : s.ring.used.idx = completion.usedEvent := armed
  rw [complete_signals s completion mode, index]
  exact need_event_armed _ _

theorem completion_interrupt_kept (s : Device) (completions : List Completion)
    (mode : s.vq.useEventIdx = true) :
    NeverLost s completions ↔ SignalledApart s completions := by
  induction completions generalizing s with
  | nil => exact Iff.rfl
  | cons completion rest ih =>
      have next := complete_mode s completion mode
      simp only [NeverLost, SignalledApart]
      rw [ih _ next]
      exact and_congr_left fun _ =>
        forall_congr' fun armed => armed_signal_iff s completion mode armed

/-! The index that was signalled last lies `quiet` completions back. -/

def Counted (s : Device) : Prop :=
  s.ring.used.idx = s.vq.lastUsedSignalled + UInt16.ofNat s.quiet

theorem should_signal_last (ring : RingMemory) (vq : VirtQueue)
    (mode : vq.useEventIdx = true) :
    (virtioQueueShouldSignal ring vq).2.lastUsedSignalled =
      if (virtioQueueShouldSignal ring vq).1 then ring.used.idx else vq.lastUsedSignalled := by
  simp only [virtioQueueShouldSignal, mode, Bool.true_eq_false, if_false]
  split <;> simp_all

theorem complete_counted (s : Device) (completion : Completion)
    (mode : s.vq.useEventIdx = true) (counted : Counted s) :
    Counted (completeAndSignal s completion).2 := by
  unfold Counted at *
  rw [complete_used_idx]
  simp only [completeAndSignal]
  rw [should_signal_last _ _ mode]
  split
  · simp
  · rw [counted, UInt16.ofNat_add, UInt16.add_assoc]
    rfl

theorem counted_return (s : Device) (counted : Counted s) :
    s.ring.used.idx + 1 = s.vq.lastUsedSignalled ↔ (s.quiet + 1) % 65536 = 0 := by
  have shifted : s.ring.used.idx + 1 = s.vq.lastUsedSignalled + UInt16.ofNat (s.quiet + 1) := by
    rw [counted, UInt16.ofNat_add, UInt16.add_assoc]
    rfl
  rw [shifted]
  constructor
  · intro same
    have zero : UInt16.ofNat (s.quiet + 1) = 0 := by grind
    have value := congrArg UInt16.toNat zero
    simpa using value
  · intro wrapped
    have zero : UInt16.ofNat (s.quiet + 1) = 0 := by
      apply UInt16.toNat_inj.mp
      simpa using wrapped
    rw [zero, UInt16.add_zero]

/-- While fewer than 65536 completions follow the last interrupt, none is lost. -/
theorem frequent_interrupts_kept (s : Device) (completions : List Completion)
    (mode : s.vq.useEventIdx = true) (counted : Counted s)
    (short : s.quiet + completions.length < 65536) : NeverLost s completions := by
  induction completions generalizing s with
  | nil => trivial
  | cons completion rest ih =>
      simp only [List.length_cons] at short
      refine ⟨?_, ih _ (complete_mode s completion mode)
        (complete_counted s completion mode counted) ?_⟩
      · intro armed
        rw [armed_signal_iff s completion mode armed]
        intro returned
        have wrapped := (counted_return s counted).mp returned
        omega
      · simp only [completeAndSignal]
        split <;> omega

def freshDevice : Device :=
  ⟨(SplitRing.blankQueue 256).ring, (SplitRing.blankQueue 256).vq, 0⟩

def shortRun : List Completion := [⟨3, 512, 0⟩, ⟨4, 512, 5⟩, ⟨5, 512, 2⟩]

theorem completion_interrupt_kept_short :
    SignalledApart freshDevice shortRun ∧
      (NeverLost freshDevice shortRun ↔ SignalledApart freshDevice shortRun) :=
  ⟨by decide, completion_interrupt_kept freshDevice shortRun rfl⟩

/-- A driver that polls keeps `used_event` at the index it will see next. -/
def pollingRun : UInt16 → Nat → List Completion
  | _, 0 => []
  | idx, count + 1 => ⟨0, 0, idx + 1⟩ :: pollingRun (idx + 1) count

theorem polling_silent (s : Device) (mode : s.vq.useEventIdx = true) :
    (completeAndSignal s ⟨0, 0, s.ring.used.idx + 1⟩).1 = false := by
  rw [complete_signals s _ mode]
  simp only [vringNeedEvent, decide_eq_false_iff_not]
  grind

theorem polling_reaches (count : Nat) (s : Device) (mode : s.vq.useEventIdx = true)
    (last : List Completion)
    (kept : NeverLost s (pollingRun s.ring.used.idx count ++ last)) :
    ∃ t : Device, NeverLost t last ∧ t.vq.useEventIdx = true ∧
      t.vq.lastUsedSignalled = s.vq.lastUsedSignalled ∧
      t.ring.used.idx = s.ring.used.idx + UInt16.ofNat count := by
  induction count generalizing s with
  | zero => exact ⟨s, kept, mode, rfl, by simp⟩
  | succ count ih =>
      have silent := polling_silent s mode
      obtain ⟨t, rest, tMode, tLast, tIdx⟩ :=
        ih _ (complete_mode s ⟨0, 0, s.ring.used.idx + 1⟩ mode) kept.2
      have unsignalled : (completeAndSignal s ⟨0, 0, s.ring.used.idx + 1⟩).2.vq.lastUsedSignalled =
          s.vq.lastUsedSignalled := by
        have last := should_signal_last
          (driverSetsUsedEvent (virtQueueSetUsedElem s.ring s.vq 0 0) s.vq.vring
            (s.ring.used.idx + 1)) s.vq mode
        rw [show (virtioQueueShouldSignal _ s.vq).1 = false from silent] at last
        exact last
      refine ⟨t, rest, tMode, tLast.trans unsignalled, ?_⟩
      rw [tIdx, complete_used_idx, UInt16.add_assoc, Nat.add_comm count 1, UInt16.ofNat_add]
      rfl

/-- 65535 polled completions and then an armed one: no interrupt is raised for it. -/
theorem polled_wrap_loses_interrupt :
    ¬ NeverLost freshDevice (pollingRun 0 65535 ++ [⟨0, 0, 65535⟩]) := by
  intro kept
  obtain ⟨t, last, mode, lastSignalled, idx⟩ := polling_reaches 65535 freshDevice rfl _ kept
  have index : t.ring.used.idx = 65535 := by rw [idx]; rfl
  have armed : Armed t ⟨0, 0, 65535⟩ := index
  have raised := (armed_signal_iff t _ mode armed).mp (last.1 armed)
  apply raised
  rw [index, lastSignalled]
  rfl

end VirtioDisk.CompletionInterrupt
