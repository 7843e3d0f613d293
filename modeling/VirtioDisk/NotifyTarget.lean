import VirtioDisk.QueueHistory

/-!
Where notify_vq writes to. `io_efd` keeps its number after the close, is 0 before
the first activation, and QUEUE_NOTIFY looks neither at the queue it names nor at
whether that is enabled. A write to a negative descriptor reaches nothing.
-/

namespace VirtioDisk.NotifyTarget

open MmioRegisters QueueHistory QueueReset Transition Virtqueue

/-- `live` is ghost state: the event descriptor that the activation has created
that is not undone. -/
structure Tracked where
  dev : MmioDevice
  live : Option Int

/-- What eventfd() gives an activation. -/
def eventfdOf : Event → Option Int
  | .served _ _ _ => none
  | .write _ host => if 0 ≤ host.eventfd then some host.eventfd else none

def liveAfter (t : Tracked) (next : MmioDevice) (event : Event) : Option Int :=
  match asks t.dev event with
  | .activate _ => eventfdOf event
  | .ignored | .deviceFeaturesSel _ | .driverFeaturesSel _ | .queueSel _ | .guestPageSize _
  | .queueNum _ | .interruptAck _ | .driverFeatures _ | .address _ _ | .status _ | .deactivate
  | .notify => if next.vq.enabled then t.live else none

def trackedStep (t : Tracked) (event : Event) : Except Fault Tracked := do
  let next ← step t.dev event
  .ok ⟨next, liveAfter t next event⟩

def trackedStart (legacy readonly : Bool) (useGnttab : Option Bool) : Tracked :=
  ⟨created legacy readonly useGnttab, none⟩

/-- The queue that a write to QUEUE_NOTIFY names, if the event is one. -/
def notifies (dev : MmioDevice) : Event → Option UInt32
  | .served _ _ _ => none
  | .write w host => if asks dev (.write w host) = .notify then some w.data else none

/-- The descriptors that notify_vq writes to: for QUEUE_NOTIFY, and to wake the
I/O thread when the queue is taken down. -/
def notifyWrites (dev : MmioDevice) (event : Event) : List Int :=
  if (notifies dev event).isSome ∨ exitsQueue dev event = true then [dev.ioEfd] else []

theorem notifies_nothing {dev : MmioDevice} {event : Event} (other : asks dev event ≠ .notify) :
    notifies dev event = none := by
  cases event with
  | served => rfl
  | write w host => exact if_neg other

theorem not_notify {dev : MmioDevice} {event : Event} (idle : works (asks dev event) = false) :
    asks dev event ≠ .notify := by
  intro asked
  rw [asked] at idle
  cases idle

theorem works_exits {dev : MmioDevice} {event : Event} (busy : works (asks dev event) = true) :
    exitsQueue dev event = false := by
  rw [exitsQueue]
  cases asked : asks dev event with
  | activate | notify | address => exact Bool.and_false _
  | ignored | deviceFeaturesSel | driverFeaturesSel | queueSel | guestPageSize | queueNum
  | interruptAck | driverFeatures | status | deactivate =>
      rw [asked] at busy
      cases busy

theorem no_writes {dev : MmioDevice} {event : Event} (other : asks dev event ≠ .notify)
    (stays : exitsQueue dev event = false) : notifyWrites dev event = [] := by
  rw [notifyWrites, if_neg]
  rw [notifies_nothing other, stays]
  simp

theorem step_notified {dev next : MmioDevice} {event : Event}
    (taken : step dev event = .ok next) :
    next.notified = dev.notified ++ notifyWrites dev event := by
  cases step_effect taken with
  | activated w host val _ asked done =>
      have quiet : notifyWrites dev event = [] := by
        apply no_writes
        · rw [asked]
          exact fun other => Command.noConfusion other
        · exact works_exits (by rw [asked]; rfl)
      rw [quiet, List.append_nil]
      exact (init_vq_enables done).2.2
  | stopped _ exits _ _ written =>
      rw [written, notifyWrites, if_pos (Or.inr exits)]
  | cleared idle stays _ _ _ same =>
      rw [same, no_writes (not_notify idle) stays, List.append_nil]
  | notified w host same asked _ written =>
      subst same
      have named : (notifies dev (.write w host)).isSome = true := by
        rw [notifies, if_pos asked]
        rfl
      rw [written, notifyWrites, if_pos (Or.inl named)]
  | addressed word val asked _ _ same =>
      have quiet : notifyWrites dev event = [] := by
        apply no_writes
        · rw [asked]
          exact fun other => Command.noConfusion other
        · exact works_exits (by rw [asked]; rfl)
      rw [same, quiet, List.append_nil]
  | kept idle stays _ same =>
      rw [same, no_writes (not_notify idle) stays, List.append_nil]

/-- Every descriptor that is written to is the one of the activation that is in
force, and a queue that is not enabled is not written for. -/
def ReachesLive (t : Tracked) (event : Event) : Prop :=
  ∀ fd ∈ notifyWrites t.dev event, 0 ≤ fd →
    t.live = some fd ∧ ∀ num ∈ notifies t.dev event, num = 0 ∧ t.dev.vq.enabled = true

/-- QUEUE_NOTIFY names queue 0 while it is enabled, or no descriptor is there. -/
def NotifiesEnabled (t : Tracked) (event : Event) : Prop :=
  ∀ num ∈ notifies t.dev event, (num = 0 ∧ t.dev.vq.enabled = true) ∨ t.dev.ioEfd < 0

structure Inv (t : Tracked) : Prop where
  idle : t.dev.vq.enabled = false → t.live = none
  active : t.dev.vq.enabled = true → 0 ≤ t.dev.ioEfd → t.live = some t.dev.ioEfd

theorem reaches_live_iff {t : Tracked} (inv : Inv t) (event : Event) :
    ReachesLive t event ↔ NotifiesEnabled t event := by
  cases named : notifies t.dev event with
  | none =>
      apply iff_of_true
      · intro fd written valid
        rw [notifyWrites] at written
        split at written
        · rename_i why
          cases List.mem_singleton.mp written
          have exits : exitsQueue t.dev event = true := by simpa [named] using why
          exact ⟨inv.active (exits_enabled exits) valid, by simp [named]⟩
        · cases written
      · intro num member
        simp [named] at member
  | some num =>
      have written : notifyWrites t.dev event = [t.dev.ioEfd] := by
        rw [notifyWrites, if_pos (Or.inl (by rw [named]; rfl))]
      constructor
      · intro reaches other member
        by_cases absent : t.dev.ioEfd < 0
        · exact Or.inr absent
        · have inside : t.dev.ioEfd ∈ notifyWrites t.dev event := by simp [written]
          exact Or.inl ((reaches t.dev.ioEfd inside (Int.not_lt.mp absent)).2 other member)
      · intro careful fd member valid
        rw [written] at member
        cases List.mem_singleton.mp member
        have all (other : UInt32) (same : other ∈ notifies t.dev event) :
            other = 0 ∧ t.dev.vq.enabled = true :=
          (careful other same).resolve_right (Int.not_lt.mpr valid)
        exact ⟨inv.active (all num named).2 valid, all⟩

theorem live_stays {t : Tracked} {next : MmioDevice} {event : Event}
    (other : ∀ val, asks t.dev event ≠ .activate val) :
    liveAfter t next event = if next.vq.enabled then t.live else none := by
  rw [liveAfter]
  cases asked : asks t.dev event with
  | activate val => exact absurd asked (other val)
  | ignored | deviceFeaturesSel | driverFeaturesSel | queueSel | guestPageSize | queueNum
  | interruptAck | driverFeatures | address | status | deactivate | notify => rfl

theorem not_activate {dev : MmioDevice} {event : Event} (idle : works (asks dev event) = false)
    (val : UInt32) : asks dev event ≠ .activate val := by
  intro asked
  rw [asked] at idle
  cases idle

/-- A queue that is cleared has no descriptor any more. -/
theorem Inv.cleared {t : Tracked} {next : MmioDevice} {event : Event}
    (idle : works (asks t.dev event) = false) (empty : next.vq = clearedQueue) :
    Inv ⟨next, liveAfter t next event⟩ := by
  have disabled : next.vq.enabled = false := by rw [empty]; rfl
  constructor
  · intro _
    rw [live_stays (not_activate idle)]
    simp [disabled]
  · intro enabled
    exact absurd (disabled.symm.trans enabled) Bool.false_ne_true

theorem Inv.same {t : Tracked} (inv : Inv t) {next : MmioDevice} {event : Event}
    (other : ∀ val, asks t.dev event ≠ .activate val)
    (enabled : next.vq.enabled = t.dev.vq.enabled) (ioEfd : next.ioEfd = t.dev.ioEfd) :
    Inv ⟨next, liveAfter t next event⟩ := by
  constructor
  · intro disabled
    have off : next.vq.enabled = false := disabled
    have kept := @live_stays _ next _ other
    rwa [off, if_neg Bool.false_ne_true] at kept
  · intro on valid
    rw [live_stays other, if_pos on]
    rw [enabled] at on
    rw [ioEfd] at valid ⊢
    exact inv.active on valid

theorem tracked_inv {t next : Tracked} {event : Event} (inv : Inv t)
    (taken : trackedStep t event = .ok next) : Inv next := by
  obtain ⟨dev, stepped, same⟩ := bind_ok taken
  cases same
  cases step_effect stepped with
  | activated w host val same asked done =>
      subst same
      obtain ⟨enabled, ioEfd, _⟩ := init_vq_enables done
      have live : liveAfter t dev (.write w host) = eventfdOf (.write w host) := by
        rw [liveAfter, asked]
      constructor
      · intro disabled
        exact absurd (disabled.symm.trans enabled) Bool.false_ne_true
      · intro _ valid
        rw [ioEfd] at valid ⊢
        exact live.trans (if_pos valid)
  | stopped idle _ empty _ _ => exact Inv.cleared idle empty
  | cleared idle _ _ empty _ _ => exact Inv.cleared idle empty
  | notified w host _ asked same _ =>
      apply inv.same _ same.enabled same.ioEfd
      rw [asked]
      exact fun val other => Command.noConfusion other
  | addressed word val asked queue ioEfd _ =>
      apply inv.same _ _ ioEfd
      · rw [asked]
        exact fun val other => Command.noConfusion other
      · rw [queue]
  | kept idle _ same _ => exact inv.same (not_activate idle) same.enabled same.ioEfd

theorem created_inv (legacy readonly : Bool) (useGnttab : Option Bool) :
    Inv (trackedStart legacy readonly useGnttab) :=
  ⟨fun _ => rfl, fun enabled => absurd enabled Bool.false_ne_true⟩

/-- In every run, all writes of notify_vq reach the activation in force exactly if
QUEUE_NOTIFY is written for an enabled queue only. -/
theorem notifies_reach_live_iff (legacy readonly : Bool) (useGnttab : Option Bool)
    (events : List Event) :
    Meets trackedStep ReachesLive (trackedStart legacy readonly useGnttab) events ↔
      Meets trackedStep NotifiesEnabled (trackedStart legacy readonly useGnttab) events :=
  meets_iff (fun _ _ _ inv taken => tracked_inv inv taken)
    (fun _ event inv => reaches_live_iff inv event) (created_inv legacy readonly useGnttab) events

/-- QUEUE_NOTIFY before the first activation writes to descriptor 0. -/
theorem early_notify_reaches_stdin :
    ¬ Meets trackedStep ReachesLive (trackedStart false false none)
      [.write (wordTo .queueNotify 0) willingHost] := by
  intro meets
  have live : (none : Option Int) = some 0 := (meets.1 0 (by decide) (by decide)).1
  cases live

end VirtioDisk.NotifyTarget
