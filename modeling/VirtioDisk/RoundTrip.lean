import VirtioDisk.CompletionInterrupt
import VirtioDisk.InterruptState
import VirtioDisk.KickHandshake

/-!
A queue in event index mode all the way round: the driver publishes heads and kicks, the
I/O thread takes them, answers each in the used ring and decides whether to interrupt, and
the driver looks at the used ring when it is interrupted, or when it likes. A head may also
be dropped without an answer, or be of a request that does not come back. The avail side
is the machine of `KickHandshake` and the way of an interrupt that of `InterruptState`;
here they run together, with the used side between them. The counts and `quiet`, the
longest stretch of answers without an interrupt, are ghost state.
-/

namespace VirtioDisk.RoundTrip

open CompletionInterrupt RingWindow SplitRing Transition Virtqueue
open KickHandshake (ZeroedQueue)

/-- How far `virtio_blk_complete` is with the head that the I/O thread has: the used element
is to be set, or the interrupt to be decided, or it is done but for the interrupt. The
operation of a `lost` head never comes back. -/
inductive Answering where
  | unanswered
  | answered
  | judged
  | lost
  deriving DecidableEq

/-- Whether the driver looks at the used ring. In `armed` it has stored its used event, and
has yet to look once more. -/
inductive Looking where
  | away
  | polling
  | armed
  deriving DecidableEq

structure State where
  kick : KickHandshake.State
  interrupt : InterruptState.State
  answering : Answering
  looking : Looking
  lastUsedIdx : UInt16
  completed : Nat
  dropped : Nat
  consumed : Nat
  signalled : Nat
  quiet : Nat

/-- While it polls, the driver may have any used event in the ring. -/
inductive Action where
  | kick (action : KickHandshake.Action)
  | answer (id len : UInt32)
  | drop
  | lose
  | judge
  | finish
  | interrupt (action : InterruptState.Action)
  | handle (event : UInt16)
  | look (event : UInt16)
  | consume
  | arm
  | recheck (event : UInt16)

def setUsedEvent (s : State) (event : UInt16) : KickHandshake.State :=
  { s.kick with ring := driverSetsUsedEvent s.kick.ring s.kick.vq.vring event }

def poll (s : State) (event : UInt16) : State :=
  { s with kick := setUsedEvent s event, looking := .polling }

/-- What of the avail side is left as it is: at most 256 heads are on their way, and the
driver compares when it has published. -/
def Admits (s : State) : KickHandshake.Action → Prop
  | .publish count => s.kick.published + count ≤ s.consumed + 256
  | .compare => s.kick.checked < s.kick.published
  | .finish => False
  | _ => True

instance (s : State) : (action : KickHandshake.Action) → Decidable (Admits s action)
  | .publish _ => inferInstanceAs (Decidable (_ ≤ _))
  | .compare => inferInstanceAs (Decidable (_ < _))
  | .finish => inferInstanceAs (Decidable False)
  | .notify | .wake | .store | .load | .pop => inferInstanceAs (Decidable True)

/-- An interrupt is not taken by a driver that is at the used ring. -/
def Takes (s : State) : InterruptState.Action → Prop
  | .complete | .handle => False
  | .take => s.looking = .away
  | _ => True

instance (s : State) : (action : InterruptState.Action) → Decidable (Takes s action)
  | .complete | .handle => inferInstanceAs (Decidable False)
  | .take => inferInstanceAs (Decidable (_ = _))
  | .load | .store | .trigger | .readStatus | .acknowledge | .acknowledgeOther | .clear
  | .dismiss => inferInstanceAs (Decidable True)

def answer (s : State) (id len : UInt32) : State :=
  { s with
    kick := { s.kick with ring := virtQueueSetUsedElem s.kick.ring s.kick.vq id len }
    answering := .answered
    completed := s.completed + 1 }

def judge (s : State) : Option State :=
  let signal := virtioQueueShouldSignal s.kick.ring s.kick.vq
  let judged := { s with
    kick := { s.kick with vq := signal.2 }
    answering := .judged
    quiet := max s.quiet (s.completed - s.signalled) }
  if signal.1 then
    (InterruptState.step s.interrupt .complete).map fun interrupt =>
      { judged with interrupt := interrupt, signalled := s.completed }
  else some judged

def step (s : State) : Action → Option State
  | .kick action =>
      if Admits s action then
        (KickHandshake.step s.kick action).map fun kick => { s with kick := kick }
      else none
  | .answer id len =>
      if s.kick.thread = .processing ∧ s.answering = .unanswered then some (answer s id len)
      else none
  -- A type that the switch does not know, or an IN or OUT whose operation fails.
  | .drop =>
      if s.answering = .unanswered then
        (KickHandshake.step s.kick .finish).map fun kick =>
          { s with kick := kick, dropped := s.dropped + 1 }
      else none
  | .lose =>
      if s.kick.thread = .processing ∧ s.answering = .unanswered then
        some { s with answering := .lost }
      else none
  | .judge => if s.answering = .answered then judge s else none
  | .finish =>
      if s.answering = .judged ∧ s.interrupt.thread = .working then
        (KickHandshake.step s.kick .finish).map fun kick =>
          { s with kick := kick, answering := .unanswered }
      else none
  | .interrupt action =>
      if Takes s action then
        (InterruptState.step s.interrupt action).map fun interrupt =>
          { s with interrupt := interrupt }
      else none
  -- The handler goes to the used ring when it has read the bit.
  | .handle event =>
      match s.interrupt.driver with
      | .handling status =>
          (InterruptState.step s.interrupt .handle).map fun interrupt =>
            if InterruptState.Vring status then poll { s with interrupt := interrupt } event
            else { s with interrupt := interrupt }
      | _ => none
  | .look event => if s.looking = .away then some (poll s event) else none
  | .consume =>
      if s.looking = .polling ∧ s.kick.ring.used.idx ≠ s.lastUsedIdx then
        some { s with lastUsedIdx := s.lastUsedIdx + 1, consumed := s.consumed + 1 }
      else none
  | .arm =>
      if s.looking = .polling ∧ s.kick.ring.used.idx = s.lastUsedIdx then
        some { s with kick := setUsedEvent s s.lastUsedIdx, looking := .armed }
      else none
  | .recheck event =>
      if s.looking = .armed then
        some (if s.kick.ring.used.idx = s.lastUsedIdx then { s with looking := .away }
          else poll s event)
      else none

/-- A queue whose rings the driver handed over zeroed, just activated. -/
structure FreshQueue extends ZeroedQueue where
  usedEvent : vringUsedEvent ring vq.vring = 0
  lastSignalled : vq.lastUsedSignalled = 0

def start (fresh : FreshQueue) : State where
  kick := KickHandshake.start fresh.toZeroedQueue
  interrupt := InterruptState.start
  answering := .unanswered
  looking := .away
  lastUsedIdx := 0
  completed := 0
  dropped := 0
  consumed := 0
  signalled := 0
  quiet := 0

/-- What the driver has not seen is still to be decided, or its interrupt is on the way. -/
def Attended (s : State) : Prop :=
  (s.answering = .answered ∧ s.completed = s.consumed + 1) ∨
    s.interrupt.consumed < s.interrupt.completed

/-- The head that is neither completed nor dropped. -/
def inHand (s : State) : Nat :=
  if s.kick.thread = .processing ∧ (s.answering = .unanswered ∨ s.answering = .lost) then 1 else 0

structure Inv (s : State) : Prop where
  kick : KickHandshake.Inv s.kick
  interrupt : InterruptState.Inv s.interrupt
  size : s.kick.vq.vring.num = 256
  usedIdx : s.kick.ring.used.idx = UInt16.ofNat s.completed
  lastUsedIdx : s.lastUsedIdx = UInt16.ofNat s.consumed
  lastSignalled : s.kick.vq.lastUsedSignalled = UInt16.ofNat s.signalled
  signalledLe : s.signalled ≤ s.completed
  unsignalled : s.answering = .answered → s.signalled < s.completed
  consumedLe : s.consumed ≤ s.completed
  room : s.kick.published ≤ s.consumed + 256
  popped : s.kick.popped = s.completed + s.dropped + inHand s
  idle : s.kick.thread ≠ .processing → s.answering = .unanswered
  working : s.answering ≠ .judged → s.interrupt.thread = .working
  event : s.looking ≠ .polling →
    vringUsedEvent s.kick.ring s.kick.vq.vring = UInt16.ofNat s.consumed
  attended : s.quiet < 65536 → s.looking = .away → s.consumed < s.completed → Attended s

theorem start_inv (fresh : FreshQueue) : Inv (start fresh) where
  kick := KickHandshake.start_inv fresh.toZeroedQueue
  interrupt := InterruptState.start_inv
  size := fresh.size
  usedIdx := fresh.usedIdx
  lastUsedIdx := rfl
  lastSignalled := fresh.lastSignalled
  signalledLe := Nat.le_refl 0
  unsignalled := by simp [start]
  consumedLe := Nat.le_refl 0
  room := by simp [start, KickHandshake.start]
  popped := by simp [start, KickHandshake.start, inHand]
  idle := fun _ => rfl
  working := fun _ => rfl
  event := fun _ => fresh.usedEvent
  attended := fun _ _ less => absurd less (Nat.lt_irrefl 0)

/-- The used element is set for the head that the thread has. -/
theorem Inv.processing {s : State} (inv : Inv s) (answered : s.answering = .answered) :
    s.kick.thread = .processing := by
  by_contra other
  have idle := inv.idle other
  rw [answered] at idle
  cases idle

/-- What the avail side leaves of the used side. -/
structure Framed (s next : KickHandshake.State) : Prop where
  vring : next.vq.vring = s.vq.vring
  lastSignalled : next.vq.lastUsedSignalled = s.vq.lastUsedSignalled
  usedIdx : next.ring.used.idx = s.ring.used.idx
  availRing : next.ring.avail.ring = s.ring.avail.ring

theorem kick_framed {s next : KickHandshake.State} {action : KickHandshake.Action}
    (taken : KickHandshake.step s action = some next) : Framed s next := by
  cases action with
  | publish | compare | notify | wake | load | pop | finish =>
      obtain ⟨_, ⟨⟩⟩ := Option.ite_none_right_eq_some.mp taken
      exact ⟨rfl, rfl, rfl, rfl⟩
  | store =>
      obtain ⟨_, ⟨⟩⟩ := Option.ite_none_right_eq_some.mp taken
      exact ⟨rfl, rfl, available_store_used_idx _ _, congrArg _ (available_store_avail _ _)⟩

/-- The avail side does not mind what happens on the used side. -/
theorem kick_inv_used {s : KickHandshake.State} (inv : KickHandshake.Inv s) {ring : RingMemory}
    {vq : VirtQueue} (availIdx : ring.avail.idx = s.ring.avail.idx)
    (event : vringAvailEvent ring s.vq.vring = vringAvailEvent s.ring s.vq.vring)
    (vring : vq.vring = s.vq.vring) (mode : vq.useEventIdx = s.vq.useEventIdx)
    (lastAvail : vq.lastAvailIdx = s.vq.lastAvailIdx) :
    KickHandshake.Inv { s with ring := ring, vq := vq } :=
  { inv with
    mapped := by rw [vring]; exact inv.mapped
    mode := mode.trans inv.mode
    availIdx := availIdx.trans inv.availIdx
    lastAvail := lastAvail.trans inv.lastAvail
    event := fun place => by
      have same := inv.event place
      simp only [vring, lastAvail, event]
      exact same }

section Steps
variable {s next : State}

/-- No count has gone round once more than the other. -/
theorem used_idx_iff (inv : Inv s) : s.kick.ring.used.idx = s.lastUsedIdx ↔
    s.consumed = s.completed := by
  have popped := inv.kick.poppedLe
  have sum := inv.popped
  have room := inv.room
  rw [inv.usedIdx, inv.lastUsedIdx]
  have differ := counters_differ s.consumed s.completed inv.consumedLe (by omega)
  have less := inv.consumedLe
  constructor
  · intro same
    by_contra other
    exact differ.mpr (by omega) same
  · intro same
    rw [same]

theorem kick_step_inv {action : KickHandshake.Action} (inv : Inv s)
    (taken : step s (.kick action) = some next) : Inv next := by
  obtain ⟨admits, mapped⟩ := Option.ite_none_right_eq_some.mp taken
  obtain ⟨kick, moved, rfl⟩ := Option.map_eq_some_iff.mp mapped
  have framed := kick_framed moved
  have popped := inv.popped
  have idle := inv.idle
  have room := inv.room
  have event : s.looking ≠ .polling →
      vringUsedEvent kick.ring kick.vq.vring = UInt16.ofNat s.consumed := by
    intro away
    rw [vringUsedEvent, framed.vring, framed.availRing]
    exact inv.event away
  refine { inv with
    kick := KickHandshake.step_inv action kick inv.kick moved
    size := by rw [framed.vring]; exact inv.size
    usedIdx := framed.usedIdx.trans inv.usedIdx
    lastSignalled := framed.lastSignalled.trans inv.lastSignalled
    event := event
    room := ?_, popped := ?_, idle := ?_ }
  all_goals
    cases action <;> obtain ⟨here, ⟨⟩⟩ := Option.ite_none_right_eq_some.mp moved <;>
      grind [KickHandshake.publishHeads, KickHandshake.compareEvent, KickHandshake.notifyVq,
        KickHandshake.popNext, Admits, inHand]

theorem used_elem_event (ring : RingMemory) {vq : VirtQueue} (id len : UInt32)
    (size : vq.vring.num = 256) :
    vringAvailEvent (virtQueueSetUsedElem ring vq id len) vq.vring =
      vringAvailEvent ring vq.vring := by
  have apart : vq.vring.num ≠ (ring.used.idx + 0).toNat % vq.vring.num := by
    rw [size]
    omega
  simp only [vringAvailEvent, virtQueueSetUsedElem, virtQueueUsedIdxAdvance,
    virtQueueSetUsedElemNoUpdate]
  rw [put_other _ _ _ _ apart]

theorem answer_inv (inv : Inv s) (id len : UInt32) (processing : s.kick.thread = .processing)
    (unanswered : s.answering = .unanswered) : Inv (answer s id len) := by
  have popped := inv.popped
  have less := inv.consumedLe
  have signalled := inv.signalledLe
  refine { inv with
    kick := kick_inv_used inv.kick rfl (used_elem_event _ id len inv.size) rfl rfl rfl
    unsignalled := fun _ => Nat.lt_succ_of_le signalled
    usedIdx := ?_, signalledLe := ?_, consumedLe := ?_, popped := ?_, idle := ?_, working := ?_
    attended := ?_ }
  · simp [answer, inv.usedIdx, UInt16.ofNat_add]
  · exact Nat.le_succ_of_le signalled
  · exact Nat.le_succ_of_le less
  · simp only [inHand, processing, unanswered, true_or, and_self, if_true] at popped
    simp only [answer, inHand, processing, reduceCtorEq, or_self, and_false, if_false]
    omega
  · exact fun other => absurd processing other
  · exact fun _ => inv.working (by rw [unanswered]; decide)
  · intro quiet away _
    by_cases behind : s.consumed < s.completed
    · rcases inv.attended quiet away behind with ⟨other, _⟩ | seen
      · rw [unanswered] at other
        cases other
      · exact .inr seen
    · exact .inl ⟨rfl, by simp only [answer]; omega⟩

theorem finish_inv (inv : Inv s) (taken : step s .finish = some next) : Inv next := by
  obtain ⟨⟨judged, working⟩, mapped⟩ := Option.ite_none_right_eq_some.mp taken
  obtain ⟨kick, moved, rfl⟩ := Option.map_eq_some_iff.mp mapped
  have after := KickHandshake.step_inv .finish kick inv.kick moved
  obtain ⟨processing, ⟨⟩⟩ := Option.ite_none_right_eq_some.mp moved
  have popped := inv.popped
  refine { inv with
    kick := after, popped := ?_, idle := fun _ => rfl, working := fun _ => working
    unsignalled := by simp, attended := ?_ }
  · simp only [inHand, judged, reduceCtorEq, or_self, and_false, if_false] at popped
    simpa [inHand] using popped
  · intro quiet away less
    rcases inv.attended quiet away less with ⟨other, _⟩ | seen
    · rw [judged] at other
      cases other
    · exact .inr seen

theorem drop_inv (inv : Inv s) (taken : step s .drop = some next) : Inv next := by
  obtain ⟨unanswered, mapped⟩ := Option.ite_none_right_eq_some.mp taken
  obtain ⟨kick, moved, rfl⟩ := Option.map_eq_some_iff.mp mapped
  have after := KickHandshake.step_inv .finish kick inv.kick moved
  obtain ⟨processing, ⟨⟩⟩ := Option.ite_none_right_eq_some.mp moved
  have popped := inv.popped
  refine { inv with
    kick := after, popped := ?_, idle := fun _ => unanswered }
  simp only [inHand, processing, unanswered, true_or, and_self, if_true] at popped
  simp only [inHand, reduceCtorEq, false_and, if_false]
  omega

theorem lose_inv (inv : Inv s) (taken : step s .lose = some next) : Inv next := by
  obtain ⟨⟨processing, unanswered⟩, ⟨⟩⟩ := Option.ite_none_right_eq_some.mp taken
  have popped := inv.popped
  refine { inv with
    unsignalled := by simp, popped := ?_, idle := fun other => absurd processing other
    working := fun _ => inv.working (by rw [unanswered]; decide), attended := ?_ }
  · simpa [inHand, processing, unanswered] using popped
  · intro quiet away less
    rcases inv.attended quiet away less with ⟨other, _⟩ | seen
    · rw [unanswered] at other
      cases other
    · exact .inr seen

theorem should_signal_cases (ring : RingMemory) {vq : VirtQueue} (mode : vq.useEventIdx = true) :
    (virtioQueueShouldSignal ring vq = (true, { vq with lastUsedSignalled := ring.used.idx })) ∨
      virtioQueueShouldSignal ring vq = (false, vq) ∧
        vringNeedEvent (vringUsedEvent ring vq.vring) ring.used.idx vq.lastUsedSignalled =
          false := by
  simp only [virtioQueueShouldSignal, mode, Bool.true_eq_false, if_false]
  split
  · exact .inl rfl
  · next quiet => exact .inr ⟨rfl, Bool.eq_false_iff.mpr quiet⟩

/-- No interrupt for the answer that the driver waits for: the last one was a whole round of
the index before. -/
theorem unsignalled_quiet (inv : Inv s) (answered : s.answering = .answered)
    (away : s.looking = .away) (behind : s.completed = s.consumed + 1)
    (silent : vringNeedEvent (vringUsedEvent s.kick.ring s.kick.vq.vring) s.kick.ring.used.idx
      s.kick.vq.lastUsedSignalled = false) : 65536 ≤ s.completed - s.signalled := by
  have event := inv.event (by rw [away]; decide)
  have more : UInt16.ofNat s.completed = UInt16.ofNat s.consumed + 1 := by
    rw [behind, UInt16.ofNat_add]
    rfl
  have same : UInt16.ofNat s.completed = UInt16.ofNat s.signalled := by
    rw [event, inv.usedIdx, more, inv.lastSignalled] at silent
    by_contra other
    rw [(need_event_armed _ _).mpr (more ▸ other)] at silent
    cases silent
  have less := inv.unsignalled answered
  by_contra near
  exact (counters_differ s.signalled s.completed less.le (by omega)).mpr less same

theorem judge_inv (inv : Inv s) (answered : s.answering = .answered) (taken : judge s = some next) :
    Inv next := by
  have processing := inv.processing answered
  have working := inv.working (by rw [answered]; decide)
  have popped := inv.popped
  have interrupt : InterruptState.step s.interrupt .complete = some { s.interrupt with
    thread := .loading, completed := s.interrupt.completed + 1 } := if_pos working
  simp only [inHand, answered, reduceCtorEq, or_self, and_false, if_false] at popped
  unfold judge at taken
  rcases should_signal_cases s.kick.ring inv.kick.mode with signal | ⟨signal, silent⟩
  · simp only [signal, if_true, interrupt, Option.map_some, Option.some.injEq] at taken
    subst taken
    refine { inv with
      kick := kick_inv_used inv.kick rfl rfl rfl rfl rfl
      interrupt := InterruptState.step_inv inv.interrupt interrupt
      lastSignalled := inv.usedIdx
      signalledLe := Nat.le_refl _
      unsignalled := by simp
      popped := ?_
      idle := fun other => absurd processing other
      working := fun other => absurd rfl other
      attended := fun _ _ _ => .inr (Nat.lt_succ_of_le inv.interrupt.consumed_le) }
    simpa [inHand] using popped
  · simp only [signal, Bool.false_eq_true, if_false, Option.some.injEq] at taken
    subst taken
    refine { inv with
      kick := kick_inv_used inv.kick rfl rfl rfl rfl rfl
      unsignalled := by simp
      popped := ?_
      idle := fun other => absurd processing other
      working := fun other => absurd rfl other
      attended := ?_ }
    · simpa [inHand] using popped
    · intro quiet away less
      obtain ⟨earlier, late⟩ := max_lt_iff.mp quiet
      rcases inv.attended earlier away less with ⟨_, behind⟩ | seen
      · have long := unsignalled_quiet inv answered away behind silent
        omega
      · exact .inr seen

/-- What an interrupt on its way leaves as it is. -/
theorem interrupt_framed {s next : InterruptState.State} {action : InterruptState.Action}
    (plain : action ≠ .complete ∧ action ≠ .handle)
    (taken : InterruptState.step s action = some next) :
    next.consumed = s.consumed ∧ next.completed = s.completed ∧
      (s.thread = .working → next.thread = .working) := by
  cases action with
  | complete => exact absurd rfl plain.1
  | handle => exact absurd rfl plain.2
  | load | trigger | take | readStatus =>
      obtain ⟨here, ⟨⟩⟩ := Option.ite_none_right_eq_some.mp taken
      exact ⟨rfl, rfl, fun working => by simp_all⟩
  | store =>
      cases there : s.thread <;> simp only [InterruptState.step, there, reduceCtorEq] at taken
      cases taken
      exact ⟨rfl, rfl, fun working => by cases working⟩
  | acknowledge | acknowledgeOther | dismiss =>
      cases there : s.driver <;> simp only [InterruptState.step, there, reduceCtorEq] at taken
      split at taken <;> cases taken
      exact ⟨rfl, rfl, id⟩
  | clear =>
      cases there : s.driver <;> simp only [InterruptState.step, there, reduceCtorEq] at taken
      cases taken
      exact ⟨rfl, rfl, id⟩

theorem interrupt_step_inv {action : InterruptState.Action} (inv : Inv s)
    (taken : step s (.interrupt action) = some next) : Inv next := by
  obtain ⟨takes, mapped⟩ := Option.ite_none_right_eq_some.mp taken
  obtain ⟨interrupt, moved, rfl⟩ := Option.map_eq_some_iff.mp mapped
  have plain : action ≠ .complete ∧ action ≠ .handle := by
    constructor <;> rintro rfl <;> exact takes
  obtain ⟨consumed, completed, working⟩ := interrupt_framed plain moved
  refine { inv with
    interrupt := InterruptState.step_inv inv.interrupt moved
    working := fun phase => working (inv.working phase), attended := ?_ }
  intro quiet away less
  rcases inv.attended quiet away less with judging | seen
  · exact .inl judging
  · exact .inr (by simpa only [consumed, completed] using seen)

theorem set_event_inv (inv : Inv s) (event : UInt16) : KickHandshake.Inv (setUsedEvent s event) :=
  kick_inv_used inv.kick rfl rfl rfl rfl rfl

theorem poll_inv (inv : Inv s) (event : UInt16) : Inv (poll s event) :=
  { inv with
    kick := set_event_inv inv event
    event := fun other => absurd rfl other
    attended := fun _ away => by cases away }

theorem handle_inv (inv : Inv s) {event : UInt16} (taken : step s (.handle event) = some next) :
    Inv next := by
  cases there : s.interrupt.driver <;> simp only [step, there, reduceCtorEq] at taken
  next status =>
    obtain ⟨interrupt, moved, same⟩ := Option.map_eq_some_iff.mp taken
    have after := InterruptState.step_inv inv.interrupt moved
    simp only [InterruptState.step, there, Option.some.injEq] at moved
    by_cases vring : InterruptState.Vring status
    · rw [if_pos vring] at same moved
      subst same moved
      have handled : Inv { poll s event with interrupt := { s.interrupt with
          driver := .running, consumed := s.interrupt.completed } } :=
        { poll_inv inv event with
          interrupt := after
          attended := fun _ away => by cases away }
      exact handled
    · rw [if_neg vring] at same moved
      subst same moved
      exact { inv with interrupt := after }

theorem consume_inv (inv : Inv s) (taken : step s .consume = some next) : Inv next := by
  obtain ⟨⟨polling, more⟩, ⟨⟩⟩ := Option.ite_none_right_eq_some.mp taken
  have behind : s.consumed < s.completed :=
    lt_of_le_of_ne inv.consumedLe (mt (used_idx_iff inv).mpr more)
  have room := inv.room
  refine { inv with
    lastUsedIdx := ?_, consumedLe := behind, room := Nat.le_trans room (by simp), event := ?_
    attended := ?_ }
  · simp [inv.lastUsedIdx, UInt16.ofNat_add]
  · exact fun other => absurd polling other
  · intro _ away
    rw [polling] at away
    cases away

theorem arm_inv (inv : Inv s) (taken : step s .arm = some next) : Inv next := by
  obtain ⟨⟨polling, all⟩, ⟨⟩⟩ := Option.ite_none_right_eq_some.mp taken
  refine { inv with kick := set_event_inv inv _, event := ?_, attended := ?_ }
  · intro _
    exact (driver_event_read _ _ _).trans inv.lastUsedIdx
  · intro _ away
    cases away

theorem recheck_inv (inv : Inv s) {event : UInt16} (taken : step s (.recheck event) = some next) :
    Inv next := by
  obtain ⟨armed, same⟩ := Option.ite_none_right_eq_some.mp taken
  rw [Option.some.injEq] at same
  subst same
  by_cases all : s.kick.ring.used.idx = s.lastUsedIdx
  · rw [if_pos all]
    have none := (used_idx_iff inv).mp all
    exact { inv with
      event := fun _ => inv.event (by rw [armed]; decide)
      attended := fun _ _ less => absurd less (Nat.not_lt.mpr (Nat.le_of_eq none.symm)) }
  · rw [if_neg all]
    exact poll_inv inv event

theorem step_inv {action : Action} (inv : Inv s) (taken : step s action = some next) :
    Inv next := by
  cases action with
  | kick => exact kick_step_inv inv taken
  | answer id len =>
      obtain ⟨⟨processing, unanswered⟩, ⟨⟩⟩ := Option.ite_none_right_eq_some.mp taken
      exact answer_inv inv id len processing unanswered
  | judge =>
      obtain ⟨answered, judged⟩ := Option.ite_none_right_eq_some.mp taken
      exact judge_inv inv answered judged
  | drop => exact drop_inv inv taken
  | lose => exact lose_inv inv taken
  | finish => exact finish_inv inv taken
  | interrupt => exact interrupt_step_inv inv taken
  | handle => exact handle_inv inv taken
  | look =>
      obtain ⟨_, ⟨⟩⟩ := Option.ite_none_right_eq_some.mp taken
      exact poll_inv inv _
  | consume => exact consume_inv inv taken
  | arm => exact arm_inv inv taken
  | recheck => exact recheck_inv inv taken

/-- Both sides sleep, and no interrupt is on its way. -/
structure Rest (s : State) : Prop where
  kick : KickHandshake.Quiescent s.kick
  interrupt : InterruptState.Rest s.interrupt
  away : s.looking = .away

theorem Inv.rest (inv : Inv s) (quiet : s.quiet < 65536) (whole : s.interrupt.torn = false)
    (rest : Rest s) :
    s.kick.popped = s.kick.published ∧ s.completed + s.dropped = s.kick.published ∧
      s.consumed = s.completed := by
  obtain ⟨⟨reading, none, idle, compared⟩, interrupt, away⟩ := rest
  have unanswered : s.answering = .unanswered := inv.idle (by rw [reading]; decide)
  have less := inv.kick.poppedLe
  have popped : s.kick.popped = s.kick.published := by
    rcases inv.kick.attended reading with counted | kicking | seen | early
    · omega
    · simp [idle] at kicking
    · exact seen
    · omega
  have settled : s.kick.popped = s.completed + s.dropped := by
    have sum := inv.popped
    simpa [inHand, reading] using sum
  have consumed : s.consumed = s.completed := by
    by_contra other
    rcases inv.attended quiet away (lt_of_le_of_ne inv.consumedLe other) with ⟨late, _⟩ | unseen
    · rw [unanswered] at late
      cases late
    · exact absurd (inv.interrupt.rest whole interrupt) (Nat.ne_of_lt unseen)
  exact ⟨popped, settled.symm.trans popped, consumed⟩

/-- What the avail side has left to do for the heads there are. -/
def kickLeft (s : State) : Nat :=
  43 * (s.kick.published - s.kick.popped) + (if s.kick.checked < s.kick.published then 6 else 0) +
    (if s.kick.kicking then 5 else 0) + (if 0 < s.kick.counter then 4 else 0) +
    match s.kick.thread with
    | .reading => 0
    | .popping => 1
    | .loading => 2
    | .storing => 3
    | .processing =>
        match s.answering with
        | .lost => 1
        | .judged => 4
        | .answered => 37
        | .unanswered => 43

/-- What the driver has left to do at the used ring. -/
def lookLeft (s : State) : Nat :=
  3 * (s.completed - s.consumed) +
    match s.looking with
    | .away => 0
    | .polling => 2
    | .armed => if s.consumed < s.completed then 3 else 1

/-- How many steps are left, at most, when the driver publishes nothing more and looks only
when it is interrupted. -/
def left (s : State) : Nat :=
  kickLeft s + 4 * InterruptState.left s.interrupt + lookLeft s

/-- Neither a new head, nor a look that nothing asked for. -/
def Settles : Action → Prop
  | .kick (.publish _) | .look _ => False
  | _ => True

theorem kick_lowers {action : KickHandshake.Action} (inv : Inv s) (settles : Settles (.kick action))
    (taken : step s (.kick action) = some next) : left next < left s := by
  obtain ⟨admits, mapped⟩ := Option.ite_none_right_eq_some.mp taken
  obtain ⟨kick, moved, rfl⟩ := Option.map_eq_some_iff.mp mapped
  have popped := inv.kick.poppedLe
  have pending := inv.kick.pending
  have idle := inv.idle
  cases action with
  | publish => exact absurd settles id
  | finish => exact absurd admits id
  | compare | notify | wake | store | load | pop =>
      obtain ⟨here, ⟨⟩⟩ := Option.ite_none_right_eq_some.mp moved
      simp only [left, lookLeft, kickLeft]
      grind [Admits, KickHandshake.compareEvent, KickHandshake.notifyVq, KickHandshake.popNext]

theorem judge_lowers (inv : Inv s) (answered : s.answering = .answered)
    (taken : judge s = some next) : left next < left s := by
  have processing := inv.processing answered
  have working := inv.working (by rw [answered]; decide)
  unfold judge at taken
  rcases should_signal_cases s.kick.ring inv.kick.mode with signal | ⟨signal, _⟩
  · simp only [signal, if_true, InterruptState.step, working, Option.map_some,
      Option.some.injEq] at taken
    subst taken
    simp only [left, lookLeft, kickLeft, InterruptState.left, processing, answered, working]
    omega
  · simp only [signal, Bool.false_eq_true, if_false, Option.some.injEq] at taken
    subst taken
    simp only [left, lookLeft, kickLeft, processing, answered]
    omega

theorem handle_lowers {event : UInt16} (taken : step s (.handle event) = some next) :
    left next < left s := by
  cases there : s.interrupt.driver <;> simp only [step, there, reduceCtorEq] at taken
  next status =>
    obtain ⟨interrupt, moved, same⟩ := Option.map_eq_some_iff.mp taken
    have less := InterruptState.left_lowers (by simp) moved
    by_cases vring : InterruptState.Vring status
    · rw [if_pos vring] at same
      subst same
      have looks : lookLeft (poll s event) ≤ lookLeft s + 2 := by
        grind [lookLeft, poll]
      have kept : kickLeft (poll s event) = kickLeft s := rfl
      simp only [left]
      change kickLeft (poll s event) + 4 * InterruptState.left interrupt +
        lookLeft (poll s event) < _
      omega
    · rw [if_neg vring] at same
      subst same
      simp only [left]
      change kickLeft s + 4 * InterruptState.left interrupt + lookLeft s < _
      omega

theorem left_lowers {action : Action} (inv : Inv s) (settles : Settles action)
    (taken : step s action = some next) : left next < left s := by
  cases action with
  | kick => exact kick_lowers inv settles taken
  | look => exact absurd settles id
  | answer id len =>
      obtain ⟨⟨processing, unanswered⟩, ⟨⟩⟩ := Option.ite_none_right_eq_some.mp taken
      have less := inv.consumedLe
      simp only [left, kickLeft, lookLeft, answer, processing, unanswered]
      grind
  | drop =>
      obtain ⟨unanswered, mapped⟩ := Option.ite_none_right_eq_some.mp taken
      obtain ⟨kick, moved, rfl⟩ := Option.map_eq_some_iff.mp mapped
      obtain ⟨processing, ⟨⟩⟩ := Option.ite_none_right_eq_some.mp moved
      simp only [left, kickLeft, lookLeft, processing, unanswered]
      omega
  | lose =>
      obtain ⟨⟨processing, unanswered⟩, ⟨⟩⟩ := Option.ite_none_right_eq_some.mp taken
      simp only [left, kickLeft, lookLeft, processing, unanswered]
      omega
  | judge =>
      obtain ⟨answered, judged⟩ := Option.ite_none_right_eq_some.mp taken
      exact judge_lowers inv answered judged
  | finish =>
      obtain ⟨⟨judged, working⟩, mapped⟩ := Option.ite_none_right_eq_some.mp taken
      obtain ⟨kick, moved, rfl⟩ := Option.map_eq_some_iff.mp mapped
      obtain ⟨processing, ⟨⟩⟩ := Option.ite_none_right_eq_some.mp moved
      simp only [left, kickLeft, lookLeft, processing, judged]
      omega
  | interrupt action =>
      obtain ⟨takes, mapped⟩ := Option.ite_none_right_eq_some.mp taken
      obtain ⟨interrupt, moved, rfl⟩ := Option.map_eq_some_iff.mp mapped
      have less := InterruptState.left_lowers (by rintro rfl; exact takes) moved
      change kickLeft s + 4 * InterruptState.left interrupt + lookLeft s < left s
      simp only [left]
      omega
  | handle => exact handle_lowers taken
  | consume =>
      obtain ⟨⟨polling, more⟩, ⟨⟩⟩ := Option.ite_none_right_eq_some.mp taken
      have behind : s.consumed < s.completed :=
        lt_of_le_of_ne inv.consumedLe (mt (used_idx_iff inv).mpr more)
      simp only [left, kickLeft, lookLeft, polling]
      omega
  | arm =>
      obtain ⟨⟨polling, all⟩, ⟨⟩⟩ := Option.ite_none_right_eq_some.mp taken
      have none := (used_idx_iff inv).mp all
      refine Nat.add_lt_add_left ?_ (kickLeft s + 4 * InterruptState.left s.interrupt)
      simp [lookLeft, polling, none]
  | recheck event =>
      obtain ⟨armed, same⟩ := Option.ite_none_right_eq_some.mp taken
      rw [Option.some.injEq] at same
      subst same
      by_cases all : s.kick.ring.used.idx = s.lastUsedIdx
      · have none := (used_idx_iff inv).mp all
        rw [if_pos all]
        simp only [left, kickLeft, lookLeft, armed, none, Nat.lt_irrefl, if_false]
        omega
      · have behind : s.consumed < s.completed :=
          lt_of_le_of_ne inv.consumedLe (mt (used_idx_iff inv).mpr all)
        rw [if_neg all]
        refine Nat.add_lt_add_left ?_ (kickLeft s + 4 * InterruptState.left s.interrupt)
        simp [lookLeft, poll, armed, behind]

theorem kick_left_le (inv : Inv s) : kickLeft s ≤ 11066 := by
  have room := inv.room
  have popped := inv.popped
  have less := inv.consumedLe
  have heads : s.kick.published - s.kick.popped ≤ 256 := by omega
  have stage : (match s.kick.thread with
    | .reading => 0
    | .popping => 1
    | .loading => 2
    | .storing => 3
    | .processing =>
        match s.answering with
        | .lost => 1
        | .judged => 4
        | .answered => 37
        | .unanswered => 43) ≤ 43 := by
    cases s.kick.thread <;> cases s.answering <;> decide
  simp only [kickLeft]
  split_ifs <;> omega

theorem look_left_le (inv : Inv s) : lookLeft s ≤ 771 := by
  have room := inv.room
  have popped := inv.popped
  have taken := inv.kick.poppedLe
  have unseen : s.completed - s.consumed ≤ 256 := by omega
  cases looking : s.looking with
  | away | polling =>
      simp only [lookLeft, looking]
      omega
  | armed =>
      simp only [lookLeft, looking]
      split_ifs <;> omega

theorem left_le (inv : Inv s) : left s ≤ 12000 := by
  have kick := kick_left_le inv
  have look := look_left_le inv
  have interrupt := InterruptState.left_le s.interrupt
  simp only [left]
  omega

theorem looking_enabled (looking : s.looking ≠ .away) :
    ∃ action next, Settles action ∧ step s action = some next := by
  cases there : s.looking with
  | away => exact absurd there looking
  | polling =>
      by_cases all : s.kick.ring.used.idx = s.lastUsedIdx
      · exact ⟨.arm, _, trivial, if_pos ⟨there, all⟩⟩
      · exact ⟨.consume, _, trivial, if_pos ⟨there, all⟩⟩
  | armed => exact ⟨.recheck 0, _, trivial, if_pos there⟩

theorem interrupt_enabled (away : s.looking = .away) (busy : ¬ InterruptState.Rest s.interrupt) :
    ∃ action next, Settles action ∧ step s action = some next := by
  obtain ⟨action, next, plain, taken⟩ := InterruptState.busy_enabled busy
  by_cases handles : action = .handle
  · subst handles
    cases there : s.interrupt.driver <;>
      simp only [InterruptState.step, there, reduceCtorEq] at taken
    exact ⟨.handle 0, _, trivial, by simp only [step, InterruptState.step, there]; rfl⟩
  · have takes : Takes s action := by
      cases action <;> simp_all [Takes]
    exact ⟨.interrupt action, _, trivial, by rw [step, if_pos takes, taken]; rfl⟩

/-- The I/O thread is stuck with no head that comes back. -/
theorem processing_enabled (inv : Inv s) (back : s.answering ≠ .lost)
    (processing : s.kick.thread = .processing) (settled : InterruptState.Rest s.interrupt) :
    ∃ action next, Settles action ∧ step s action = some next := by
  cases phase : s.answering with
  | unanswered => exact ⟨.answer 0 0, _, trivial, if_pos ⟨processing, phase⟩⟩
  | answered =>
      obtain ⟨next, judged⟩ : ∃ next, judge s = some next := by
        rcases should_signal_cases s.kick.ring inv.kick.mode with signal | ⟨signal, _⟩
        · exact ⟨_, by simp only [judge, signal, if_true, InterruptState.step, settled.1]; rfl⟩
        · exact ⟨_, by simp only [judge, signal, Bool.false_eq_true, if_false]; rfl⟩
      exact ⟨.judge, next, trivial, by rw [step, if_pos phase, judged]⟩
  | judged =>
      exact ⟨.finish, _, trivial, by
        simp only [step, phase, settled.1, KickHandshake.step, processing, and_self, if_true]; rfl⟩
  | lost => exact absurd phase back

theorem kick_enabled {action : KickHandshake.Action} {kick : KickHandshake.State}
    (settles : Settles (.kick action)) (admits : Admits s action)
    (taken : KickHandshake.step s.kick action = some kick) :
    ∃ action next, Settles action ∧ step s action = some next :=
  ⟨.kick action, _, settles, by rw [step, if_pos admits, taken]; rfl⟩

theorem thread_enabled (inv : Inv s) (back : s.answering ≠ .lost)
    (settled : InterruptState.Rest s.interrupt) (busy : ¬ KickHandshake.Quiescent s.kick) :
    ∃ action next, Settles action ∧ step s action = some next := by
  cases there : s.kick.thread with
  | storing => exact @kick_enabled s .store _ trivial trivial (if_pos there)
  | loading => exact @kick_enabled s .load _ trivial trivial (if_pos there)
  | popping => exact @kick_enabled s .pop _ trivial trivial (if_pos there)
  | processing => exact processing_enabled inv back there settled
  | reading =>
      by_cases counted : 0 < s.kick.counter
      · exact @kick_enabled s .wake _ trivial trivial (if_pos ⟨there, counted⟩)
      · cases kicking : s.kick.kicking with
        | true => exact @kick_enabled s .notify _ trivial trivial (if_pos kicking)
        | false =>
            have more : s.kick.checked < s.kick.published := by
              refine lt_of_le_of_ne inv.kick.checkedLe fun same => busy ?_
              exact ⟨there, Nat.eq_zero_of_not_pos counted, kicking, same⟩
            exact @kick_enabled s .compare _ trivial more (if_pos kicking)

theorem busy_enabled (inv : Inv s) (back : s.answering ≠ .lost) (busy : ¬ Rest s) :
    ∃ action next, Settles action ∧ step s action = some next := by
  by_cases away : s.looking = .away
  · by_cases settled : InterruptState.Rest s.interrupt
    · exact thread_enabled inv back settled fun quiescent => busy ⟨quiescent, settled, away⟩
    · exact interrupt_enabled away settled
  · exact looking_enabled away

/-- There is something left until both sides sleep, also for a thread that is lost. -/
theorem busy_left (inv : Inv s) (busy : ¬ Rest s) : 0 < left s := by
  by_cases lost : s.answering = .lost
  · have processing : s.kick.thread = .processing := by
      by_contra other
      have idle := inv.idle other
      rw [lost] at idle
      cases idle
    simp only [left, kickLeft, processing, lost]
    omega
  · obtain ⟨action, next, settles, taken⟩ := busy_enabled inv lost busy
    exact Nat.zero_lt_of_lt (left_lowers inv settles taken)

end Steps

/-- However the driver, the I/O thread and the main thread take turns: when nothing more is
published, they come to rest within so many steps, and until then one of them can go on,
unless the I/O thread is in a request that does not come back. At rest every head that was
published has been taken, and completed or dropped, each once, and the driver has seen every
answer, unless an acknowledgment was stored over a set bit or 65536 answers in a row raised
no interrupt. -/
theorem requests_come_round (fresh : FreshQueue) {actions : List Action} {s : State}
    (ran : run step (start fresh) actions = some s) :
    (s.quiet < 65536 → s.interrupt.torn = false → Rest s →
      s.kick.popped = s.kick.published ∧ s.completed + s.dropped = s.kick.published ∧
        s.consumed = s.completed) ∧
      (¬ Rest s → s.answering ≠ .lost → ∃ action next, Settles action ∧ step s action = some next) ∧
      ∀ more final, (∀ action ∈ more, Settles action) → run step s more = some final →
        12000 ≤ more.length →
          ∃ done rest, done <+: more ∧ run step s done = some rest ∧ Rest rest := by
  have inv : Inv s := run_invariant Inv (fun _ _ _ inv taken => step_inv inv taken)
    (start_inv fresh) ran
  refine ⟨fun quiet whole => inv.rest quiet whole, fun busy back => busy_enabled inv back busy, ?_⟩
  intro more final settles runs long
  by_cases rest : Rest s
  · exact ⟨[], s, List.nil_prefix, rfl, rest⟩
  · refine run_arrives Settles (fun s => Inv s ∧ ¬ Rest s) left ?_ ?_ ⟨inv, rest⟩ settles runs
      ((left_le inv).trans long)
    · exact fun s going => busy_left going.1 going.2
    · rintro s action next settles ⟨inv, busy⟩ taken
      exact ⟨left_lowers inv settles taken, (em (Rest next)).symm.imp_left
        fun busy => ⟨step_inv inv taken, busy⟩⟩

def freshQueue : FreshQueue where
  toZeroedQueue := KickHandshake.zeroedQueue
  usedEvent := rfl
  lastSignalled := rfl

/-- One head, from its publication until the driver has seen its answer. -/
def oneRound : List Action :=
  [.kick (.publish 1), .kick .compare, .kick .notify, .kick .wake, .kick .store, .kick .load,
    .kick .pop, .answer 0 513, .judge, .interrupt .load, .interrupt .store, .interrupt .trigger,
    .finish, .kick .store, .kick .load, .interrupt .take, .interrupt .readStatus,
    .interrupt .acknowledge, .interrupt .clear, .handle 0, .consume, .arm, .recheck 0]

set_option maxRecDepth 4000 in
theorem one_request_round : ∃ s, run step (start freshQueue) oneRound = some s ∧ Rest s ∧
    s.consumed = s.completed :=
  ⟨_, rfl, ⟨⟨rfl, rfl, rfl, rfl⟩, ⟨rfl, rfl, rfl⟩, rfl⟩,
    ((requests_come_round freshQueue (show run step (start freshQueue) oneRound = some _ from rfl)).1
      (by decide) rfl ⟨⟨rfl, rfl, rfl, rfl⟩, ⟨rfl, rfl, rfl⟩, rfl⟩).2.2⟩

end VirtioDisk.RoundTrip
