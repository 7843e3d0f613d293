import VirtioDisk.SplitRing

/-!
The kick of a driver in event index mode and the I/O thread that waits for it.
Every access to memory the two sides share is a step of its own, taken in some
sequentially consistent order. The driver stores its avail index, any number of
times, and then compares what it added since its last comparison with the avail
event. The thread of `virtio_blk_thread` reads the eventfd, and in
`virtio_blk_do_io` stores the avail event and loads the avail index before each
pop. `published`, `checked` and `popped` are the free-running counts behind the
16-bit indices.
-/

namespace VirtioDisk.KickHandshake

open Transition Virtqueue SplitRing

/-- Where the I/O thread is. In `reading` it is in `read(io_efd)`, which blocks
while the counter is 0. -/
inductive IoThread where
  | reading
  | storing
  | loading
  | popping
  | processing
  deriving DecidableEq

structure State where
  ring : RingMemory
  vq : VirtQueue
  thread : IoThread
  counter : Nat
  old : UInt16
  kicking : Bool
  published : Nat
  checked : Nat
  popped : Nat

inductive Action where
  | publish (count : Nat)
  | compare
  | notify
  | wake
  | store
  | load
  | pop
  | finish

def publishHeads (s : State) (count : Nat) : State :=
  { s with
    ring := { s.ring with avail :=
      { s.ring.avail with idx := s.ring.avail.idx + UInt16.ofNat count } }
    published := s.published + count }

def compareEvent (s : State) : State :=
  { s with
    old := s.ring.avail.idx
    kicking := vringNeedEvent (vringAvailEvent s.ring s.vq.vring) s.ring.avail.idx s.old
    checked := s.published }

/-- The write to QUEUE_NOTIFY becomes a write of 1 to the eventfd. -/
def notifyVq (s : State) : State :=
  { s with counter := s.counter + 1, kicking := false }

def popNext (s : State) : State :=
  { s with
    vq := (virtQueuePop s.ring s.vq).2
    thread := .processing
    popped := s.popped + 1 }

/-- A queue holds at most 256 heads that were not popped, and the driver compares
before it has added 2^16 heads, since the comparison is one of 16-bit indices. -/
def step (s : State) : Action → Option State
  | .publish count =>
      if s.kicking = false ∧ s.published + count ≤ s.popped + 256 ∧
          s.published + count < s.checked + 65536 then
        some (publishHeads s count)
      else none
  | .compare => if s.kicking = false then some (compareEvent s) else none
  | .notify => if s.kicking then some (notifyVq s) else none
  | .wake =>
      if s.thread = .reading ∧ 0 < s.counter then
        some { s with counter := 0, thread := .storing }
      else none
  | .store =>
      if s.thread = .storing then
        some { s with ring := virtQueueAvailableStore s.ring s.vq, thread := .loading }
      else none
  | .load =>
      if s.thread = .loading then
        some { s with
          thread := if virtQueueAvailableLoad s.ring s.vq then .popping else .reading }
      else none
  | .pop => if s.thread = .popping then some (popNext s) else none
  | .finish =>
      if s.thread = .processing then some { s with thread := .storing } else none

/-- A queue in event index mode whose rings the driver handed over zeroed. -/
structure ZeroedQueue extends FreshQueue 256 where
  mode : vq.useEventIdx = true
  availEvent : vringAvailEvent ring vq.vring = 0

def start (zeroed : ZeroedQueue) : State where
  ring := zeroed.ring
  vq := zeroed.vq
  thread := .reading
  counter := 0
  old := 0
  kicking := false
  published := 0
  checked := 0
  popped := 0

/-- What the thread left behind when it went to sleep: either it is about to be
woken, or it has seen everything, or the driver still has a comparison to make
that starts at or before the event. -/
def Attended (s : State) : Prop :=
  0 < s.counter ∨ s.kicking = true ∨ s.popped = s.published ∨ s.checked ≤ s.popped

structure Inv (s : State) : Prop where
  mapped : s.vq.vring.avail ≠ 0
  mode : s.vq.useEventIdx = true
  availIdx : s.ring.avail.idx = UInt16.ofNat s.published
  lastAvail : s.vq.lastAvailIdx = UInt16.ofNat s.popped
  old : s.old = UInt16.ofNat s.checked
  checkedLe : s.checked ≤ s.published
  batch : s.published < s.checked + 65536
  poppedLe : s.popped ≤ s.published
  room : s.published ≤ s.popped + 256
  event : s.thread = .reading ∨ s.thread = .loading →
    vringAvailEvent s.ring s.vq.vring = s.vq.lastAvailIdx
  pending : s.thread = .popping → s.popped < s.published
  attended : s.thread = .reading → Attended s

theorem start_inv (zeroed : ZeroedQueue) : Inv (start zeroed) where
  mapped := zeroed.mapped
  mode := zeroed.mode
  availIdx := zeroed.availIdx
  lastAvail := zeroed.lastAvailIdx
  old := rfl
  checkedLe := Nat.le_refl 0
  batch := by simp [start]
  poppedLe := Nat.le_refl 0
  room := by simp [start]
  event := fun _ => zeroed.availEvent.trans zeroed.lastAvailIdx.symm
  pending := by simp [start]
  attended := fun _ => Or.inr (Or.inr (Or.inl rfl))

-- With less than 2^16 heads between the two comparisons, the 16-bit test sees
-- exactly whether the event lies among the heads that were added.
theorem need_event_counts (event new old : Nat) (first : old ≤ event) (last : event < new)
    (near : new < old + 65536) :
    vringNeedEvent (UInt16.ofNat event) (UInt16.ofNat new) (UInt16.ofNat old) = true := by
  have fromEvent : UInt16.ofNat new - UInt16.ofNat event - 1 = UInt16.ofNat (new - event - 1) := by
    apply UInt16.toNat_inj.mp
    simp only [UInt16.toNat_sub, UInt16.toNat_ofNat', UInt16.toNat_one]
    omega
  have fromOld : UInt16.ofNat new - UInt16.ofNat old = UInt16.ofNat (new - old) := by
    apply UInt16.toNat_inj.mp
    simp only [UInt16.toNat_sub, UInt16.toNat_ofNat']
    omega
  simp only [vringNeedEvent, fromEvent, fromOld, decide_eq_true_eq, UInt16.lt_iff_toNat_lt,
    UInt16.toNat_ofNat']
  omega

section Preservation
variable {s : State}

theorem publish_inv (inv : Inv s) (count : Nat) (idle : s.kicking = false)
    (room : s.published + count ≤ s.popped + 256)
    (batch : s.published + count < s.checked + 65536) : Inv (publishHeads s count) := by
  have checked := inv.checkedLe
  have popped := inv.poppedLe
  refine { inv with
    availIdx := ?_, checkedLe := ?_, batch := batch, poppedLe := ?_, room := room,
    pending := ?_, attended := ?_ }
  · simp [publishHeads, inv.availIdx, UInt16.ofNat_add]
  · simp only [publishHeads]
    omega
  · simp only [publishHeads]
    omega
  · intro popping
    have before := inv.pending popping
    simp only [publishHeads]
    omega
  · intro reading
    rcases inv.attended reading with counted | kicking | seen | early
    · exact Or.inl counted
    · simp [idle] at kicking
    · exact Or.inr (Or.inr (Or.inr (by simp only [publishHeads]; omega)))
    · exact Or.inr (Or.inr (Or.inr early))

theorem compare_inv (inv : Inv s) (idle : s.kicking = false) : Inv (compareEvent s) := by
  refine { inv with
    old := inv.availIdx, checkedLe := Nat.le_refl _, batch := ?_, attended := ?_ }
  · simp [compareEvent]
  · intro reading
    have event := inv.event (Or.inl reading)
    rcases inv.attended reading with counted | kicking | seen | early
    · exact Or.inl counted
    · simp [idle] at kicking
    · exact Or.inr (Or.inr (Or.inl seen))
    · by_cases seen : s.popped = s.published
      · exact Or.inr (Or.inr (Or.inl seen))
      · have popped := inv.poppedLe
        have wanted := need_event_counts s.popped s.published s.checked early (by omega) inv.batch
        refine Or.inr (Or.inl ?_)
        simp only [compareEvent]
        rw [event, inv.lastAvail, inv.availIdx, inv.old]
        exact wanted

theorem notify_inv (inv : Inv s) : Inv (notifyVq s) :=
  { inv with attended := fun _ => Or.inl (Nat.succ_pos s.counter) }

theorem wake_inv (inv : Inv s) : Inv { s with counter := 0, thread := .storing } :=
  { inv with event := by simp, pending := by simp, attended := by simp }

theorem store_inv (inv : Inv s) :
    Inv { s with ring := virtQueueAvailableStore s.ring s.vq, thread := .loading } := by
  refine { inv with availIdx := ?_, event := ?_, pending := by simp, attended := by simp }
  · simpa using inv.availIdx
  · intro _
    simp [virtQueueAvailableStore, inv.mapped, inv.mode]

-- The thread only goes back to sleep when the index it loads is its own.
theorem load_inv (inv : Inv s) (loading : s.thread = .loading) :
    Inv { s with
      thread := if virtQueueAvailableLoad s.ring s.vq then .popping else .reading } := by
  have event := inv.event (Or.inr loading)
  have popped := inv.poppedLe
  have room := inv.room
  have load := available_load_iff s.ring s.vq inv.mapped
  rw [inv.availIdx, inv.lastAvail, counters_differ _ _ popped (by omega)] at load
  refine { inv with event := fun _ => event, pending := ?_, attended := ?_ }
  · intro popping
    by_cases available : virtQueueAvailableLoad s.ring s.vq = true
    · exact load.mp available
    · simp [available] at popping
  · intro reading
    by_cases available : virtQueueAvailableLoad s.ring s.vq = true
    · simp [available] at reading
    · refine Or.inr (Or.inr (Or.inl ?_))
      have none := mt load.mpr available
      show s.popped = s.published
      omega

theorem pop_inv (inv : Inv s) (popping : s.thread = .popping) : Inv (popNext s) := by
  have pending := inv.pending popping
  have room := inv.room
  refine { inv with
    lastAvail := ?_, poppedLe := ?_, room := ?_, event := ?_, pending := ?_, attended := ?_ }
  · simp [popNext, virtQueuePop, inv.lastAvail, UInt16.ofNat_add]
  · exact pending
  · simp only [popNext]
    omega
  · simp [popNext]
  · simp [popNext]
  · simp [popNext]

theorem finish_inv (inv : Inv s) : Inv { s with thread := .storing } :=
  { inv with event := by simp, pending := by simp, attended := by simp }

theorem step_inv (action : Action) (next : State) (inv : Inv s)
    (taken : step s action = some next) : Inv next := by
  cases action with
  | publish count =>
      rcases Option.ite_none_right_eq_some.mp taken with ⟨⟨idle, room, batch⟩, same⟩
      cases same
      exact publish_inv inv count idle room batch
  | compare =>
      rcases Option.ite_none_right_eq_some.mp taken with ⟨idle, same⟩
      cases same
      exact compare_inv inv idle
  | notify =>
      rcases Option.ite_none_right_eq_some.mp taken with ⟨_, same⟩
      cases same
      exact notify_inv inv
  | wake =>
      rcases Option.ite_none_right_eq_some.mp taken with ⟨_, same⟩
      cases same
      exact wake_inv inv
  | store =>
      rcases Option.ite_none_right_eq_some.mp taken with ⟨_, same⟩
      cases same
      exact store_inv inv
  | load =>
      rcases Option.ite_none_right_eq_some.mp taken with ⟨loading, same⟩
      cases same
      exact load_inv inv loading
  | pop =>
      rcases Option.ite_none_right_eq_some.mp taken with ⟨popping, same⟩
      cases same
      exact pop_inv inv popping
  | finish =>
      rcases Option.ite_none_right_eq_some.mp taken with ⟨_, same⟩
      cases same
      exact finish_inv inv

end Preservation

theorem run_inv (zeroed : ZeroedQueue) {actions : List Action} {final : State}
    (ran : run step (start zeroed) actions = some final) : Inv final :=
  run_invariant _ (fun _ action next inv taken => step_inv action next inv taken)
    (start_inv zeroed) ran

/-- The I/O thread is blocked and the driver has nothing left to do: it has
compared everything it published and owes no notification. -/
def Quiescent (s : State) : Prop :=
  s.thread = .reading ∧ s.counter = 0 ∧ s.kicking = false ∧ s.checked = s.published

theorem kick_not_lost (zeroed : ZeroedQueue) (actions : List Action) (final : State)
    (ran : run step (start zeroed) actions = some final) (quiescent : Quiescent final) :
    final.ring.avail.idx = final.vq.lastAvailIdx ∧ final.popped = final.published := by
  have inv := run_inv zeroed ran
  rcases quiescent with ⟨reading, empty, idle, compared⟩
  have popped := inv.poppedLe
  have all : final.popped = final.published := by
    rcases inv.attended reading with counted | kicking | seen | early
    · omega
    · simp [idle] at kicking
    · exact seen
    · omega
  exact ⟨by rw [inv.availIdx, inv.lastAvail, all], all⟩

def zeroedQueue : ZeroedQueue where
  toFreshQueue := blankQueue 256
  mode := rfl
  availEvent := rfl

def lateKick : List Action :=
  [.publish 2, .compare, .notify, .wake, .store, .load, .pop, .finish, .publish 1, .store,
    .load, .pop, .finish, .compare, .store, .load, .pop, .finish, .store, .load]

set_option maxRecDepth 4000 in
theorem kick_not_lost_late : ∃ final,
    run step (start zeroedQueue) lateKick = some final ∧ Quiescent final ∧
      final.ring.avail.idx = final.vq.lastAvailIdx ∧ final.popped = final.published :=
  ⟨_, rfl, ⟨rfl, rfl, rfl, rfl⟩,
    kick_not_lost zeroedQueue lateKick _ rfl ⟨rfl, rfl, rfl, rfl⟩⟩

end VirtioDisk.KickHandshake
