import VirtioDisk.MmioRegisters
import VirtioDisk.SplitRing

/-!
The queue size that the driver writes to QUEUE_NUM. set_size_vq drops it and
init_vq installs 256 entries, so a driver that lays out its rings for `n` meets a
device that numbers the slots modulo 256. On the legacy transport the device also
computes the places of the rings from 256.
-/

namespace VirtioDisk.QueueSize

open DescriptorChain GuestMapping MmioRegisters RingWindow SplitRing Virtqueue

/-- The rings as the driver lays them out for `n` entries: on the legacy transport
from the base of the queue, on the modern one at the addresses it wrote. -/
def driverVring (dev : MmioDevice) (n : Nat) : Vring :=
  if dev.vdev.legacy then vringInit n dev.vq.vring.desc dev.vq.vringAddr.align
  else { dev.vq.vring with num := n }

/-- The device finds the rings where the driver has them, and in every exchange over
them, from empty rings, that puts up at most `m` heads, it pops the heads in order
and stores the used elements in the driver's slots. -/
structure HonouredUpTo (m : Nat) (dev : MmioDevice) (n : Nat) : Prop where
  avail : dev.vq.vring.avail = (driverVring dev n).avail
  used : dev.vq.vring.used = (driverVring dev n).used
  exchanged : ∀ fresh : FreshQueue virtioBlkQueueSize, fresh.vq = dev.vq →
    ∀ actions final, Transition.run (SplitRing.step n) (start fresh) actions = some final →
      final.published.length + final.staged.length ≤ m → Fifo n n final

/-- A queue that is not enabled has no rings and starts counting at 0. -/
def Rested (dev : MmioDevice) : Prop :=
  dev.vq.enabled = false → dev.vq.vring.avail = 0 ∧ dev.vq.lastAvailIdx = 0

structure Activated (dev : MmioDevice) : Prop where
  size : dev.vq.vring.num = virtioBlkQueueSize
  mapped : dev.vq.vring.avail ≠ 0
  lastAvailIdx : dev.vq.lastAvailIdx = 0
  legacyRings : dev.vdev.legacy = true →
    dev.vq.vring = vringInit virtioBlkQueueSize dev.vq.vring.desc dev.vq.vringAddr.align

section Registers
variable {dev next : MmioDevice}

theorem cleared_rested (cleared : next.vq = clearedQueue) : Rested next := by
  intro _
  rw [cleared]
  exact ⟨rfl, rfl⟩

theorem exit_clears {num : UInt32} (done : virtioExitVq dev num = .ok next) :
    next.vq = clearedQueue := by
  obtain ⟨_, rfl | rfl⟩ := exit_vq_ok done <;> rfl

theorem status_queue {status : UInt8} (done : virtioNotifyStatus dev status = .ok next) :
    next.vq = dev.vq ∨ next.vq = clearedQueue := by
  obtain ⟨settled, word, rfl, untouched | exited⟩ := notify_status_ok done
  · subst settled
    exact Or.inl rfl
  · have cleared : settled.vq = clearedQueue := exit_clears exited
    exact Or.inr cleared

theorem activate_enables {host : HostAnswers} {val : UInt32}
    (done : perform dev host (.activate val) = .ok next) : next.vq.enabled = true := by
  obtain ⟨_, vring, demu, _, rfl⟩ := init_vq_ok (activate_ok done)
  rw [(start_io_thread_frame _ host).2.2.1]
  rfl

/-- Only an activation touches more of an enabled queue than its addresses, and
only an activation enables it. -/
theorem perform_queue (request : Command) {host : HostAnswers}
    (done : perform dev host request = .ok next) :
    next.vq = clearedQueue ∨ (∃ addr, next.vq = (dev.withAddr addr).vq) ∨
      ∃ val, request = .activate val := by
  cases request with
  | activate val => exact Or.inr (Or.inr ⟨val, rfl⟩)
  | deactivate => exact Or.inl (exit_clears done)
  | status val =>
      rcases status_queue done with same | cleared
      · exact Or.inr (Or.inl ⟨dev.vq.vringAddr, same⟩)
      · exact Or.inl cleared
  | address word val =>
      obtain ⟨_, rfl⟩ := set_selected_word_ok done
      exact Or.inr (Or.inl ⟨_, rfl⟩)
  | driverFeatures val =>
      cases done
      refine Or.inr (Or.inl ⟨dev.vq.vringAddr, ?_⟩)
      by_cases first : dev.hdr.guestFeaturesSel = 0 <;> simp only [first, if_true, if_false] <;> rfl
  | ignored | notify | deviceFeaturesSel | driverFeaturesSel | queueSel | guestPageSize | queueNum
  | interruptAck =>
      cases done
      exact Or.inr (Or.inl ⟨dev.vq.vringAddr, rfl⟩)

theorem step_rested (event : Event) (rested : Rested dev)
    (taken : MmioRegisters.step dev event = .ok next) : Rested next := by
  cases MmioRegisters.step_cases taken with
  | performed w host done =>
      rcases perform_queue _ done with cleared | ⟨addr, same⟩ | ⟨val, activates⟩
      · exact cleared_rested cleared
      · intro disabled
        rw [same] at disabled ⊢
        exact rested disabled
      · rw [activates] at done
        intro disabled
        have contradiction : true = false := (activate_enables done).symm.trans disabled
        cases contradiction
  | rested => exact rested
  | worked _ _ _ _ mapped =>
      intro disabled
      exact absurd (rested disabled).1 mapped

theorem map_rings_size {vq : VirtQueue} {demu after : DemuState} {host : HostAnswers}
    {vring : Vring} (mapped : mapRings vq virtioBlkQueueSize demu host = some (vring, after)) :
    vring.num = virtioBlkQueueSize ∧ vring.avail ≠ 0 ∧
      (vq.vringAddr.legacy = true →
        vring = vringInit virtioBlkQueueSize vring.desc vq.vringAddr.align) := by
  simp only [mapRings] at mapped
  split at mapped
  · simp only [Option.bind_eq_bind, Option.bind_eq_some_iff, Prod.exists] at mapped
    obtain ⟨p, first, ring, stored⟩ := mapped
    obtain ⟨_, same⟩ := Option.ite_none_left_eq_some.mp stored
    cases same
    have below := mapped_below ring
    refine ⟨rfl, ?_, fun _ => rfl⟩
    intro null
    have place : p + 16 * UInt64.ofNat virtioBlkQueueSize = 0 := null
    have table : (16 * UInt64.ofNat virtioBlkQueueSize).toNat = 4096 := by decide
    have value := congrArg UInt64.toNat place
    rw [UInt64.toNat_add, table, UInt64.toNat_zero] at value
    omega
  · rename_i modern
    simp only [Option.bind_eq_bind, Option.bind_eq_some_iff, Prod.exists] at mapped
    obtain ⟨desc, first, _, used, second, _, avail, third, _, stored⟩ := mapped
    obtain ⟨valid, same⟩ := Option.ite_none_left_eq_some.mp stored
    cases same
    simp only [not_or] at valid
    exact ⟨rfl, valid.2.2, fun legacy => absurd legacy modern⟩

theorem activated_queue {host : HostAnswers} {val : UInt32} (rested : Rested dev)
    (disabled : dev.vq.enabled = false)
    (done : perform dev host (.activate val) = .ok next) : Activated next := by
  obtain ⟨_, vring, demu, mapped, rfl⟩ := init_vq_ok (activate_ok done)
  obtain ⟨size, avail, legacyRings⟩ := map_rings_size mapped
  obtain ⟨_, vdev, vq, _⟩ := start_io_thread_frame _ host
  constructor
  · rw [vq]
    exact size
  · rw [vq]
    exact avail
  · rw [vq]
    exact (rested disabled).2
  · rw [vq, vdev]
    intro legacy
    apply legacyRings
    have transport : dev.vdev.legacy = true := legacy
    simp [enabledQueue, MmioDevice.withAddr, activationAddr, transport]

end Registers

theorem run_activated (legacy readonly : Bool) (useGnttab : Option Bool) (events : List Event)
    (event : Event) {before after : MmioDevice}
    (ran : events.foldlM MmioRegisters.step (created legacy readonly useGnttab) = .ok before)
    (disabled : before.vq.enabled = false)
    (taken : MmioRegisters.step before event = .ok after) (enabled : after.vq.enabled = true) :
    Activated after := by
  have rested : Rested before :=
    Transition.fold_invariant Rested (fun _ event _ rested taken => step_rested event rested taken)
      (cleared_rested rfl) ran
  cases MmioRegisters.step_cases taken with
  | performed w host done =>
      rcases perform_queue _ done with cleared | ⟨addr, same⟩ | ⟨val, activates⟩
      · rw [cleared] at enabled
        cases enabled
      · rw [same] at enabled
        exact absurd (disabled.symm.trans enabled) Bool.false_ne_true
      · rw [activates] at done
        exact activated_queue rested disabled done
  | rested => exact absurd (disabled.symm.trans enabled) Bool.false_ne_true
  | worked => exact absurd (disabled.symm.trans enabled) Bool.false_ne_true

/-- The rings of the activated queue, with whatever the driver cleared in them. -/
def freshQueue {dev : MmioDevice} (activated : Activated dev) (ring : RingMemory)
    (availIdx : ring.avail.idx = 0) (usedIdx : ring.used.idx = 0) :
    FreshQueue virtioBlkQueueSize where
  ring := ring
  vq := dev.vq
  size := activated.size
  mapped := activated.mapped
  availIdx := availIdx
  usedIdx := usedIdx
  lastAvailIdx := activated.lastAvailIdx

section Slots
variable {n : Nat}

/-- As long as the two numberings of the slots agree, the exchange is in order. -/
theorem agreeing_fifo (divides : n ∣ virtioBlkQueueSize) (fresh : FreshQueue virtioBlkQueueSize)
    {actions : List Action} {final : State}
    (ran : Transition.run (SplitRing.step n) (start fresh) actions = some final)
    (agree : SlotsAgree virtioBlkQueueSize n final) : Fifo n n final := by
  have narrow : n ≤ virtioBlkQueueSize := Nat.le_of_dvd (by decide) divides
  have inv := run_inv (by decide) (Nat.dvd_trans divides (by decide)) narrow fresh ran agree
  have fifo := inv.fifo (Nat.le_trans narrow (by decide))
  have popped := inv.popped_le
  have account := inv.account
  refine { fifo with used_intact := ?_ }
  intro k completed waiting
  rw [agree k (by omega)]
  exact fifo.used_intact k completed waiting

theorem short_agrees (narrow : n ≤ virtioBlkQueueSize) {s : State}
    (short : s.published.length + s.staged.length ≤ n) : SlotsAgree virtioBlkQueueSize n s := by
  intro k used
  rw [Nat.mod_eq_of_lt (Nat.lt_of_lt_of_le used short),
    Nat.mod_eq_of_lt (Nat.lt_of_lt_of_le used (Nat.le_trans short narrow))]

/-! A driver with a shorter queue comes back to its slot 0 after `n` heads, the
device goes on to slot `n`. -/

/-- After `k` heads, all of them 0, that were taken and given back one by one. -/
structure Exchanged (k : Nat) (s : State) : Prop where
  size : s.vq.vring.num = virtioBlkQueueSize
  mapped : s.vq.vring.avail ≠ 0
  cells : ∀ i, s.ring.avail.ring i = 0
  availIdx : s.ring.avail.idx = UInt16.ofNat k
  usedIdx : s.ring.used.idx = UInt16.ofNat k
  lastAvailIdx : s.vq.lastAvailIdx = UInt16.ofNat k
  lastUsedIdx : s.lastUsedIdx = UInt16.ofNat k
  published : s.published = List.replicate k 0
  popped : s.popped = List.replicate k 0
  consumed : s.consumed.length = k
  staged : s.staged = []
  inFlight : s.inFlight = []
  filling : s.filling = none

def offer (head : UInt16) : List Action := [.place head, .publish, .check, .pop]

def giveBack : List Action := [.fill 0 0, .advance, .consume]

def offered (n : Nat) (s : State) (head : UInt16) : State :=
  popHead (checkAvailable (publishStaged (placeHead n s head)))

def givenBack (n : Nat) (s : State) : State :=
  consumeUsed n (advanceUsed (fillUsed s 0 0) ⟨0, 0⟩)

theorem next_index (k : Nat) : UInt16.ofNat k + 1 ≠ UInt16.ofNat k := by
  grind

theorem offer_runs {k : Nat} {s : State} (settled : Exchanged k s) (room : 0 < n)
    (head : UInt16) :
    Transition.run (SplitRing.step n) s (offer head) = some (offered n s head) := by
  have space : s.published.length + s.staged.length < s.consumed.length + n := by
    simp [settled.published, settled.staged, settled.consumed, room]
  have index : (publishStaged (placeHead n s head)).ring.avail.idx = UInt16.ofNat k + 1 := by
    simp [publishStaged, placeHead, settled.staged, settled.availIdx]
  have available :
      virtQueueAvailableLoad
        (virtQueueAvailableStore (publishStaged (placeHead n s head)).ring s.vq) s.vq = true := by
    rw [available_load_iff _ _ settled.mapped, available_store_avail, index, settled.lastAvailIdx]
    exact next_index k
  have ready : (checkAvailable (publishStaged (placeHead n s head))).ready = true := available
  simp only [offer, Transition.run, SplitRing.step, space, ready, if_true, offered]

/-- The device takes what it finds in slot `k`, whatever the driver put up. -/
theorem offered_lists {k : Nat} {s : State} (settled : Exchanged k s) (head : UInt16) :
    (offered n s head).published = List.replicate k 0 ++ [head] ∧
      (offered n s head).popped = List.replicate k 0 ++
        [put s.ring.avail.ring ((UInt16.ofNat k).toNat % n) head
          ((UInt16.ofNat k).toNat % virtioBlkQueueSize)] := by
  constructor
  · simp [offered, popHead, checkAvailable, publishStaged, placeHead, settled.staged,
      settled.published]
  · simp [offered, popHead, checkAvailable, publishStaged, placeHead, settled.staged,
      settled.popped, virtQueuePop, virtQueueAvailable, settled.size, settled.lastAvailIdx,
      settled.availIdx]

-- A head of 0 leaves every cell of the avail ring at 0.
theorem zero_cells {k : Nat} {s : State} (settled : Exchanged k s) (slot i : Nat) :
    put s.ring.avail.ring slot 0 i = 0 := by
  by_cases same : i = slot
  · rw [same, put_same]
  · rw [put_other _ _ _ _ same]
    exact settled.cells i

theorem offered_rest {k : Nat} {s : State} (settled : Exchanged k s) :
    (offered n s 0).inFlight = [0] ∧ (offered n s 0).filling = none ∧
      (offered n s 0).ring.used.idx = UInt16.ofNat k ∧
      (offered n s 0).lastUsedIdx = UInt16.ofNat k := by
  refine ⟨?_, settled.filling, ?_, settled.lastUsedIdx⟩
  · simp [offered, popHead, checkAvailable, publishStaged, placeHead, settled.inFlight,
      virtQueuePop, virtQueueAvailable, zero_cells settled]
  · simp [offered, popHead, checkAvailable, publishStaged, placeHead, settled.usedIdx,
      virtQueueAvailable]

theorem give_back_runs {k : Nat} {s : State} (settled : Exchanged k s) :
    Transition.run (SplitRing.step n) (offered n s 0) giveBack =
      some (givenBack n (offered n s 0)) := by
  obtain ⟨inFlight, filling, usedIdx, lastUsedIdx⟩ := offered_rest (n := n) settled
  have owed : (offered n s 0).filling = none ∧ (0 : UInt16) ∈ (offered n s 0).inFlight := by
    simp [inFlight, filling]
  have filled : (fillUsed (offered n s 0) 0 0).filling = some ⟨0, 0⟩ := rfl
  have pending : (advanceUsed (fillUsed (offered n s 0) 0 0) ⟨0, 0⟩).ring.used.idx ≠
      (advanceUsed (fillUsed (offered n s 0) 0 0) ⟨0, 0⟩).lastUsedIdx := by
    show (offered n s 0).ring.used.idx + 1 ≠ (offered n s 0).lastUsedIdx
    rw [usedIdx, lastUsedIdx]
    exact next_index k
  simp only [giveBack, Transition.run, SplitRing.step, owed, and_self, filled, if_true, pending,
    ne_eq, not_false_eq_true, givenBack]

theorem offered_avail (s : State) (head : UInt16) :
    (offered n s head).ring.avail = (publishStaged (placeHead n s head)).ring.avail :=
  available_store_avail _ _

theorem exchange_settled {k : Nat} {s : State} (settled : Exchanged k s) :
    Exchanged (k + 1) (givenBack n (offered n s 0)) := by
  obtain ⟨inFlight, _, usedIdx, lastUsedIdx⟩ := offered_rest (n := n) settled
  obtain ⟨published, popped⟩ := offered_lists (n := n) settled 0
  constructor
  · exact settled.size
  · exact settled.mapped
  · intro i
    show (offered n s 0).ring.avail.ring i = 0
    rw [offered_avail]
    exact zero_cells settled _ i
  · show (offered n s 0).ring.avail.idx = _
    simp [offered_avail, publishStaged, placeHead, settled.staged, settled.availIdx,
      UInt16.ofNat_add]
  · show (offered n s 0).ring.used.idx + 1 = _
    rw [usedIdx, UInt16.ofNat_add]
    rfl
  · show s.vq.lastAvailIdx + 1 = _
    rw [settled.lastAvailIdx, UInt16.ofNat_add]
    rfl
  · show (offered n s 0).lastUsedIdx + 1 = _
    rw [lastUsedIdx, UInt16.ofNat_add]
    rfl
  · exact published.trans List.replicate_succ'.symm
  · rw [zero_cells settled] at popped
    exact popped.trans List.replicate_succ'.symm
  · show (s.consumed ++ [_]).length = _
    simp [settled.consumed]
  · rfl
  · show (offered n s 0).inFlight.erase 0 = []
    rw [inFlight]
    rfl
  · rfl

theorem exchanges_run {s : State} (settled : Exchanged 0 s) (room : 0 < n) (k : Nat) :
    ∃ actions t, Transition.run (SplitRing.step n) s actions = some t ∧ Exchanged k t := by
  induction k with
  | zero => exact ⟨[], s, rfl, settled⟩
  | succ k ih =>
      obtain ⟨actions, t, ran, reached⟩ := ih
      refine ⟨actions ++ (offer 0 ++ giveBack), givenBack n (offered n t 0), ?_,
        exchange_settled reached⟩
      rw [Transition.run_append, ran, Option.bind_some, Transition.run_append,
        offer_runs reached room 0, Option.bind_some]
      exact give_back_runs reached

/-- The head put up after `n` others is lost: the device takes the content of slot `n`. -/
theorem overrun_breaks {s : State} (settled : Exchanged 0 s) (room : 0 < n)
    (short : n < virtioBlkQueueSize) :
    ∃ actions t, Transition.run (SplitRing.step n) s actions = some t ∧
      t.published.length + t.staged.length = n + 1 ∧ ¬ Fifo n n t := by
  obtain ⟨actions, t, ran, reached⟩ := exchanges_run settled room n
  obtain ⟨published, popped⟩ := offered_lists (n := n) reached 1
  have wide : (UInt16.ofNat n).toNat = n := by
    have narrow : n < 65536 := Nat.lt_trans short (by decide)
    simpa using narrow
  refine ⟨actions ++ offer 1, offered n t 1, ?_, ?_, ?_⟩
  · rw [Transition.run_append, ran, Option.bind_some]
    exact offer_runs reached room 1
  · have staged : (offered n t 1).staged = [] := rfl
    simp [published, staged]
  · intro fifo
    have missed : put t.ring.avail.ring (n % n) 1 (n % virtioBlkQueueSize) = 0 := by
      rw [Nat.mod_self, Nat.mod_eq_of_lt short, put_other _ _ _ _ (Nat.pos_iff_ne_zero.mp room)]
      exact reached.cells n
    rw [wide, missed] at popped
    have taken := fifo.popped_prefix
    rw [popped, published, List.prefix_append_right_inj] at taken
    simp at taken

end Slots

/-- The blank rings of a queue just activated. -/
theorem blank_exchanged {dev : MmioDevice} (activated : Activated dev) :
    Exchanged 0 (start (freshQueue activated blankRing rfl rfl)) where
  size := activated.size
  mapped := activated.mapped
  cells := fun _ => rfl
  availIdx := rfl
  usedIdx := rfl
  lastAvailIdx := activated.lastAvailIdx
  lastUsedIdx := rfl
  published := rfl
  popped := rfl
  consumed := rfl
  staged := rfl
  inFlight := rfl
  filling := rfl

theorem modern_vring {dev : MmioDevice} (modern : dev.vdev.legacy = false) (n : Nat) :
    driverVring dev n = { dev.vq.vring with num := n } := by
  simp [driverVring, modern]

theorem legacy_vring {dev : MmioDevice} (legacy : dev.vdev.legacy = true) (n : Nat) :
    driverVring dev n = vringInit n dev.vq.vring.desc dev.vq.vringAddr.align := by
  simp [driverVring, legacy]

-- The avail ring of a legacy queue lies right behind its descriptor table.
theorem legacy_avail_apart (base : UInt64) (align : UInt32) {n : Nat}
    (short : n < virtioBlkQueueSize) :
    (vringInit virtioBlkQueueSize base align).avail ≠ (vringInit n base align).avail := by
  intro same
  have tables : 16 * UInt64.ofNat virtioBlkQueueSize = 16 * UInt64.ofNat n :=
    UInt64.add_right_inj base |>.mp same
  have values := congrArg UInt64.toNat tables
  simp only [virtioBlkQueueSize] at short
  simp [virtioBlkQueueSize] at values
  omega

theorem honoured_iff {dev : MmioDevice} (activated : Activated dev) {n : Nat}
    (divides : n ∣ virtioBlkQueueSize) (m : Nat) :
    HonouredUpTo m dev n ↔ n = virtioBlkQueueSize ∨ dev.vdev.legacy = false ∧ m ≤ n := by
  have narrow : n ≤ virtioBlkQueueSize := Nat.le_of_dvd (by decide) divides
  have positive : 0 < n := Nat.pos_of_dvd_of_pos divides (by decide)
  constructor
  · intro honoured
    by_contra refused
    simp only [not_or, not_and] at refused
    obtain ⟨different, long⟩ := refused
    have short : n < virtioBlkQueueSize := Nat.lt_of_le_of_ne narrow different
    cases transport : dev.vdev.legacy with
    | true =>
        have located := honoured.avail
        rw [legacy_vring transport, activated.legacyRings transport] at located
        exact legacy_avail_apart _ _ short located
    | false =>
        obtain ⟨actions, final, ran, count, broken⟩ :=
          overrun_breaks (blank_exchanged activated) positive short
        have fits : final.published.length + final.staged.length ≤ m := by
          have beyond := long transport
          omega
        exact broken (honoured.exchanged _ rfl actions final ran fits)
  · rintro (rfl | ⟨modern, short⟩)
    · constructor
      · cases transport : dev.vdev.legacy with
        | true => rw [legacy_vring transport, ← activated.legacyRings transport]
        | false => rw [modern_vring transport]
      · cases transport : dev.vdev.legacy with
        | true => rw [legacy_vring transport, ← activated.legacyRings transport]
        | false => rw [modern_vring transport]
      · intro fresh _ actions final ran _
        exact agreeing_fifo divides fresh ran (fun _ _ => rfl)
    · constructor
      · rw [modern_vring modern]
      · rw [modern_vring modern]
      · intro fresh _ actions final ran count
        exact agreeing_fifo divides fresh ran (short_agrees narrow (Nat.le_trans count short))

/-- The size `n` last written to QUEUE_NUM is honoured for as many as `m` heads
exactly if it is the size the device uses, or `n` heads are enough. -/
theorem queue_size_honoured_iff (legacy readonly : Bool) (useGnttab : Option Bool)
    (events : List Event) (event : Event) (before after : MmioDevice) (m : Nat)
    (ran : events.foldlM MmioRegisters.step (created legacy readonly useGnttab) = .ok before)
    (disabled : before.vq.enabled = false)
    (taken : MmioRegisters.step before event = .ok after) (enabled : after.vq.enabled = true)
    (size : before.hdr.queueNum.toNat ∣ getSizeVq before 0) :
    HonouredUpTo m after before.hdr.queueNum.toNat ↔
      before.hdr.queueNum.toNat = virtioBlkQueueSize ∨
        after.vdev.legacy = false ∧ m ≤ before.hdr.queueNum.toNat :=
  honoured_iff (run_activated legacy readonly useGnttab events event ran disabled taken enabled)
    size m

def asking (size : UInt32) : List Event := [.write (wordTo .queueNum size) willingHost]

def enabling : Event := .write (wordTo .queueReady 1) willingHost

theorem full_queue_honoured : ∃ before after,
    (asking 256).foldlM MmioRegisters.step (created false false none) = .ok before ∧
      MmioRegisters.step before enabling = .ok after ∧ HonouredUpTo 100000 after 256 :=
  ⟨_, _, rfl, rfl, (queue_size_honoured_iff false false none (asking 256) enabling _ _ 100000
    rfl rfl rfl rfl (by decide)).mpr (Or.inl rfl)⟩

/-- A driver that asks for a queue of one entry gets its first head through, not its second. -/
theorem single_entry_not_honoured : ∃ before after,
    (asking 1).foldlM MmioRegisters.step (created false false none) = .ok before ∧
      MmioRegisters.step before enabling = .ok after ∧ before.hdr.queueNum = 1 ∧
      after.vq.enabled = true ∧ ¬ HonouredUpTo 2 after 1 := by
  refine ⟨_, _, rfl, rfl, rfl, rfl, ?_⟩
  have activated := run_activated false false none (asking 1) enabling rfl rfl rfl rfl
  rw [honoured_iff activated (by decide) 2]
  decide

end VirtioDisk.QueueSize
