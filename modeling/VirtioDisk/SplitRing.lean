import VirtioDisk.Transition
import VirtioDisk.Virtqueue

/-!
One driver and one device on a split virtqueue, step by step. The driver writes
a head into the avail ring before it publishes it, and the device writes a used
element before it advances the used index, so each of the two is two steps that
the other side may come between. The driver numbers its slots modulo `drvNum`,
the device modulo `vring.num`; they are the same number when the negotiated
size is the one the device uses. The histories are ghost state: no step reads
them, except that the driver knows how many heads it has outstanding.
-/

namespace VirtioDisk.SplitRing

open Transition RingWindow Virtqueue

structure State where
  ring : RingMemory
  vq : VirtQueue
  lastUsedIdx : UInt16
  ready : Bool
  inFlight : List UInt16
  filling : Option VringUsedElem
  published : List UInt16
  staged : List UInt16
  popped : List UInt16
  completed : List VringUsedElem
  consumed : List VringUsedElem

inductive Action where
  | place (head : UInt16)
  | publish
  | arm (usedEvent : UInt16)
  | consume
  | check
  | pop
  | fill (head : UInt16) (len : UInt32)
  | advance

def placeHead (drvNum : Nat) (s : State) (head : UInt16) : State :=
  let idx := s.ring.avail.idx + UInt16.ofNat s.staged.length
  { s with
    ring := { s.ring with avail :=
      { s.ring.avail with ring := put s.ring.avail.ring (idx.toNat % drvNum) head } }
    staged := s.staged ++ [head] }

def publishStaged (s : State) : State :=
  { s with
    ring := { s.ring with avail :=
      { s.ring.avail with idx := s.ring.avail.idx + UInt16.ofNat s.staged.length } }
    published := s.published ++ s.staged
    staged := [] }

def armUsedEvent (drvNum : Nat) (s : State) (event : UInt16) : State :=
  { s with ring := { s.ring with avail :=
      { s.ring.avail with ring := put s.ring.avail.ring drvNum event } } }

def consumeUsed (drvNum : Nat) (s : State) : State :=
  { s with
    lastUsedIdx := s.lastUsedIdx + 1
    consumed := s.consumed ++ [s.ring.used.ring (s.lastUsedIdx.toNat % drvNum)] }

def checkAvailable (s : State) : State :=
  let checked := virtQueueAvailable s.ring s.vq
  { s with ring := checked.2, ready := checked.1 }

def popHead (s : State) : State :=
  let taken := virtQueuePop s.ring s.vq
  { s with
    vq := taken.2
    ready := false
    inFlight := s.inFlight ++ [taken.1]
    popped := s.popped ++ [taken.1] }

def fillUsed (s : State) (head : UInt16) (len : UInt32) : State :=
  { s with
    ring := virtQueueSetUsedElemNoUpdate s.ring s.vq head.toUInt32 len 0
    inFlight := s.inFlight.erase head
    filling := some ⟨head.toUInt32, len⟩ }

def advanceUsed (s : State) (elem : VringUsedElem) : State :=
  { s with
    ring := virtQueueUsedIdxAdvance s.ring 1
    filling := none
    completed := s.completed ++ [elem] }

/-- The mutex of the device allows one element to be filled at a time. -/
def step (drvNum : Nat) (s : State) : Action → Option State
  | .place head =>
      if s.published.length + s.staged.length < s.consumed.length + drvNum then
        some (placeHead drvNum s head)
      else none
  | .publish => some (publishStaged s)
  | .arm event => some (armUsedEvent drvNum s event)
  | .consume =>
      if s.ring.used.idx ≠ s.lastUsedIdx then some (consumeUsed drvNum s) else none
  | .check => some (checkAvailable s)
  | .pop => if s.ready then some (popHead s) else none
  | .fill head len =>
      if s.filling = none ∧ head ∈ s.inFlight then some (fillUsed s head len) else none
  | .advance => match s.filling with
      | none => none
      | some elem => some (advanceUsed s elem)

/-- What a step that was taken has done, with what allowed it. -/
inductive Stepped (drvNum : Nat) (s : State) : Action → State → Prop where
  | place (head) : s.published.length + s.staged.length < s.consumed.length + drvNum →
      Stepped drvNum s (.place head) (placeHead drvNum s head)
  | publish : Stepped drvNum s .publish (publishStaged s)
  | arm (event) : Stepped drvNum s (.arm event) (armUsedEvent drvNum s event)
  | consume : s.ring.used.idx ≠ s.lastUsedIdx → Stepped drvNum s .consume (consumeUsed drvNum s)
  | check : Stepped drvNum s .check (checkAvailable s)
  | pop : s.ready = true → Stepped drvNum s .pop (popHead s)
  | fill (head len) : s.filling = none → head ∈ s.inFlight →
      Stepped drvNum s (.fill head len) (fillUsed s head len)
  | advance (elem) : s.filling = some elem → Stepped drvNum s .advance (advanceUsed s elem)

theorem step_cases {drvNum : Nat} {s next : State} {action : Action}
    (taken : step drvNum s action = some next) : Stepped drvNum s action next := by
  cases action with
  | place head =>
      obtain ⟨room, same⟩ := Option.ite_none_right_eq_some.mp taken
      cases same
      exact Stepped.place head room
  | publish =>
      cases taken
      exact Stepped.publish
  | arm event =>
      cases taken
      exact Stepped.arm event
  | consume =>
      obtain ⟨pending, same⟩ := Option.ite_none_right_eq_some.mp taken
      cases same
      exact Stepped.consume pending
  | check =>
      cases taken
      exact Stepped.check
  | pop =>
      obtain ⟨ready, same⟩ := Option.ite_none_right_eq_some.mp taken
      cases same
      exact Stepped.pop ready
  | fill head len =>
      obtain ⟨⟨idle, member⟩, same⟩ := Option.ite_none_right_eq_some.mp taken
      cases same
      exact Stepped.fill head len idle member
  | advance =>
      cases filled : s.filling with
      | none => simp [step, filled] at taken
      | some elem =>
          simp only [step, filled, Option.some.injEq] at taken
          subst next
          exact Stepped.advance elem filled

/-- A queue as its activation leaves it, with the indices of both rings at 0. -/
structure FreshQueue (num : Nat) where
  ring : RingMemory
  vq : VirtQueue
  size : vq.vring.num = num
  mapped : vq.vring.avail ≠ 0
  availIdx : ring.avail.idx = 0
  usedIdx : ring.used.idx = 0
  lastAvailIdx : vq.lastAvailIdx = 0

def start {num : Nat} (fresh : FreshQueue num) : State where
  ring := fresh.ring
  vq := fresh.vq
  lastUsedIdx := 0
  ready := false
  inFlight := []
  filling := none
  published := []
  staged := []
  popped := []
  completed := []
  consumed := []

structure Inv (num drvNum : Nat) (s : State) : Prop where
  size : s.vq.vring.num = num
  mapped : s.vq.vring.avail ≠ 0
  availIdx : s.ring.avail.idx = UInt16.ofNat s.published.length
  lastAvail : s.vq.lastAvailIdx = UInt16.ofNat s.popped.length
  usedIdx : s.ring.used.idx = UInt16.ofNat s.completed.length
  lastUsed : s.lastUsedIdx = UInt16.ofNat s.consumed.length
  waiting : ∃ heads, s.published = s.popped ++ heads ∧
    Window (· % drvNum) s.ring.avail.ring s.popped.length (heads ++ s.staged)
  returned : ∃ elems, s.completed = s.consumed ++ elems ∧
    Window (· % num) s.ring.used.ring s.consumed.length (elems ++ s.filling.toList)
  outstanding : s.published.length + s.staged.length ≤ s.consumed.length + drvNum
  account : s.completed.length + s.filling.toList.length + s.inFlight.length = s.popped.length
  observed : s.ready = true → s.popped.length < s.published.length

/-- The two numberings of the slots agree on every index that was used so far. -/
def SlotsAgree (num drvNum : Nat) (s : State) : Prop :=
  ∀ k < s.published.length + s.staged.length, k % drvNum = k % num

theorem wrapped_slot (num k : Nat) (divides : num ∣ 65536) :
    (UInt16.ofNat k).toNat % num = k % num := by
  rw [UInt16.toNat_ofNat']
  exact Nat.mod_mod_of_dvd k divides

theorem counters_differ (low high : Nat) (ordered : low ≤ high) (near : high - low < 65536) :
    UInt16.ofNat high ≠ UInt16.ofNat low ↔ low < high := by
  constructor
  · intro different
    by_contra equal
    have same : high = low := by omega
    exact different (by rw [same])
  · intro strict same
    have values := congrArg UInt16.toNat same
    rw [UInt16.toNat_ofNat', UInt16.toNat_ofNat'] at values
    omega

theorem start_inv {num drvNum : Nat} (fresh : FreshQueue num) :
    Inv num drvNum (start fresh) where
  size := fresh.size
  mapped := fresh.mapped
  availIdx := fresh.availIdx
  lastAvail := fresh.lastAvailIdx
  usedIdx := fresh.usedIdx
  lastUsed := rfl
  waiting := ⟨[], rfl, window_nil _ _ _⟩
  returned := ⟨[], rfl, window_nil _ _ _⟩
  outstanding := by simp [start]
  account := rfl
  observed := by simp [start]

theorem Inv.popped_le {num drvNum : Nat} {s : State} (inv : Inv num drvNum s) :
    s.popped.length ≤ s.published.length := by
  obtain ⟨heads, split, _⟩ := inv.waiting
  simp [split]

theorem Inv.consumed_le {num drvNum : Nat} {s : State} (inv : Inv num drvNum s) :
    s.consumed.length ≤ s.completed.length := by
  obtain ⟨elems, split, _⟩ := inv.returned
  simp [split]

section Preservation
variable {num drvNum : Nat} {s : State}

theorem place_inv (inv : Inv num drvNum s) (divides : drvNum ∣ 65536) (head : UInt16)
    (room : s.published.length + s.staged.length < s.consumed.length + drvNum) :
    Inv num drvNum (placeHead drvNum s head) := by
  obtain ⟨heads, split, window⟩ := inv.waiting
  have extent : s.popped.length + (heads ++ s.staged).length =
      s.published.length + s.staged.length := by simp [split]; omega
  have bounded : (heads ++ s.staged).length < drvNum := by
    have account := inv.account
    have returned := inv.consumed_le
    omega
  have cell : (s.ring.avail.idx + UInt16.ofNat s.staged.length).toNat % drvNum =
      (s.popped.length + (heads ++ s.staged).length) % drvNum := by
    rw [inv.availIdx, ← UInt16.ofNat_add, wrapped_slot _ _ divides, extent]
  refine { inv with waiting := ⟨heads, split, ?_⟩, outstanding := ?_ }
  · have grown := window_push window head
      (fun i inside => mod_slot_free drvNum s.popped.length _ i bounded inside)
    simpa only [placeHead, cell, List.append_assoc] using grown
  · simp only [placeHead, List.length_append, List.length_singleton]
    omega

theorem publish_inv (inv : Inv num drvNum s) : Inv num drvNum (publishStaged s) := by
  obtain ⟨heads, split, window⟩ := inv.waiting
  refine { inv with
    availIdx := ?_, waiting := ⟨heads ++ s.staged, ?_, ?_⟩, outstanding := ?_, observed := ?_ }
  · simp [publishStaged, inv.availIdx, UInt16.ofNat_add]
  · simp [publishStaged, split]
  · simpa [publishStaged] using window
  · simpa [publishStaged] using inv.outstanding
  · intro ready
    have before := inv.observed ready
    simp only [publishStaged, List.length_append]
    omega

-- The event cell lies behind the last slot of the driver.
theorem arm_inv (inv : Inv num drvNum s) (positive : 0 < drvNum) (event : UInt16) :
    Inv num drvNum (armUsedEvent drvNum s event) := by
  obtain ⟨heads, split, window⟩ := inv.waiting
  refine { inv with waiting := ⟨heads, split, ?_⟩ }
  apply window_cells window
  intro i inside
  have slot : (s.popped.length + i) % drvNum < drvNum := Nat.mod_lt _ positive
  exact put_other _ _ _ _ (by omega)

theorem consume_inv (inv : Inv num drvNum s) (divides : drvNum ∣ 65536)
    (agree : SlotsAgree num drvNum s) (pending : s.ring.used.idx ≠ s.lastUsedIdx) :
    Inv num drvNum (consumeUsed drvNum s) := by
  obtain ⟨elems, split, window⟩ := inv.returned
  cases elems with
  | nil =>
      have equal : s.completed.length = s.consumed.length := by simp [split]
      exact absurd (by rw [inv.usedIdx, inv.lastUsed, equal]) pending
  | cons elem rest =>
      have extent : s.completed.length = s.consumed.length + (rest.length + 1) := by
        simp [split]
      have counted : s.consumed.length < s.published.length + s.staged.length := by
        have account := inv.account
        have popped := inv.popped_le
        omega
      have cell : s.ring.used.ring (s.lastUsedIdx.toNat % drvNum) = elem := by
        rw [inv.lastUsed, wrapped_slot _ _ divides, agree _ counted]
        exact window_head (· % num) window
      refine { inv with
        lastUsed := ?_, returned := ⟨rest, ?_, ?_⟩, outstanding := ?_ }
      · simp [consumeUsed, inv.lastUsed, UInt16.ofNat_add]
      · simp [consumeUsed, cell, split]
      · simpa [consumeUsed] using window_tail window
      · have room := inv.outstanding
        simp only [consumeUsed, List.length_append, List.length_singleton]
        omega

-- The avail event is written behind the last slot of the used ring.
theorem check_inv (inv : Inv num drvNum s) (positive : 0 < num) :
    Inv num drvNum (checkAvailable s) := by
  obtain ⟨heads, split, waiting⟩ := inv.waiting
  obtain ⟨elems, back, window⟩ := inv.returned
  refine { inv with
    availIdx := ?_, usedIdx := ?_, waiting := ⟨heads, split, ?_⟩,
    returned := ⟨elems, back, ?_⟩, observed := ?_ }
  · simpa [checkAvailable, virtQueueAvailable] using inv.availIdx
  · simpa [checkAvailable, virtQueueAvailable] using inv.usedIdx
  · simpa [checkAvailable, virtQueueAvailable] using waiting
  · apply window_cells window
    intro i inside
    apply available_store_used_ring
    rw [inv.size]
    exact Nat.mod_lt _ positive
  · intro ready
    have popped := inv.popped_le
    have different := (available_load_iff _ _ inv.mapped).mp ready
    rw [available_store_avail, inv.availIdx, inv.lastAvail] at different
    show s.popped.length < s.published.length
    by_contra none
    exact different (by rw [show s.published.length = s.popped.length by omega])

theorem pop_inv (inv : Inv num drvNum s) (divides : num ∣ 65536)
    (agree : SlotsAgree num drvNum s) (ready : s.ready = true) :
    Inv num drvNum (popHead s) := by
  have pending := inv.observed ready
  obtain ⟨heads, split, window⟩ := inv.waiting
  cases heads with
  | nil => simp [split] at pending
  | cons head rest =>
      have cell : (virtQueuePop s.ring s.vq).1 = head := by
        simp only [virtQueuePop]
        rw [inv.size, inv.lastAvail, wrapped_slot _ _ divides,
          ← agree _ (by omega)]
        exact window_head (· % drvNum) window
      refine { inv with
        lastAvail := ?_, waiting := ⟨rest, ?_, ?_⟩, account := ?_, observed := ?_ }
      · simp [popHead, virtQueuePop, inv.lastAvail, UInt16.ofNat_add]
      · simp [popHead, cell, split]
      · simpa [popHead] using window_tail window
      · have account := inv.account
        simp only [popHead, List.length_append, List.length_singleton]
        omega
      · simp [popHead]

theorem fill_inv (inv : Inv num drvNum s) (divides : num ∣ 65536) (narrow : drvNum ≤ num)
    (head : UInt16) (len : UInt32) (idle : s.filling = none) (member : head ∈ s.inFlight) :
    Inv num drvNum (fillUsed s head len) := by
  obtain ⟨elems, split, window⟩ := inv.returned
  have owed := List.length_erase_add_one member
  have account := inv.account
  have popped := inv.popped_le
  have room := inv.outstanding
  simp only [idle, Option.toList_none, List.append_nil] at window account
  simp only [List.length_nil, Nat.add_zero] at account
  have extent : s.consumed.length + elems.length = s.completed.length := by simp [split]
  have cell : (s.ring.used.idx + 0).toNat % s.vq.vring.num =
      (s.consumed.length + elems.length) % num := by
    rw [inv.size, inv.usedIdx, UInt16.add_zero, wrapped_slot _ _ divides, extent]
  have grown := window_push window ⟨head.toUInt32, len⟩
    (fun i inside => mod_slot_free num s.consumed.length _ i (by omega) inside)
  refine { inv with returned := ⟨elems, split, ?_⟩, account := ?_ }
  · simpa only [fillUsed, virtQueueSetUsedElemNoUpdate, cell, Option.toList_some] using grown
  · simp only [fillUsed, Option.toList_some, List.length_singleton]
    omega

theorem advance_inv (inv : Inv num drvNum s) (elem : VringUsedElem)
    (filled : s.filling = some elem) : Inv num drvNum (advanceUsed s elem) := by
  obtain ⟨elems, split, window⟩ := inv.returned
  have account := inv.account
  simp only [filled, Option.toList_some] at window account
  refine { inv with
    usedIdx := ?_, returned := ⟨elems ++ [elem], ?_, ?_⟩, account := ?_ }
  · simp [advanceUsed, virtQueueUsedIdxAdvance, inv.usedIdx, UInt16.ofNat_add]
  · simp [advanceUsed, split]
  · simpa [advanceUsed, virtQueueUsedIdxAdvance] using window
  · simpa [advanceUsed] using account

theorem step_inv {action : Action} {next : State} (inv : Inv num drvNum s)
    (divides : num ∣ 65536) (drvDivides : drvNum ∣ 65536) (narrow : drvNum ≤ num)
    (agree : SlotsAgree num drvNum s) (taken : step drvNum s action = some next) :
    Inv num drvNum next := by
  have drvPositive : 0 < drvNum := Nat.pos_of_dvd_of_pos drvDivides (by decide)
  have positive : 0 < num := Nat.lt_of_lt_of_le drvPositive narrow
  cases step_cases taken with
  | place head room => exact place_inv inv drvDivides head room
  | publish => exact publish_inv inv
  | arm event => exact arm_inv inv drvPositive event
  | consume pending => exact consume_inv inv drvDivides agree pending
  | check => exact check_inv inv positive
  | pop ready => exact pop_inv inv divides agree ready
  | fill head len idle member => exact fill_inv inv divides narrow head len idle member
  | advance elem filled => exact advance_inv inv elem filled

theorem step_total {action : Action} {next : State} (taken : step drvNum s action = some next) :
    s.published.length + s.staged.length ≤ next.published.length + next.staged.length := by
  cases step_cases taken with
  | place head => simp [placeHead]
  | publish => simp [publishStaged]
  | arm | consume | check | pop | fill | advance => exact Nat.le_refl _

end Preservation

/-- The slots in use only grow in number, so it is enough that the numberings
agree at the end of the run. -/
theorem run_inv {num drvNum : Nat} (divides : num ∣ 65536) (drvDivides : drvNum ∣ 65536)
    (narrow : drvNum ≤ num) (fresh : FreshQueue num) {actions : List Action} {final : State}
    (ran : run (step drvNum) (start fresh) actions = some final)
    (agree : SlotsAgree num drvNum final) : Inv num drvNum final := by
  refine run_invariant (fun s => SlotsAgree num drvNum s → Inv num drvNum s)
    ?_ (fun _ => start_inv fresh) ran agree
  intro state action next inv taken nextAgree
  have agreeBefore : SlotsAgree num drvNum state := fun k bound =>
    nextAgree k (Nat.lt_of_lt_of_le bound (step_total taken))
  exact step_inv (inv agreeBefore) divides drvDivides narrow agreeBefore taken

/-- What the two parties see of each other. The last two fields say that a slot
keeps its content until the other side has taken it. -/
structure Fifo (num drvNum : Nat) (s : State) : Prop where
  popped_prefix : s.popped <+: s.published
  consumed_prefix : s.consumed <+: s.completed
  available_iff : (virtQueueAvailable s.ring s.vq).1 = true ↔
    s.popped.length < s.published.length
  avail_intact : ∀ k (published : k < s.published.length), s.popped.length ≤ k →
    s.ring.avail.ring (k % drvNum) = s.published[k]
  used_intact : ∀ k (completed : k < s.completed.length), s.consumed.length ≤ k →
    s.ring.used.ring (k % num) = s.completed[k]

theorem window_suffix {α : Type} (slot : Nat → Nat) {cells : Nat → α} {taken rest beyond : List α}
    (window : RingWindow.Window slot cells taken.length (rest ++ beyond)) (k : Nat)
    (inside : k < (taken ++ rest).length) (reached : taken.length ≤ k) :
    cells (slot k) = (taken ++ rest)[k] := by
  have offset : k - taken.length < rest.length := by
    simp only [List.length_append] at inside
    omega
  have cell := window (k - taken.length) (by simp only [List.length_append]; omega)
  have position : taken.length + (k - taken.length) = k := by omega
  rw [position] at cell
  rw [cell, List.getElem_append_right reached, List.getElem_append_left offset]

theorem Inv.fifo {num drvNum : Nat} {s : State} (inv : Inv num drvNum s)
    (below : drvNum ≤ 65535) : Fifo num drvNum s := by
  obtain ⟨heads, split, waiting⟩ := inv.waiting
  obtain ⟨elems, back, returned⟩ := inv.returned
  have account := inv.account
  have room := inv.outstanding
  have consumed := inv.consumed_le
  refine ⟨⟨heads, split.symm⟩, ⟨elems, back.symm⟩, ?_, ?_, ?_⟩
  · simp only [virtQueueAvailable]
    rw [available_load_iff _ _ inv.mapped, available_store_avail, inv.availIdx, inv.lastAvail]
    exact counters_differ _ _ inv.popped_le (by omega)
  · intro k published reached
    simp only [split] at published ⊢
    exact window_suffix (· % drvNum) waiting k published reached
  · intro k completed reached
    simp only [back] at completed ⊢
    exact window_suffix (· % num) returned k completed reached

theorem virtqueue_fifo (fresh : FreshQueue 256) (actions : List Action) (final : State)
    (ran : run (step 256) (start fresh) actions = some final) : Fifo 256 256 final :=
  (run_inv (by decide) (by decide) (Nat.le_refl 256) fresh ran (fun _ _ => rfl)).fifo (by decide)

def blankQueue (num : Nat) : FreshQueue num where
  ring := blankRing
  vq := activatedQueue num
  size := rfl
  mapped := by simp [activatedQueue]
  availIdx := rfl
  usedIdx := rfl
  lastAvailIdx := rfl

def oneExchange : List Action :=
  [.place 3, .publish, .check, .pop, .place 9, .fill 3 512, .advance, .consume, .publish]

set_option maxRecDepth 4000 in
theorem virtqueue_fifo_exchange : ∃ final,
    run (step 256) (start (blankQueue 256)) oneExchange = some final ∧
      final.popped = [3] ∧ final.published = [3, 9] ∧ final.consumed = [⟨3, 512⟩] ∧
      Fifo 256 256 final :=
  ⟨_, rfl, rfl, rfl, rfl, virtqueue_fifo (blankQueue 256) oneExchange _ rfl⟩

end VirtioDisk.SplitRing
