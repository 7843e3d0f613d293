import VirtioDisk.MmioRegisters
import VirtioDisk.Transition

/-!
Two threads of the server write `interrupt_state` with a load and a store: the I/O thread
sets VIRTIO_MMIO_INT_VRING and raises the interrupt (`virtio_mmio_signal_vq`), and the
main thread clears what the driver writes to INTERRUPT_ACK. The driver reads
INTERRUPT_STATUS when it is interrupted, acknowledges what it read, and then looks at the
used ring if the bit was there. `torn` is ghost state: an acknowledgment of something else
stored over the bit.
-/

namespace VirtioDisk.InterruptState

open MmioRegisters
open Transition

/-- The I/O thread has completed nothing that it has not signalled, or it is in
`virtio_mmio_signal_vq`. -/
inductive IoThread where
  | working
  | loading
  | storing (seen : UInt32)
  | triggering
  deriving DecidableEq

/-- The driver runs, or it is in its interrupt handler, or the server is at its write to
INTERRUPT_ACK for it. -/
inductive Driver where
  | running
  | entered
  | acknowledging (status : UInt32)
  | clearing (status seen : UInt32)
  | handling (status : UInt32)
  deriving DecidableEq

structure State where
  interruptState : UInt32
  thread : IoThread
  driver : Driver
  pending : Bool
  completed : Nat
  consumed : Nat
  torn : Bool

inductive Action where
  | complete
  | load
  | store
  | trigger
  | take
  | readStatus
  | acknowledge
  | acknowledgeOther
  | clear
  | dismiss
  | handle

def Vring (status : UInt32) : Prop := status &&& virtioMmioIntVring ≠ 0

instance (status : UInt32) : Decidable (Vring status) :=
  inferInstanceAs (Decidable (_ ≠ _))

def start : State := ⟨0, .working, .running, false, 0, 0, false⟩

def step (s : State) : Action → Option State
  | .complete =>
      if s.thread = .working then some { s with thread := .loading, completed := s.completed + 1 }
      else none
  | .load =>
      if s.thread = .loading then some { s with thread := .storing s.interruptState } else none
  | .store =>
      match s.thread with
      | .storing seen =>
          some { s with interruptState := seen ||| virtioMmioIntVring, thread := .triggering }
      | _ => none
  | .trigger =>
      if s.thread = .triggering then some { s with thread := .working, pending := true } else none
  | .take =>
      if s.driver = .running ∧ s.pending = true then
        some { s with driver := .entered, pending := false }
      else none
  | .readStatus =>
      if s.driver = .entered then some { s with driver := .acknowledging s.interruptState }
      else none
  | .acknowledge =>
      match s.driver with
      | .acknowledging status =>
          if Vring status then some { s with driver := .clearing status s.interruptState }
          else none
      | _ => none
  -- An interrupt that an earlier one has answered may find no bit to acknowledge.
  | .acknowledgeOther =>
      match s.driver with
      | .acknowledging status =>
          if Vring status then none
          else some { s with driver := .clearing status s.interruptState }
      | _ => none
  | .clear =>
      match s.driver with
      | .clearing status seen =>
          some { s with
            interruptState := seen &&& ~~~status
            driver := .handling status
            torn := s.torn ||
              decide (Vring s.interruptState ∧ ¬ Vring seen ∧ ¬ Vring status) }
      | _ => none
  | .dismiss =>
      match s.driver with
      | .acknowledging status =>
          if Vring status then none else some { s with driver := .running }
      | _ => none
  | .handle =>
      match s.driver with
      | .handling status =>
          some { s with
            driver := .running
            consumed := if Vring status then s.completed else s.consumed }
      | _ => none

theorem vring_bit (status : UInt32) : Vring status ↔ status.toBitVec.getLsbD 0 = true := by
  rw [Vring, virtioMmioIntVring, ne_eq, ← UInt32.toBitVec_inj, UInt32.toBitVec_and]
  rw [show UInt32.toBitVec 1 = 1#32 from rfl, BitVec.and_one_eq_setWidth_ofBool_getLsbD]
  cases status.toBitVec.getLsbD 0 <;> simp

theorem vring_set (status : UInt32) : Vring (status ||| virtioMmioIntVring) := by
  rw [vring_bit]
  simp [virtioMmioIntVring]

theorem vring_cleared (status mask : UInt32) :
    Vring (status &&& ~~~mask) ↔ Vring status ∧ ¬ Vring mask := by
  simp only [vring_bit]
  simp

/-- The I/O thread is about to set the bit. -/
def Signals : IoThread → Prop
  | .loading | .storing _ => True
  | .working | .triggering => False

/-- The driver has read the bit, and has yet to look at the used ring. -/
def Looks : Driver → Prop
  | .acknowledging status | .clearing status _ | .handling status => Vring status
  | .running | .entered => False

/-- The bit is set, and the driver has yet to read it. -/
def Notified (s : State) : Prop :=
  Vring s.interruptState ∧ (s.thread = .triggering ∨ s.pending = true ∨ s.driver = .entered)

structure Inv (s : State) : Prop where
  consumed_le : s.consumed ≤ s.completed
  seen : s.torn = false → s.consumed < s.completed →
    Signals s.thread ∨ Looks s.driver ∨ Notified s

theorem start_inv : Inv start := ⟨Nat.le_refl 0, fun _ less => absurd less (Nat.lt_irrefl 0)⟩

def Rest (s : State) : Prop := s.thread = .working ∧ s.driver = .running ∧ s.pending = false

instance (s : State) : Decidable (Rest s) := inferInstanceAs (Decidable (_ ∧ _ ∧ _))

section Steps
variable {s next : State} {action : Action}

theorem step_inv (inv : Inv s) (taken : step s action = some next) : Inv next := by
  obtain ⟨consumed_le, seen⟩ := inv
  cases action with
  | complete =>
      obtain ⟨here, ⟨⟩⟩ := Option.ite_none_right_eq_some.mp taken
      exact ⟨Nat.le_succ_of_le consumed_le, fun _ _ => .inl trivial⟩
  | load =>
      obtain ⟨here, ⟨⟩⟩ := Option.ite_none_right_eq_some.mp taken
      exact ⟨consumed_le, fun _ _ => .inl trivial⟩
  | store =>
      cases there : s.thread with
      | storing loaded =>
          simp only [step, there, Option.some.injEq] at taken
          subst taken
          exact ⟨consumed_le, fun _ _ => .inr (.inr ⟨vring_set loaded, .inl rfl⟩)⟩
      | working | loading | triggering => simp [step, there] at taken
  | trigger | take | readStatus =>
      obtain ⟨here, ⟨⟩⟩ := Option.ite_none_right_eq_some.mp taken
      refine ⟨consumed_le, fun whole less => ?_⟩
      grind [Signals, Looks, Notified]
  | acknowledge | acknowledgeOther | dismiss =>
      cases there : s.driver <;> simp only [step, there, reduceCtorEq] at taken
      split at taken <;> cases taken
      refine ⟨consumed_le, fun whole less => ?_⟩
      grind [Signals, Looks, Notified]
  | clear =>
      cases there : s.driver <;> simp only [step, there, reduceCtorEq] at taken
      cases taken
      refine ⟨consumed_le, fun whole less => ?_⟩
      grind [Signals, Looks, Notified, vring_cleared]
  | handle =>
      cases there : s.driver <;> simp only [step, there, reduceCtorEq] at taken
      cases taken
      constructor <;> grind [Signals, Looks, Notified]

/-- How many steps the two have to take before they are at rest, at most. -/
def left (s : State) : Nat :=
  (match s.thread with
    | .working => 0
    | .triggering => 6
    | .storing _ => 7
    | .loading => 8) +
  (if s.pending then 5 else 0) +
  match s.driver with
    | .running => 0
    | .handling _ => 1
    | .clearing _ _ => 2
    | .acknowledging _ => 3
    | .entered => 4

theorem left_lowers (other : action ≠ .complete) (taken : step s action = some next) :
    left next < left s := by
  cases action with
  | complete => exact absurd rfl other
  | load | trigger | take | readStatus =>
      obtain ⟨here, ⟨⟩⟩ := Option.ite_none_right_eq_some.mp taken
      grind [left]
  | store =>
      cases there : s.thread <;> simp only [step, there, reduceCtorEq] at taken
      cases taken
      grind [left]
  | acknowledge | acknowledgeOther | dismiss =>
      cases there : s.driver <;> simp only [step, there, reduceCtorEq] at taken
      split at taken <;> cases taken
      grind [left]
  | clear | handle =>
      cases there : s.driver <;> simp only [step, there, reduceCtorEq] at taken
      cases taken
      grind [left]

theorem left_pos (busy : ¬ Rest s) : 0 < left s := by
  grind [left, Rest]

theorem left_le (s : State) : left s ≤ 17 := by
  grind [left]

theorem busy_enabled (busy : ¬ Rest s) :
    ∃ action next, action ≠ .complete ∧ step s action = some next := by
  cases driver : s.driver with
  | entered => exact ⟨.readStatus, _, by simp, if_pos driver⟩
  | acknowledging status =>
      by_cases vring : Vring status
      · exact ⟨.acknowledge, _, by simp, by simp only [step, driver, if_pos vring]; rfl⟩
      · exact ⟨.dismiss, _, by simp, by simp only [step, driver, if_neg vring]; rfl⟩
  | clearing status seen => exact ⟨.clear, _, by simp, by simp only [step, driver]; rfl⟩
  | handling status => exact ⟨.handle, _, by simp, by simp only [step, driver]; rfl⟩
  | running =>
      cases thread : s.thread with
      | loading => exact ⟨.load, _, by simp, if_pos thread⟩
      | storing seen => exact ⟨.store, _, by simp, by simp only [step, thread]; rfl⟩
      | triggering => exact ⟨.trigger, _, by simp, if_pos thread⟩
      | working =>
          have pending : s.pending = true := by
            by_contra none
            exact busy ⟨thread, driver, Bool.eq_false_iff.mpr none⟩
          exact ⟨.take, _, by simp, if_pos ⟨driver, pending⟩⟩

theorem torn_kept (careful : action ≠ .acknowledgeOther)
    (carried : s.torn = false ∧ ∀ status seen, s.driver = .clearing status seen → Vring status)
    (taken : step s action = some next) :
    next.torn = false ∧ ∀ status seen, next.driver = .clearing status seen → Vring status := by
  obtain ⟨whole, carried⟩ := carried
  cases action with
  | acknowledgeOther => exact absurd rfl careful
  | complete | load | trigger =>
      obtain ⟨here, ⟨⟩⟩ := Option.ite_none_right_eq_some.mp taken
      exact ⟨whole, carried⟩
  | take | readStatus =>
      obtain ⟨here, ⟨⟩⟩ := Option.ite_none_right_eq_some.mp taken
      exact ⟨whole, by simp⟩
  | store =>
      cases there : s.thread <;> simp only [step, there, reduceCtorEq] at taken
      cases taken
      exact ⟨whole, carried⟩
  | acknowledge | dismiss =>
      cases there : s.driver <;> simp only [step, there, reduceCtorEq] at taken
      split at taken <;> cases taken
      grind
  | clear | handle =>
      cases there : s.driver <;> simp only [step, there, reduceCtorEq] at taken
      cases taken
      grind

end Steps

/-- A driver that acknowledges nothing but the bit tears nothing. -/
theorem careful_whole {actions : List Action} {s : State}
    (careful : ∀ action ∈ actions, action ≠ .acknowledgeOther)
    (ran : run step start actions = some s) : s.torn = false :=
  (run_allowed (fun s => s.torn = false ∧
    ∀ status seen, s.driver = .clearing status seen → Vring status)
    (fun _ _ _ careful carried => torn_kept careful carried) ⟨rfl, by simp [start]⟩ careful ran).1

theorem reachable_inv {actions : List Action} {s : State} (ran : run step start actions = some s) :
    Inv s :=
  run_invariant Inv (fun _ _ _ inv taken => step_inv inv taken) start_inv ran

theorem Inv.rest {s : State} (inv : Inv s) (whole : s.torn = false) (rest : Rest s) :
    s.consumed = s.completed := by
  obtain ⟨thread, driver, pending⟩ := rest
  by_contra different
  have less : s.consumed < s.completed := lt_of_le_of_ne inv.consumed_le different
  rcases inv.seen whole less with signals | looks | ⟨_, raised⟩
  · rw [thread] at signals
    exact signals
  · rw [driver] at looks
    exact looks
  · simp [thread, driver, pending] at raised

/-- However the I/O thread, the main thread and the driver take turns: they come to rest
within few steps when nothing else is completed. If no acknowledgment of something else
was stored over the bit, the driver has then seen every completion that was signalled. -/
theorem signals_seen {actions : List Action} {s : State} (ran : run step start actions = some s) :
    (s.torn = false → Rest s → s.consumed = s.completed) ∧
      (¬ Rest s → ∃ action next, action ≠ .complete ∧ step s action = some next) ∧
      ∀ more final, (∀ action ∈ more, action ≠ .complete) → run step s more = some final →
        17 ≤ more.length →
          ∃ done rest, done <+: more ∧ run step s done = some rest ∧ Rest rest := by
  refine ⟨fun whole => (reachable_inv ran).rest whole, busy_enabled, ?_⟩
  intro more final others runs long
  by_cases rest : Rest s
  · exact ⟨[], s, List.nil_prefix, rfl, rest⟩
  · refine run_arrives (fun action => action ≠ .complete) (fun s => ¬ Rest s) left
      (fun _ busy => left_pos busy) ?_ rest others runs ((left_le s).trans long)
    intro s action next other busy taken
    exact ⟨left_lowers other taken, (em (Rest next)).symm⟩

/-- Three completions: the second is seen with the first, its interrupt finds no bit, and
the acknowledgment of that is stored over the bit of the third. -/
def tornRun : List Action :=
  [.complete, .load, .store, .trigger, .take, .readStatus,
    .complete, .load, .store, .trigger, .acknowledge, .clear, .handle,
    .take, .readStatus, .acknowledgeOther,
    .complete, .load, .store, .clear, .handle, .trigger,
    .take, .readStatus, .dismiss]

theorem signals_seen_two : ∃ s, run step start (tornRun.take 13) = some s ∧ s.torn = false ∧
    ∀ rest, run step s [.take, .readStatus, .dismiss] = some rest →
      rest.consumed = rest.completed := by
  refine ⟨_, rfl, rfl, fun rest ran => ?_⟩
  have whole : run step start (tornRun.take 13 ++ [.take, .readStatus, .dismiss]) = some rest := by
    rw [run_append]
    exact ran
  cases ran
  exact (signals_seen whole).1 rfl ⟨rfl, rfl, rfl⟩

/-- The third completion is lost although all are at rest. -/
example : (run step start tornRun).map (fun s => (decide (Rest s), s.completed, s.consumed)) =
    some (true, 3, 2) := by decide

/-! With nothing between its load and its store, a thread does what the register model
says. -/

theorem acknowledge_at_once {s : State} {status : UInt32} {dev : MmioDevice} (host : HostAnswers)
    (same : dev.hdr.interruptState = s.interruptState) (reading : s.driver = .acknowledging status) :
    ∃ action next written, run step s [action, .clear] = some next ∧
      callback dev (wordTo .interruptAck status) host = .ok written ∧
      next = { s with
        interruptState := written.hdr.interruptState, driver := .handling status } := by
  have write : command dev.vdev.legacy (wordTo .interruptAck status) = .interruptAck status := by
    cases dev.vdev.legacy <;> rfl
  refine ⟨if Vring status then .acknowledge else .acknowledgeOther, _, _, ?_,
    by rw [callback_performs, write]; rfl, rfl⟩
  by_cases vring : Vring status <;>
    simp [run, step, reading, vring, same]

theorem signal_at_once {s : State} {dev : MmioDevice} (lastAvailIdx lastUsedSignalled : UInt16)
    (same : dev.hdr.interruptState = s.interruptState) (signalling : s.thread = .loading)
    (active : dev.threads ≠ [] ∧ dev.vq.vring.avail ≠ 0) :
    run step s [.load, .store, .trigger] = some { s with
      interruptState := (served dev lastAvailIdx lastUsedSignalled true).hdr.interruptState
      thread := .working
      pending := true } := by
  simp [run, step, signalling, served, active, same]

end VirtioDisk.InterruptState
