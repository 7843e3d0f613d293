import VirtioDisk.Transition
import Mathlib.Logic.Function.Basic

/-!
How the server stops a queue whose I/O thread is at work: `exit_vq` of virtio/blk.c sets
`io_done`, writes to the eventfd, and joins the thread; then the rings are unmapped. Every
access to what the threads share is a step of its own, and the guest fills the rings as it
likes. An activation gets its eventfd and its thread, of one number, and `io_efd` and
`io_thread` name those of the last one; nothing asks whether the queue is on already. A
request need not be completed, and need not come back. `mapped`, `wild` and the three
counts are ghost state.
-/

namespace VirtioDisk.QueueStop

open Transition

/-- Where an I/O thread is: at the test of `virtio_blk_thread`, in the read of an
eventfd, at one of the two tests of `virtio_blk_do_io`, with a head, or in a request
that does not come back. -/
inductive IoThread where
  | gone
  | checking
  | reading (efd : Nat)
  | looking
  | deciding
  | popping
  | processing
  | lost
  deriving DecidableEq

/-- Where the server is: it serves the guest, or in `exit_vq`, or the queue is off. -/
inductive Server where
  | serving
  | stopping
  | joining
  | stopped
  deriving DecidableEq

structure State where
  server : Server
  last : Nat
  threads : Nat → IoThread
  counters : Nat → Nat
  ioDone : Bool
  mapped : Bool
  wild : Bool
  popped : Nat
  completed : Nat
  dropped : Nat

inductive Action where
  | activate
  | notify
  | setDone
  | kick
  | join
  | check (i : Nat)
  | wake (i : Nat)
  | interrupted (i : Nat)
  | look (i : Nat) (available : Bool)
  | decide (i : Nat)
  | pop (i : Nat)
  | complete (i : Nat)
  | drop (i : Nat)
  | lose (i : Nat)

def start : State :=
  ⟨.stopped, 0, fun _ => .gone, fun _ => 0, false, false, false, 0, 0, 0⟩

def touch (s : State) : State := { s with wild := s.wild || !s.mapped }

def goto (s : State) (i : Nat) (place : IoThread) : State :=
  { s with threads := Function.update s.threads i place }

def notifyVq (s : State) : State :=
  { s with counters := Function.update s.counters s.last (s.counters s.last + 1) }

/-- In `exit_vq`. -/
def Stops (s : State) : Prop := s.server = .stopping ∨ s.server = .joining

instance (s : State) : Decidable (Stops s) := inferInstanceAs (Decidable (_ ∨ _))

/-- The step of a thread that is at `place`. -/
def whenAt (s : State) (i : Nat) (place : IoThread) (next : State) : Option State :=
  if s.threads i = place then some next else none

def step (s : State) : Action → Option State
  -- The guest has the server activate a queue, or notify it, when it is not in exit_vq.
  | .activate =>
      if Stops s then none
      else
        some { s with
          server := .serving
          last := s.last + 1
          threads := Function.update s.threads (s.last + 1) .checking
          counters := Function.update s.counters (s.last + 1) 0
          ioDone := false
          mapped := true }
  | .notify => if s.server = .serving then some (notifyVq s) else none
  | .setDone =>
      if s.server = .serving then some { s with server := .stopping, ioDone := true } else none
  | .kick => if s.server = .stopping then some { notifyVq s with server := .joining } else none
  | .join =>
      if s.server = .joining ∧ s.threads s.last = .gone then
        some { s with server := .stopped, mapped := false }
      else none
  | .check i => whenAt s i .checking (goto s i (if s.ioDone then .gone else .reading s.last))
  | .wake i =>
      match s.threads i with
      | .reading efd =>
          if 0 < s.counters efd then
            some { goto s i .looking with counters := Function.update s.counters efd 0 }
          else none
      | _ => none
  -- A read that fails is tried again, after the test.
  | .interrupted i =>
      match s.threads i with
      | .reading _ => some (goto s i .checking)
      | _ => none
  | .look i available =>
      whenAt s i .looking (goto (touch s) i (if available then .deciding else .checking))
  | .decide i => whenAt s i .deciding (goto s i (if s.ioDone then .checking else .popping))
  | .pop i => whenAt s i .popping { goto (touch s) i .processing with popped := s.popped + 1 }
  | .complete i =>
      whenAt s i .processing { goto (touch s) i .looking with completed := s.completed + 1 }
  -- A type that the switch does not know, or an IN or OUT that fails.
  | .drop i => whenAt s i .processing { goto s i .looking with dropped := s.dropped + 1 }
  | .lose i => whenAt s i .processing (goto s i .lost)

/-- A queue is activated only while it is off. -/
def Careful (s : State) (action : Action) : Prop := action = .activate → s.server = .stopped

def EachCareful : State → List Action → Prop
  | _, [] => True
  | s, action :: rest => Careful s action ∧ ∀ next, step s action = some next → EachCareful next rest

/-- The head that the thread still has. -/
def held : IoThread → Nat
  | .processing | .lost => 1
  | _ => 0

structure Inv (s : State) : Prop where
  tame : s.wild = false
  alone : ∀ i, i ≠ s.last → s.threads i = .gone
  efd : ∀ efd, s.threads s.last = .reading efd → efd = s.last
  mapped : s.threads s.last ≠ .gone → s.mapped = true
  off : s.server = .stopped → s.threads s.last = .gone
  serves : s.server = .serving → s.ioDone = false
  done : Stops s → s.ioDone = true
  woken : s.server = .joining → ∀ efd, s.threads s.last = .reading efd → 0 < s.counters efd
  whole : s.popped = s.completed + s.dropped + held (s.threads s.last)

theorem start_inv : Inv start := by
  constructor <;> simp [start, Stops, held]

section Steps
variable {s next : State} {action : Action} {i : Nat} {place : IoThread}

theorem when_at_iff {after : State} : whenAt s i place next = some after ↔ s.threads i = place ∧ next = after := by
  simp [whenAt]

/-- The one thread there is. -/
theorem Inv.only (inv : Inv s) (alive : s.threads i ≠ .gone) : i = s.last := by
  by_contra other
  exact alive (inv.alone i other)

theorem touch_mapped (inv : Inv s) (alive : s.threads s.last ≠ .gone) : touch s = s := by
  have tame := inv.tame
  have mapped := inv.mapped alive
  cases s
  simp_all [touch]

theorem step_inv (inv : Inv s) (careful : Careful s action) (taken : step s action = some next) :
    Inv next := by
  have only (i : Nat) := inv.only (i := i)
  have touched := touch_mapped inv
  obtain ⟨tame, alone, efd, mapped, off, serves, done, woken, whole⟩ := inv
  cases action with
  | activate =>
      obtain ⟨idle, ⟨⟩⟩ := Option.ite_none_left_eq_some.mp taken
      have stopped := off (careful rfl)
      constructor <;> grind [Stops, Function.update_apply, held]
  | notify | setDone | kick =>
      obtain ⟨here, ⟨⟩⟩ := Option.ite_none_right_eq_some.mp taken
      constructor <;> simp only [notifyVq] <;> grind [Stops, Function.update_apply]
  | join =>
      obtain ⟨⟨here, gone⟩, ⟨⟩⟩ := Option.ite_none_right_eq_some.mp taken
      constructor <;> grind [Stops]
  | check i | decide i | drop i | lose i =>
      obtain ⟨here, rfl⟩ := when_at_iff.mp taken
      obtain rfl : i = s.last := only i (by rw [here]; decide)
      constructor <;> simp only [goto] <;> grind [Stops, held, Function.update_apply]
  | look i | pop i | complete i =>
      obtain ⟨here, rfl⟩ := when_at_iff.mp taken
      obtain rfl : i = s.last := only i (by rw [here]; decide)
      rw [touched (by rw [here]; decide)]
      constructor <;> simp only [goto] <;> grind [Stops, held, Function.update_apply]
  | wake i =>
      simp only [step] at taken
      split at taken
      · next fd here =>
          obtain ⟨some_, ⟨⟩⟩ := Option.ite_none_right_eq_some.mp taken
          obtain rfl : i = s.last := only i (by rw [here]; simp)
          constructor <;> simp only [goto] <;> grind [Stops, held, Function.update_apply]
      · cases taken
  | interrupted i =>
      simp only [step] at taken
      split at taken
      · next fd here =>
          cases taken
          obtain rfl : i = s.last := only i (by rw [here]; simp)
          constructor <;> simp only [goto] <;> grind [Stops, held, Function.update_apply]
      · cases taken

theorem run_inv {actions : List Action} (inv : Inv s) (careful : EachCareful s actions)
    (ran : run step s actions = some next) : Inv next := by
  induction actions generalizing s with
  | nil =>
      cases ran
      exact inv
  | cons action rest ih =>
      obtain ⟨now, later⟩ := careful
      obtain ⟨middle, taken, tail⟩ := run_cons ran
      exact ih (step_inv inv now taken) (later middle taken) tail

/-- In exit_vq nothing is activated. -/
theorem stops_careful (stops : Stops s) (taken : step s action = some next) :
    Careful s action := by
  rintro rfl
  obtain ⟨idle, _⟩ := Option.ite_none_left_eq_some.mp taken
  exact absurd stops idle

/-- The last thread has a request that it does not come back from. -/
def Lost (s : State) : Prop := s.threads s.last = .lost

/-- What the thread and the server have left to do, at most. -/
def left (s : State) : Nat :=
  (match s.threads s.last with
    | .gone | .lost => 0
    | .checking => 1
    | .deciding => 2
    | .looking => 3
    | .reading _ | .processing => 4
    | .popping => 5) +
  match s.server with
    | .stopping => 2
    | .joining => 1
    | _ => 0

theorem left_le (s : State) : left s ≤ 7 := by
  unfold left
  split <;> split <;> decide

/-- In exit_vq the thread goes on towards its end, or loses itself in a request. -/
theorem stop_step (inv : Inv s) (stops : Stops s) (taken : step s action = some next) :
    left next < left s ∧ (Stops next ∨ next.server = .stopped) := by
  have done := inv.done stops
  have only (i : Nat) := inv.only (i := i)
  have touched := touch_mapped inv
  cases action with
  | activate =>
      obtain ⟨idle, _⟩ := Option.ite_none_left_eq_some.mp taken
      exact absurd stops idle
  | notify | setDone =>
      obtain ⟨here, _⟩ := Option.ite_none_right_eq_some.mp taken
      rcases stops with same | same <;> rw [here] at same <;> cases same
  | kick =>
      obtain ⟨here, ⟨⟩⟩ := Option.ite_none_right_eq_some.mp taken
      simp [left, notifyVq, Stops, here]
  | join =>
      obtain ⟨⟨here, gone⟩, ⟨⟩⟩ := Option.ite_none_right_eq_some.mp taken
      simp [left, here, gone]
  | check i | decide i | drop i | lose i =>
      obtain ⟨here, rfl⟩ := when_at_iff.mp taken
      obtain rfl : i = s.last := only i (by rw [here]; decide)
      refine ⟨?_, .inl stops⟩
      simp [left, goto, here, done]
  | look i available =>
      obtain ⟨here, rfl⟩ := when_at_iff.mp taken
      obtain rfl : i = s.last := only i (by rw [here]; decide)
      rw [touched (by rw [here]; decide)]
      refine ⟨?_, .inl stops⟩
      cases available <;> simp [left, goto, here]
  | pop i | complete i =>
      obtain ⟨here, rfl⟩ := when_at_iff.mp taken
      obtain rfl : i = s.last := only i (by rw [here]; decide)
      rw [touched (by rw [here]; decide)]
      refine ⟨?_, .inl stops⟩
      simp [left, goto, here]
  | wake i =>
      simp only [step] at taken
      split at taken
      · next fd here =>
          obtain ⟨some_, ⟨⟩⟩ := Option.ite_none_right_eq_some.mp taken
          obtain rfl : i = s.last := only i (by rw [here]; simp)
          refine ⟨?_, .inl stops⟩
          simp [left, goto, here]
      · cases taken
  | interrupted i =>
      simp only [step] at taken
      split at taken
      · next fd here =>
          cases taken
          obtain rfl : i = s.last := only i (by rw [here]; simp)
          refine ⟨?_, .inl stops⟩
          simp [left, goto, here]
      · cases taken

theorem stop_enabled (inv : Inv s) (stops : Stops s) (back : ¬ Lost s) :
    ∃ action next, step s action = some next := by
  rcases stops with stopping | joining
  · exact ⟨.kick, _, if_pos stopping⟩
  · cases there : s.threads s.last with
    | gone => exact ⟨.join, _, if_pos ⟨joining, there⟩⟩
    | checking => exact ⟨.check s.last, _, if_pos there⟩
    | reading efd =>
        have counted := inv.woken joining efd there
        exact ⟨.wake s.last, _, by simp only [step, there, if_pos counted]; rfl⟩
    | looking => exact ⟨.look s.last false, _, if_pos there⟩
    | deciding => exact ⟨.decide s.last, _, if_pos there⟩
    | popping => exact ⟨.pop s.last, _, if_pos there⟩
    | processing => exact ⟨.complete s.last, _, if_pos there⟩
    | lost => exact absurd there back

/-- A stop takes no more steps than it has left. -/
theorem stop_bounded {actions : List Action} (inv : Inv s) (stops : Stops s)
    (ran : run step s actions = some next) (long : left s ≤ actions.length) :
    ∃ done stopped, done <+: actions ∧ run step s done = some stopped ∧
      stopped.server = .stopped := by
  refine run_arrives (fun _ => True) (fun s => Inv s ∧ Stops s) left ?_ ?_
    ⟨inv, stops⟩ (fun _ _ => trivial) ran long
  · rintro s ⟨_, same | same⟩ <;> simp [left, same]
  · rintro s action next - ⟨inv, stops⟩ taken
    obtain ⟨less, still | stopped⟩ := stop_step inv stops taken
    · exact ⟨less, .inl ⟨step_inv inv (stops_careful stops taken) taken, still⟩⟩
    · exact ⟨less, .inr stopped⟩

/-- The server waits for a lost thread for ever. -/
theorem lost_step (inv : Inv s) (stops : Stops s) (lost : Lost s)
    (taken : step s action = some next) : Stops next ∧ Lost next := by
  have only (i : Nat) := inv.only (i := i)
  have elsewhere {i : Nat} {place : IoThread} (here : s.threads i = place)
      (alive : place ≠ .gone) (found : place ≠ .lost) : False := by
    have same := only i (by rw [here]; exact alive)
    rw [same] at here
    exact found (here.symm.trans lost)
  cases action with
  | activate =>
      obtain ⟨idle, _⟩ := Option.ite_none_left_eq_some.mp taken
      exact absurd stops idle
  | notify | setDone =>
      obtain ⟨here, _⟩ := Option.ite_none_right_eq_some.mp taken
      rcases stops with same | same <;> rw [here] at same <;> cases same
  | kick =>
      obtain ⟨_, ⟨⟩⟩ := Option.ite_none_right_eq_some.mp taken
      exact ⟨.inr rfl, lost⟩
  | join =>
      obtain ⟨⟨_, gone⟩, _⟩ := Option.ite_none_right_eq_some.mp taken
      cases gone.symm.trans lost
  | check i | decide i | drop i | lose i | look i | pop i | complete i =>
      exact (elsewhere (when_at_iff.mp taken).1 (by decide) (by decide)).elim
  | wake i | interrupted i =>
      simp only [step] at taken
      split at taken
      · next fd here => exact (elsewhere here (by simp) (by simp)).elim
      · cases taken

end Steps

/-- The server stops the queue while the thread has a head. -/
def stopAtWork : List Action :=
  [.activate, .notify, .check 1, .wake 1, .look 1 true, .decide 1, .pop 1, .setDone, .kick]

end VirtioDisk.QueueStop
