import VirtioDisk.Transition
import Mathlib.Algebra.BigOperators.Group.Multiset.Basic
import Mathlib.Algebra.Order.Group.Multiset
import Mathlib.Data.UInt

/-!
The count of the requests in flight of disk/aio.c. Calls of `aio_submit` from any number
of threads and the thread of `disk_aio_get_events` take turns; the atomic additions, the
system calls and the callbacks are steps of their own. `pending` is what the kernel has
accepted and not given back. `accepted`, `called` and `stale` are ghost state: all that it
ever accepted, all callbacks that ran, and what the results of the system calls have left
in the count for good.
-/

namespace VirtioDisk.AioInflight

open Transition

abbrev Param := UInt64

def aioMax : Nat := 256
def eagain : Int := 11

/-- A call of `aio_submit` that has raised the count. -/
structure Submit where
  ios : List Param
  refused : Bool
  deriving DecidableEq

/-- `disk_aio_thread` is in `read`, before `io_getevents`, or at the callbacks for the
events it got. -/
inductive EventLoop where
  | reading
  | asking
  | calling (nr : Int) (left : List Param)
  deriving DecidableEq

structure State where
  aioInflight : UInt64
  submits : Multiset Submit
  thread : EventLoop
  pending : Multiset Param
  accepted : Multiset Param
  called : Multiset Param
  stale : Nat

inductive Action where
  | aioSubmit (ios : List Param)
  | ioSubmit (call : Submit) (ret : Int)
  | retreat (call : Submit)
  | wake
  | ioGetevents (events : List Param)
  | ioGeteventsFails (errno : Nat)
  | diskReqCb
  | account
  deriving DecidableEq

def raise (s : State) (ios : List Param) : State :=
  { s with
    aioInflight := s.aioInflight + UInt64.ofInt ios.length
    submits := ⟨ios, false⟩ ::ₘ s.submits }

def accept (s : State) (call : Submit) (count : Nat) : State :=
  { s with
    submits := s.submits.erase call
    pending := s.pending + (call.ios.take count : List Param)
    accepted := s.accepted + (call.ios.take count : List Param)
    stale := s.stale + (call.ios.length - count) }

def refuse (s : State) (call : Submit) : State :=
  { s with submits := { call with refused := true } ::ₘ s.submits.erase call }

def lower (s : State) (call : Submit) : State :=
  { s with
    aioInflight := s.aioInflight - UInt64.ofInt call.ios.length
    submits := s.submits.erase call }

def reap (s : State) (events : List Param) : State :=
  { s with
    pending := s.pending - (events : Multiset Param)
    thread := .calling events.length events }

def fail (s : State) (errno : Nat) : State :=
  { s with
    thread := .calling (-errno) []
    stale := s.stale + errno }

/-- `room` is how many requests the context has room for: the kernel accepts no more. -/
def step (room : UInt32) (s : State) : Action → Option State
  | .aioSubmit ios => some (raise s ios)
  | .ioSubmit call ret =>
      if call ∈ s.submits ∧ call.refused = false then
        if ret = -eagain then some s
        else if ret ≤ 0 then some (refuse s call)
        else if ret ≤ call.ios.length ∧ s.pending.card + ret ≤ room.toNat then
          some (accept s call ret.toNat)
        else none
      else none
  | .retreat call => if call ∈ s.submits ∧ call.refused then some (lower s call) else none
  | .wake => if s.thread = .reading then some { s with thread := .asking } else none
  | .ioGetevents events =>
      if s.thread = .asking ∧ events.length ≤ aioMax ∧ (events : Multiset Param) ≤ s.pending then
        some (reap s events)
      else none
  | .ioGeteventsFails errno => if s.thread = .asking ∧ 0 < errno then some (fail s errno) else none
  | .diskReqCb =>
      match s.thread with
      | .calling nr (param :: left) =>
          some { s with thread := .calling nr left, called := param ::ₘ s.called }
      | _ => none
  | .account =>
      match s.thread with
      | .calling nr [] =>
          some { s with
            aioInflight := s.aioInflight - UInt64.ofInt nr
            thread := if nr > 0 then .asking else .reading }
      | _ => none

def start : State where
  aioInflight := 0
  submits := 0
  thread := .reading
  pending := 0
  accepted := 0
  called := 0
  stale := 0

/-- Requests the kernel has accepted whose callback has not run. -/
def outstanding (s : State) : Nat := (s.accepted - s.called).card

/-- No call of `aio_submit` and no iteration of the event loop is in progress. -/
def Quiet (s : State) : Prop := s.submits = 0 ∧ s.thread = .reading

/-- The loop of `raw_image__wait` ends where it reads zero. -/
def waitReturns (s : State) : Bool := s.aioInflight == 0

/-- `io_getevents` gives no error, and `io_submit` accepts all of a call if it accepts any. -/
def Honest : Action → Prop
  | .ioSubmit call ret => ret ≤ 0 ∨ ret = call.ios.length
  | .ioGeteventsFails _ => False
  | _ => True

/-! The invariant. -/

def EventLoop.uncalled : EventLoop → Multiset Param
  | .calling _ left => left
  | _ => 0

def EventLoop.reaped : EventLoop → Int
  | .calling nr _ => nr
  | _ => 0

def raised (submits : Multiset Submit) : Nat := (submits.map fun call => call.ios.length).sum

/-- Each request is with the kernel, among the events the thread has got, or called back. -/
structure Custody (room : UInt32) (s : State) : Prop where
  all : s.accepted = s.pending + s.thread.uncalled + s.called
  room : s.pending.card ≤ room.toNat
  events : (s.thread.uncalled.card : Int) ≤ max 0 s.thread.reaped ∧ s.thread.reaped ≤ aioMax

/-- What the count is made of. -/
def Counts (s : State) : Prop :=
  s.aioInflight = UInt64.ofInt (s.pending.card + s.thread.reaped + raised s.submits + s.stale)

theorem ofInt_sub (x y : Int) : UInt64.ofInt x - UInt64.ofInt y = UInt64.ofInt (x - y) := by
  rw [UInt64.sub_eq_add_neg, ← UInt64.ofInt_neg, ← UInt64.ofInt_add, Int.sub_eq_add_neg]

theorem ofInt_natCast (n : Nat) : UInt64.ofInt n = UInt64.ofNat n := by
  have low : ((n : Int) % 2 ^ 64).toNat = n % 2 ^ 64 := by omega
  apply UInt64.toNat_inj.mp
  rw [UInt64.ofInt, low, UInt64.toNat_ofNat', UInt64.toNat_ofNat', Nat.mod_mod]

theorem raised_cons (call : Submit) (submits : Multiset Submit) :
    raised (call ::ₘ submits) = call.ios.length + raised submits := by
  simp [raised]

theorem raised_erase {call : Submit} {submits : Multiset Submit} (member : call ∈ submits) :
    raised submits = call.ios.length + raised (submits.erase call) := by
  rw [← raised_cons, Multiset.cons_erase member]

section Steps
variable {room : UInt32} {s next : State} {call : Submit} {action : Action}

theorem counts_raise (counts : Counts s) (ios : List Param) : Counts (raise s ios) := by
  unfold Counts at counts ⊢
  simp only [raise, counts, raised_cons, ← UInt64.ofInt_add]
  congr 1
  omega

theorem counts_accept (counts : Counts s) (member : call ∈ s.submits) {count : Nat}
    (some_ : count ≤ call.ios.length) : Counts (accept s call count) := by
  have less := raised_erase member
  have taken : (call.ios.take count).length = count := List.length_take_of_le some_
  unfold Counts at counts ⊢
  simp only [accept, counts, less, Multiset.card_add, Multiset.coe_card, taken]
  congr 1
  omega

theorem counts_refuse (counts : Counts s) (member : call ∈ s.submits) : Counts (refuse s call) := by
  unfold Counts at counts ⊢
  simp only [refuse, counts, raised_erase member, raised_cons]

theorem counts_lower (counts : Counts s) (member : call ∈ s.submits) : Counts (lower s call) := by
  have less := raised_erase member
  unfold Counts at counts ⊢
  simp only [lower, counts, less, ofInt_sub]
  congr 1
  omega

theorem counts_reap (counts : Counts s) (asking : s.thread = .asking) {events : List Param}
    (given : (events : Multiset Param) ≤ s.pending) : Counts (reap s events) := by
  have card := Multiset.card_sub given
  have less := Multiset.card_le_card given
  rw [Multiset.coe_card] at card less
  unfold Counts at counts ⊢
  simp only [reap, counts, card, asking, EventLoop.reaped]
  congr 1
  omega

theorem counts_fail (counts : Counts s) (asking : s.thread = .asking) (errno : Nat) :
    Counts (fail s errno) := by
  unfold Counts at counts ⊢
  simp only [fail, counts, asking, EventLoop.reaped]
  congr 1
  omega

theorem reaped_onward (nr : Int) :
    EventLoop.reaped (if nr > 0 then .asking else .reading) = 0 := by
  split <;> rfl

theorem uncalled_onward (nr : Int) :
    EventLoop.uncalled (if nr > 0 then .asking else .reading) = 0 := by
  split <;> rfl

theorem counts_account (counts : Counts s) {nr : Int} (done : s.thread = .calling nr []) :
    Counts { s with
      aioInflight := s.aioInflight - UInt64.ofInt nr
      thread := if nr > 0 then .asking else .reading } := by
  unfold Counts at counts ⊢
  rw [reaped_onward, counts, done, ofInt_sub, EventLoop.reaped]
  exact congrArg UInt64.ofInt (by dsimp only; omega)

theorem step_counts (counts : Counts s) (action : Action) (taken : step room s action = some next) :
    Counts next := by
  cases action with
  | aioSubmit ios =>
      cases taken
      exact counts_raise counts ios
  | ioSubmit call ret =>
      simp only [step] at taken
      split at taken
      · next here =>
          split at taken
          · cases taken
            exact counts
          · split at taken
            · cases taken
              exact counts_refuse counts here.1
            · split at taken
              · next fits =>
                  cases taken
                  exact counts_accept counts here.1 (by omega)
              · cases taken
      · cases taken
  | retreat call =>
      simp only [step, Option.ite_none_right_eq_some, Option.some.injEq] at taken
      obtain ⟨⟨member, _⟩, rfl⟩ := taken
      exact counts_lower counts member
  | wake =>
      simp only [step, Option.ite_none_right_eq_some, Option.some.injEq] at taken
      obtain ⟨idle, rfl⟩ := taken
      rw [Counts, idle] at counts
      exact counts
  | ioGetevents events =>
      simp only [step, Option.ite_none_right_eq_some, Option.some.injEq] at taken
      obtain ⟨⟨asking, _, given⟩, rfl⟩ := taken
      exact counts_reap counts asking given
  | ioGeteventsFails errno =>
      simp only [step, Option.ite_none_right_eq_some, Option.some.injEq] at taken
      obtain ⟨⟨asking, _⟩, rfl⟩ := taken
      exact counts_fail counts asking errno
  | diskReqCb =>
      simp only [step] at taken
      split at taken
      · next nr param left busy =>
          cases taken
          rw [Counts, busy] at counts
          exact counts
      · cases taken
  | account =>
      simp only [step] at taken
      split at taken
      · next nr done =>
          cases taken
          exact counts_account counts done
      · cases taken

theorem custody_accept (custody : Custody room s) (count : Nat) (call : Submit)
    (fits : s.pending.card + (call.ios.take count).length ≤ room.toNat) :
    Custody room (accept s call count) := by
  refine ⟨?_, ?_, custody.events⟩
  · rw [accept, custody.all, add_right_comm (s.pending + s.thread.uncalled),
      add_right_comm s.pending]
  · simpa only [accept, Multiset.card_add, Multiset.coe_card] using fits

theorem custody_reap (custody : Custody room s) (asking : s.thread = .asking) {events : List Param}
    (few : events.length ≤ aioMax) (given : (events : Multiset Param) ≤ s.pending) :
    Custody room (reap s events) := by
  refine ⟨?_, ?_, ?_⟩
  · simp only [reap, custody.all, asking, EventLoop.uncalled, Multiset.add_zero]
    rw [Multiset.sub_add_cancel given]
  · exact Nat.le_trans (Multiset.card_le_card (Multiset.sub_le_self _ _)) custody.room
  · simp only [reap, EventLoop.uncalled, EventLoop.reaped, Multiset.coe_card]
    omega

theorem custody_called (custody : Custody room s) {nr : Int} {param : Param} {left : List Param}
    (busy : s.thread = .calling nr (param :: left)) :
    Custody room { s with thread := .calling nr left, called := param ::ₘ s.called } := by
  obtain ⟨all, fits, few, bound⟩ := custody
  simp only [busy, EventLoop.uncalled, EventLoop.reaped, Multiset.coe_card, List.length_cons]
    at all few bound
  refine ⟨?_, fits, ?_, bound⟩
  · simp only [all, EventLoop.uncalled, ← Multiset.cons_coe, Multiset.add_cons, Multiset.cons_add]
  · simp only [EventLoop.uncalled, EventLoop.reaped, Multiset.coe_card]
    omega

/-- The thread lets go of the events it has called back. -/
theorem custody_thread (custody : Custody room s) (none : s.thread.uncalled = 0)
    {thread : EventLoop} (still : thread.uncalled = 0) (bound : thread.reaped ≤ aioMax)
    (aioInflight : UInt64) (stale : Nat) :
    Custody room { s with aioInflight := aioInflight, thread := thread, stale := stale } := by
  refine ⟨?_, custody.room, ?_, bound⟩
  · rw [custody.all, none, still]
  · rw [still, Multiset.card_zero]
    omega

theorem step_custody (custody : Custody room s) (action : Action)
    (taken : step room s action = some next) : Custody room next := by
  cases action with
  | aioSubmit ios =>
      cases taken
      exact ⟨custody.all, custody.room, custody.events⟩
  | ioSubmit call ret =>
      simp only [step] at taken
      split at taken
      · split at taken
        · cases taken
          exact custody
        · split at taken
          · cases taken
            exact ⟨custody.all, custody.room, custody.events⟩
          · split at taken
            · next fits =>
                cases taken
                apply custody_accept custody
                rw [List.length_take]
                omega
            · cases taken
      · cases taken
  | retreat call =>
      simp only [step, Option.ite_none_right_eq_some, Option.some.injEq] at taken
      obtain ⟨_, rfl⟩ := taken
      exact ⟨custody.all, custody.room, custody.events⟩
  | wake =>
      simp only [step, Option.ite_none_right_eq_some, Option.some.injEq] at taken
      obtain ⟨idle, rfl⟩ := taken
      exact custody_thread custody (by rw [idle]; rfl) rfl (by decide) _ _
  | ioGetevents events =>
      simp only [step, Option.ite_none_right_eq_some, Option.some.injEq] at taken
      obtain ⟨⟨asking, few, given⟩, rfl⟩ := taken
      exact custody_reap custody asking few given
  | ioGeteventsFails errno =>
      simp only [step, Option.ite_none_right_eq_some, Option.some.injEq] at taken
      obtain ⟨⟨asking, _⟩, rfl⟩ := taken
      refine custody_thread custody (by rw [asking]; rfl) rfl ?_ _ _
      simp only [EventLoop.reaped]
      omega
  | diskReqCb =>
      simp only [step] at taken
      split at taken
      · next nr param left busy =>
          cases taken
          exact custody_called custody busy
      · cases taken
  | account =>
      simp only [step] at taken
      split at taken
      · next nr done =>
          cases taken
          refine custody_thread custody (by rw [done]; rfl) (uncalled_onward nr) ?_ _ _
          rw [reaped_onward]
          decide
      · cases taken

/-- Honest results leave nothing in the count, and the thread subtracts what it got. -/
theorem honest_step (honest : Honest action) (fresh : s.stale = 0 ∧ 0 ≤ s.thread.reaped)
    (taken : step room s action = some next) : next.stale = 0 ∧ 0 ≤ next.thread.reaped := by
  cases action with
  | aioSubmit ios =>
      cases taken
      exact fresh
  | ioSubmit call ret =>
      simp only [step] at taken
      split at taken
      · split at taken
        · cases taken
          exact fresh
        · split at taken
          · cases taken
            exact fresh
          · next positive =>
              split at taken
              · cases taken
                have all : ret = call.ios.length := honest.resolve_left positive
                refine ⟨?_, fresh.2⟩
                rw [accept, all, fresh.1, Int.toNat_natCast, Nat.sub_self]
              · cases taken
      · cases taken
  | retreat call =>
      simp only [step, Option.ite_none_right_eq_some, Option.some.injEq] at taken
      obtain ⟨_, rfl⟩ := taken
      exact fresh
  | wake =>
      simp only [step, Option.ite_none_right_eq_some, Option.some.injEq] at taken
      obtain ⟨_, rfl⟩ := taken
      exact ⟨fresh.1, Int.le_refl 0⟩
  | ioGetevents events =>
      simp only [step, Option.ite_none_right_eq_some, Option.some.injEq] at taken
      obtain ⟨_, rfl⟩ := taken
      exact ⟨fresh.1, Int.natCast_nonneg events.length⟩
  | ioGeteventsFails errno => exact honest.elim
  | diskReqCb =>
      simp only [step] at taken
      split at taken
      · next nr param left busy =>
          cases taken
          rw [busy] at fresh
          exact fresh
      · cases taken
  | account =>
      simp only [step] at taken
      split at taken
      · next nr done =>
          cases taken
          exact ⟨fresh.1, Int.le_of_eq (reaped_onward nr).symm⟩
      · cases taken

end Steps

/-! Runs. -/

section Runs
variable {room : UInt32} {s : State} {actions : List Action}

theorem start_custody (room : UInt32) : Custody room start :=
  ⟨rfl, Nat.zero_le _, by decide⟩

theorem start_counts : Counts start := by
  unfold Counts
  rfl

theorem run_custody (ran : run (step room) start actions = some s) : Custody room s :=
  run_invariant (Custody room) (fun _ action _ kept taken => step_custody kept action taken)
    (start_custody room) ran

theorem run_counts (ran : run (step room) start actions = some s) : Counts s :=
  run_invariant Counts (fun _ action _ kept taken => step_counts kept action taken) start_counts ran

theorem run_fresh (honest : ∀ action ∈ actions, Honest action)
    (ran : run (step room) start actions = some s) : s.stale = 0 ∧ 0 ≤ s.thread.reaped :=
  run_allowed (fun state => state.stale = 0 ∧ 0 ≤ state.thread.reaped)
    (fun _ _ _ permitted kept taken => honest_step permitted kept taken)
    ⟨rfl, Int.le_refl 0⟩ honest ran

theorem outstanding_custody (custody : Custody room s) :
    outstanding s = s.pending.card + s.thread.uncalled.card := by
  rw [outstanding, custody.all, Multiset.add_sub_cancel_right, Multiset.card_add]

/-- What stays in the count for good is what the results of the system calls have left. -/
theorem quiet_count (ran : run (step room) start actions = some s) (quiet : Quiet s) :
    s.aioInflight = UInt64.ofNat (outstanding s + s.stale) := by
  have counts := run_counts ran
  rw [Counts, quiet.1, quiet.2] at counts
  rw [outstanding_custody (run_custody ran), quiet.2, counts, ← ofInt_natCast]
  apply congrArg UInt64.ofInt
  simp [raised, EventLoop.reaped, EventLoop.uncalled]

/-- Between the calls the count is exact just where nothing was left in it, up to its width. -/
theorem quiet_exact_iff (ran : run (step room) start actions = some s) (quiet : Quiet s) :
    s.aioInflight.toNat = outstanding s ↔ 2 ^ 64 ∣ s.stale := by
  have few := (run_custody ran).room
  have small := room.toNat_lt
  have all := outstanding_custody (run_custody ran)
  rw [quiet.2, show EventLoop.uncalled .reading = 0 from rfl, Multiset.card_zero] at all
  rw [quiet_count ran quiet, UInt64.toNat_ofNat']
  omega

/-- While no call of `aio_submit` is in progress, a request the kernel has accepted is
counted until after its callback. -/
theorem waited_for (honest : ∀ action ∈ actions, Honest action)
    (ran : run (step room) start actions = some s) (none : s.submits = 0)
    (returns : waitReturns s = true) : outstanding s = 0 := by
  obtain ⟨fresh, got⟩ := run_fresh honest ran
  have custody := run_custody ran
  obtain ⟨few, bound⟩ := custody.events
  have limit := custody.room
  have small := room.toNat_lt
  have counts := run_counts ran
  have zero : s.aioInflight = 0 := by simpa [waitReturns] using returns
  have sum : (s.pending.card + s.thread.reaped + raised s.submits + s.stale : Int) =
      (s.pending.card + s.thread.reaped.toNat : Nat) := by
    rw [none, fresh, show raised 0 = 0 from rfl]
    omega
  rw [Counts, sum, ofInt_natCast, zero] at counts
  have width := congrArg UInt64.toNat counts
  rw [UInt64.toNat_ofNat', UInt64.toNat_zero] at width
  rw [outstanding_custody custody]
  simp only [aioMax] at bound
  omega

/-- With honest results, the count between the calls is that of the requests outstanding,
and waiting for it to be zero ends just where there are none. -/
theorem inflight_exact (honest : ∀ action ∈ actions, Honest action)
    (ran : run (step room) start actions = some s) :
    (Quiet s → s.aioInflight.toNat = outstanding s) ∧
    (s.submits = 0 → waitReturns s = true → outstanding s = 0) ∧
    (Quiet s → outstanding s = 0 → waitReturns s = true) := by
  have fresh := (run_fresh honest ran).1
  refine ⟨fun quiet => ?_, waited_for honest ran, fun quiet none => ?_⟩
  · rw [quiet_exact_iff ran quiet, fresh]
    exact Nat.dvd_zero _
  · have count := quiet_count ran quiet
    rw [none, fresh] at count
    rw [waitReturns, count]
    rfl

end Runs

/-- One request, with a context that had no room at first, and a second look for events. -/
def oneRead : List Action :=
  [.aioSubmit [7], .ioSubmit ⟨[7], false⟩ (-eagain), .ioSubmit ⟨[7], false⟩ 1, .wake,
    .ioGetevents [7], .diskReqCb, .account, .ioGetevents [], .account]

theorem one_read_counted : ∃ s, run (step 256) start oneRead = some s ∧ Quiet s ∧
    s.accepted = {7} ∧ s.aioInflight.toNat = outstanding s ∧ waitReturns s = true := by
  have ends : (run (step 256) start oneRead).map (fun s =>
      (s.submits, s.thread, s.accepted, outstanding s)) = some (0, .reading, {7}, 0) := by
    decide +kernel
  obtain ⟨s, ran, last⟩ := Option.map_eq_some_iff.mp ends
  simp only [Prod.mk.injEq] at last
  obtain ⟨none, reading, one, called⟩ := last
  have honest : ∀ action ∈ oneRead, Honest action := by simp [oneRead, Honest, eagain]
  obtain ⟨counted, _, returns⟩ := inflight_exact honest ran
  exact ⟨s, ran, ⟨none, reading⟩, one, counted ⟨none, reading⟩, returns ⟨none, reading⟩ called⟩

/-- The same request, but a signal comes at the second look for events. -/
def interruptedRead : List Action :=
  [.aioSubmit [7], .ioSubmit ⟨[7], false⟩ 1, .wake, .ioGetevents [7], .diskReqCb, .account,
    .ioGeteventsFails 4, .account]

theorem interrupted_read_stale : ¬ ∀ (room : UInt32) (actions : List Action) (s : State),
    run (step room) start actions = some s → Quiet s → s.aioInflight.toNat = outstanding s := by
  intro exact_
  have ends : (run (step 256) start interruptedRead).map (fun s =>
      (s.aioInflight.toNat, outstanding s, s.submits, s.thread)) = some (4, 0, 0, .reading) := by
    decide +kernel
  obtain ⟨s, ran, last⟩ := Option.map_eq_some_iff.mp ends
  simp only [Prod.mk.injEq] at last
  obtain ⟨counted, left, none, reading⟩ := last
  have same := exact_ 256 interruptedRead s ran ⟨none, reading⟩
  omega

end VirtioDisk.AioInflight
