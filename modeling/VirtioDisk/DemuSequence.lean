import Mathlib.Data.List.Range
import VirtioDisk.Ledger
import VirtioDisk.Transition

/-!
`demu_initialize` and `demu_teardown`. What has been acquired is kept nowhere
but in the sequence number, so that the invariant reads it off there: every
stage that was passed holds its own resources, and the teardown gives back one
stage after the other. The build does not define MAP_IN_ADVANCE, whose stage is
left out. The states that are written to xenstore and the path that xs_rm removes
are nothing that is acquired, and have no part in the log.
-/

namespace VirtioDisk.DemuSequence

open Ledger Transition

inductive Seq where
  | uninitialized
  | xenstoreAttached
  | xenevtchnOpen
  | xenforeignmemoryOpen
  | xendevicemodelOpen
  | xengnttabOpen
  | serverRegistered
  | resourceMapped
  | serverEnabled
  | portArrayAllocated
  | portsBound
  | deviceInitialized
  | initialized
  deriving DecidableEq

def Seq.rank : Seq → Nat
  | .uninitialized => 0
  | .xenstoreAttached => 1
  | .xenevtchnOpen => 2
  | .xenforeignmemoryOpen => 3
  | .xendevicemodelOpen => 4
  | .xengnttabOpen => 5
  | .serverRegistered => 6
  | .resourceMapped => 7
  | .serverEnabled => 8
  | .portArrayAllocated => 9
  | .portsBound => 10
  | .deviceInitialized => 11
  | .initialized => 12

instance : LE Seq := ⟨fun first second => first.rank ≤ second.rank⟩

instance (first second : Seq) : Decidable (first ≤ second) :=
  inferInstanceAs (Decidable (first.rank ≤ second.rank))

inductive Resource where
  | backendWatch
  | frontendWatch (fe : UInt64)
  | frontend (fe : UInt64)
  | filename (p : UInt64)
  | eventChannels (xeh : UInt64)
  | foreignMemory (xfh : UInt64)
  | deviceModel (xdh : UInt64)
  | grantTable (xgt : UInt64)
  | ioreqServer (xdh : UInt64) (ioservid : UInt16)
  | mapping (xfh resource : UInt64)
  | enabledServer (xdh : UInt64) (ioservid : UInt16)
  | portArray (p : UInt64)
  | port (xeh : UInt64) (port : UInt32)
  | device
  deriving DecidableEq

def maxDiskImages : Nat := 4

/-- The part of `demu_state` that both functions use, `xs_dev->fe` and
`disk_image[].filename`. `log` is what was acquired and released so far. -/
structure State where
  seq : Seq
  fe : UInt64
  xeh : UInt64
  xfh : UInt64
  xdh : UInt64
  xgt : UInt64
  vcpus : Nat
  ioservid : UInt16
  resource : UInt64
  portArray : UInt64
  ioreqLocalPort : List UInt32
  filenames : List UInt64
  log : List (Entry Resource)

/-- What the calls return. A pointer of 0 is NULL, a state is none if it cannot be read,
`bind i` is the answer for vCPU i. -/
structure Host where
  backendState : Option Int
  frontend : UInt64
  frontendState : Option Int
  watchBackend : Bool
  watchFrontend : Bool
  waitBackend : Int
  mode : Bool
  base : Bool
  irq : Bool
  params : UInt64
  xeh : UInt64
  xfh : UInt64
  xdh : UInt64
  xgt : UInt64
  vcpus : Option Nat
  ioservid : Option UInt16
  resource : UInt64
  enabled : Bool
  portArray : UInt64
  bind : Nat → Int32
  device : Bool

def acquire (state : State) (taken : List Resource) : State :=
  { state with log := state.log ++ taken.map .acquired }

def release (state : State) (back : List Resource) : State :=
  { state with log := state.log ++ back.map .released }

/-- `++demu_state.seq`. The assertion keeps the last one from being incremented. -/
def Seq.next : Seq → Seq
  | .uninitialized => .xenstoreAttached
  | .xenstoreAttached => .xenevtchnOpen
  | .xenevtchnOpen => .xenforeignmemoryOpen
  | .xenforeignmemoryOpen => .xendevicemodelOpen
  | .xendevicemodelOpen => .xengnttabOpen
  | .xengnttabOpen => .serverRegistered
  | .serverRegistered => .resourceMapped
  | .resourceMapped => .serverEnabled
  | .serverEnabled => .portArrayAllocated
  | .portArrayAllocated => .portsBound
  | .portsBound => .deviceInitialized
  | .deviceInitialized => .initialized
  | .initialized => .initialized

def demuSeqNext (state : State) : State := { state with seq := state.seq.next }

/-! The steps of `demu_initialize`. The error is the state at the `goto fail`. -/

def xenbusStateInitialising : Int := 1

def xenbusStateInitWait : Int := 2

-- It asks for the front end only: the back end is taken to be watched.
def xenstoreDisconnectDom (state : State) : State :=
  if state.fe ≠ 0 then
    { release state [.frontendWatch state.fe, .frontend state.fe, .backendWatch] with fe := 0 }
  else release state [.backendWatch]

def xenstoreReadFe (host : Host) (state : State) : Except State State :=
  if host.backendState = some xenbusStateInitialising then
    if host.frontend = 0 then .error state
    else .ok (acquire { state with fe := host.frontend } [.frontend host.frontend])
  else .error state

def xenstoreWatch (host : Host) (state : State) : Except State State :=
  if host.frontendState = some xenbusStateInitialising then
    if host.watchBackend then
      let state := acquire state [.backendWatch]
      if host.watchFrontend then .ok (acquire state [.frontendWatch state.fe]) else .error state
    else .error state
  else .error state

/-- The callback. The file name is read last. -/
def demuReadXenstoreConfig (host : Host) (state : State) : Except State State :=
  if host.mode ∧ host.base ∧ host.irq ∧ host.params ≠ 0 then
    .ok (acquire { state with filenames := state.filenames.set 0 host.params }
      [.filename host.params])
  else .error state

def xenstoreConfigure (host : Host) (state : State) : Except State State :=
  if host.waitBackend = xenbusStateInitWait then demuReadXenstoreConfig host state
  else .error state

def xenstoreConnectDom (host : Host) (state : State) : Except State State :=
  match xenstoreReadFe host state >>= xenstoreWatch host >>= xenstoreConfigure host with
  | .ok state => .ok (demuSeqNext state)
  | .error state => .error (xenstoreDisconnectDom state)

def xenevtchnOpen (host : Host) (state : State) : Except State State :=
  let state := { state with xeh := host.xeh }
  if host.xeh = 0 then .error state
  else .ok (demuSeqNext (acquire state [.eventChannels host.xeh]))

def xenforeignmemoryOpen (host : Host) (state : State) : Except State State :=
  let state := { state with xfh := host.xfh }
  if host.xfh = 0 then .error state
  else .ok (demuSeqNext (acquire state [.foreignMemory host.xfh]))

def xendevicemodelOpen (host : Host) (state : State) : Except State State :=
  let state := { state with xdh := host.xdh }
  if host.xdh = 0 then .error state
  else .ok (demuSeqNext (acquire state [.deviceModel host.xdh]))

def xengnttabOpen (host : Host) (state : State) : Except State State :=
  let state := { state with xgt := host.xgt }
  if host.xgt = 0 then .error state
  else .ok (demuSeqNext (acquire state [.grantTable host.xgt]))

def registerServer (host : Host) (state : State) : Except State State :=
  match host.vcpus with
  | none => .error state
  | some vcpus =>
      let state := { state with vcpus := vcpus }
      match host.ioservid with
      | none => .error state
      | some ioservid =>
          .ok (demuSeqNext (acquire { state with ioservid := ioservid }
            [.ioreqServer state.xdh ioservid]))

def mapResource (host : Host) (state : State) : Except State State :=
  let state := { state with resource := host.resource }
  if host.resource = 0 then .error state
  else .ok (demuSeqNext (acquire state [.mapping state.xfh host.resource]))

def enableServer (host : Host) (state : State) : Except State State :=
  if host.enabled then
    .ok (demuSeqNext (acquire state [.enabledServer state.xdh state.ioservid]))
  else .error state

/-- -1 as an `evtchn_port_t`. -/
def unbound : UInt32 := 0xffffffff

def allocPortArray (host : Host) (state : State) : Except State State :=
  let state := { state with portArray := host.portArray }
  if host.portArray = 0 then .error state
  else
    .ok (demuSeqNext (acquire
      { state with ioreqLocalPort := List.replicate state.vcpus unbound }
      [.portArray host.portArray]))

def bindPort (host : Host) (state : State) (i : Nat) : Except State State :=
  if host.bind i < 0 then .error state
  else
    .ok (acquire { state with ioreqLocalPort := state.ioreqLocalPort.set i (host.bind i).toUInt32 }
      [.port state.xeh (host.bind i).toUInt32])

def bindPorts (host : Host) (state : State) : Except State State := do
  let state ← (List.range state.vcpus).foldlM (bindPort host) state
  .ok (demuSeqNext state)

def initializeDevice (host : Host) (state : State) : Except State State :=
  if host.device then .ok (demuSeqNext (demuSeqNext (acquire state [.device]))) else .error state

def demuInitialize (host : Host) (state : State) : Except State State := do
  let state ← xenstoreConnectDom host state
  let state ← xenevtchnOpen host state
  let state ← xenforeignmemoryOpen host state
  let state ← xendevicemodelOpen host state
  let state ← xengnttabOpen host state
  let state ← registerServer host state
  let state ← mapResource host state
  let state ← enableServer host state
  let state ← allocPortArray host state
  let state ← bindPorts host state
  initializeDevice host state

/-! `demu_teardown`, one block after the other. -/

def leaveStage (test : Bool) (back : List Resource) (down : Seq) (state : State) : State :=
  if test then { release state back with seq := down } else state

def leaveInitialized (state : State) : State :=
  leaveStage (state.seq = .initialized) [] .deviceInitialized state

def leaveDeviceInitialized (state : State) : State :=
  leaveStage (state.seq = .deviceInitialized) [.device] .portsBound state

def leavePortsBound (state : State) : State :=
  leaveStage (.portsBound ≤ state.seq) [] .portArrayAllocated state

/-- `port >= 0` holds of every `evtchn_port_t`, so that every entry of the
array is unbound. -/
def unbindPorts (state : State) : List Resource :=
  (state.ioreqLocalPort.filter fun port => 0 ≤ port).map (.port state.xeh)

def leavePortArray (state : State) : State :=
  leaveStage (.portArrayAllocated ≤ state.seq) (unbindPorts state ++ [.portArray state.portArray])
    .serverEnabled state

def leaveServerEnabled (state : State) : State :=
  leaveStage (state.seq = .serverEnabled) [.enabledServer state.xdh state.ioservid]
    .resourceMapped state

def leaveResourceMapped (state : State) : State :=
  leaveStage (.resourceMapped ≤ state.seq) [.mapping state.xfh state.resource]
    .serverRegistered state

def leaveServerRegistered (state : State) : State :=
  leaveStage (.serverRegistered ≤ state.seq) [.ioreqServer state.xdh state.ioservid]
    .xengnttabOpen state

def leaveXengnttab (state : State) : State :=
  leaveStage (.xengnttabOpen ≤ state.seq) [.grantTable state.xgt] .xendevicemodelOpen state

def leaveXendevicemodel (state : State) : State :=
  leaveStage (.xendevicemodelOpen ≤ state.seq) [.deviceModel state.xdh]
    .xenforeignmemoryOpen state

def leaveXenforeignmemory (state : State) : State :=
  leaveStage (.xenforeignmemoryOpen ≤ state.seq) [.foreignMemory state.xfh] .xenevtchnOpen state

def leaveXenevtchn (state : State) : State :=
  leaveStage (.xenevtchnOpen ≤ state.seq) [.eventChannels state.xeh] .xenstoreAttached state

def heldNames (state : State) : List UInt64 := state.filenames.filter (· ≠ 0)

def freeFilenames (state : State) : State :=
  { release state ((heldNames state).map .filename) with
    filenames := state.filenames.map fun _ => 0 }

def leaveXenstore (state : State) : State :=
  if .xenstoreAttached ≤ state.seq then
    { xenstoreDisconnectDom (freeFilenames state) with seq := .uninitialized }
  else state

def demuTeardown (state : State) : State :=
  let state := leaveInitialized state
  let state := leaveDeviceInitialized state
  let state := leavePortsBound state
  let state := leavePortArray state
  let state := leaveServerEnabled state
  let state := leaveResourceMapped state
  let state := leaveServerRegistered state
  let state := leaveXengnttab state
  let state := leaveXendevicemodel state
  let state := leaveXenforeignmemory state
  let state := leaveXenevtchn state
  leaveXenstore state

/-- `main` runs the teardown whatever `demu_initialize` returns. -/
def cycle (host : Host) (state : State) : State :=
  match demuInitialize host state with
  | .ok state => demuTeardown state
  | .error state => demuTeardown state

/-! What each stage holds, read off the state. -/

def heldPorts (state : State) : List UInt32 := state.ioreqLocalPort.filter (· ≠ unbound)

def layer (state : State) : Seq → List Resource
  | .uninitialized => []
  | .xenstoreAttached => (heldNames state).map .filename ++
      [.frontendWatch state.fe, .frontend state.fe, .backendWatch]
  | .xenevtchnOpen => [.eventChannels state.xeh]
  | .xenforeignmemoryOpen => [.foreignMemory state.xfh]
  | .xendevicemodelOpen => [.deviceModel state.xdh]
  | .xengnttabOpen => [.grantTable state.xgt]
  | .serverRegistered => [.ioreqServer state.xdh state.ioservid]
  | .resourceMapped => [.mapping state.xfh state.resource]
  | .serverEnabled => [.enabledServer state.xdh state.ioservid]
  | .portArrayAllocated =>
      (heldPorts state).map (.port state.xeh) ++ [.portArray state.portArray]
  | .portsBound => []
  | .deviceInitialized => [.device]
  | .initialized => []

def stages : List Seq :=
  [.initialized, .deviceInitialized, .portsBound, .portArrayAllocated, .serverEnabled,
    .resourceMapped, .serverRegistered, .xengnttabOpen, .xendevicemodelOpen,
    .xenforeignmemoryOpen, .xenevtchnOpen, .xenstoreAttached]

def held (state : State) (seq : Seq) : Multiset Resource :=
  (stages.filter (· ≤ seq)).foldr
    (fun stage below => (layer state stage : Multiset Resource) + below) 0

theorem held_next (state : State) {seq : Seq} (more : seq ≠ .initialized) :
    held state seq.next = (layer state seq.next : Multiset Resource) + held state seq := by
  cases seq with
  | initialized => exact absurd rfl more
  | _ => rfl

structure Accounted (state : State) : Prop where
  replayed : replay 0 state.log = some (held state state.seq)
  images : state.filenames.length = maxDiskImages
  closed : state.seq = .uninitialized → state.filenames = List.replicate maxDiskImages 0
  front : state.fe = 0 ↔ state.seq = .uninitialized

/-- The state `main` starts in, and has to be back in before the next connection. -/
structure Idle (state : State) : Prop where
  seq : state.seq = .uninitialized
  closed : state.filenames = List.replicate maxDiskImages 0
  front : state.fe = 0
  settled : Settled state.log

/-- `xenstore_connect_dom` comes to watch both paths. -/
structure Watches (host : Host) : Prop where
  backendState : host.backendState = some xenbusStateInitialising
  frontend : host.frontend ≠ 0
  frontendState : host.frontendState = some xenbusStateInitialising
  watchBackend : host.watchBackend = true
  watchFrontend : host.watchFrontend = true

/-- It waits for the back end and reads the configuration. -/
structure Configured (host : Host) : Prop where
  waitBackend : host.waitBackend = xenbusStateInitWait
  mode : host.mode = true
  base : host.base = true
  irq : host.irq = true
  params : host.params ≠ 0

/-- The answers without which the stage is not reached from the one before. -/
def Answers (host : Host) : Seq → Prop
  | .uninitialized => True
  | .xenstoreAttached => Watches host ∧ Configured host
  | .xenevtchnOpen => host.xeh ≠ 0
  | .xenforeignmemoryOpen => host.xfh ≠ 0
  | .xendevicemodelOpen => host.xdh ≠ 0
  | .xengnttabOpen => host.xgt ≠ 0
  | .serverRegistered => host.vcpus.isSome ∧ host.ioservid.isSome
  | .resourceMapped => host.resource ≠ 0
  | .serverEnabled => host.enabled = true
  | .portArrayAllocated => host.portArray ≠ 0
  | .portsBound => ∀ vcpus ∈ host.vcpus, ∀ i < vcpus, 0 ≤ host.bind i
  | .deviceInitialized => host.device = true
  | .initialized => True

structure Reached (host : Host) (stage : Seq) (state : State) : Prop where
  accounted : Accounted state
  seq : state.seq = stage
  answered : ∀ earlier, earlier ≤ stage → Answers host earlier
  counted : .serverRegistered ≤ stage → host.vcpus = some state.vcpus
  ports : .portsBound ≤ stage → unbound ∉ state.ioreqLocalPort

/-- Where a `goto fail` leaves the state. Only a failed binding leaves an entry
of the port array unbound. -/
structure Stopped (host : Host) (state : State) : Prop where
  accounted : Accounted state
  answered : ∀ earlier, earlier ≤ state.seq → Answers host earlier
  refused : ¬ Answers host state.seq.next
  ports : .portArrayAllocated ≤ state.seq →
    (unbound ∈ state.ioreqLocalPort ↔ state.seq = .portArrayAllocated)

theorem rank_next {seq : Seq} (more : seq ≠ .initialized) : seq.next.rank = seq.rank + 1 := by
  cases seq with
  | initialized => exact absurd rfl more
  | _ => rfl

theorem rank_injective : Function.Injective Seq.rank := by
  intro first second same
  cases first <;> cases second <;> first | rfl | cases same

theorem le_next {seq stage : Seq} (below : stage ≤ seq.next) : stage ≤ seq ∨ stage = seq.next := by
  by_cases last : seq = .initialized
  · subst last
    exact Or.inl below
  · have above : stage.rank ≤ seq.next.rank := below
    rw [rank_next last] at above
    by_cases same : stage.rank = seq.rank + 1
    · exact Or.inr (rank_injective (same.trans (rank_next last).symm))
    · exact Or.inl (Nat.le_of_lt_succ (lt_of_le_of_ne above same))

/-! The steps of `demu_initialize` keep the account. -/

variable {host : Host} {state : State} {stage : Seq}

/-- A field of a later stage is assigned before its call is known to have
succeeded. -/
theorem Reached.assigned {next : State} (reached : Reached host stage state)
    (log : next.log = state.log) (seq : next.seq = state.seq)
    (filenames : next.filenames = state.filenames) (fe : next.fe = state.fe)
    (counted : .serverRegistered ≤ stage → host.vcpus = some next.vcpus)
    (ports : .portsBound ≤ stage → unbound ∉ next.ioreqLocalPort)
    (kept : held next stage = held state stage) : Reached host stage next := by
  have replayed := reached.accounted.replayed
  rw [reached.seq] at replayed
  have stays := seq.trans reached.seq
  refine ⟨⟨?_, ?_, ?_, ?_⟩, stays, reached.answered, counted, ports⟩
  · rw [stays, log, kept]
    exact replayed
  · rw [filenames]
    exact reached.accounted.images
  · rw [seq, filenames]
    exact reached.accounted.closed
  · rw [seq, fe]
    exact reached.accounted.front

theorem Reached.advances (reached : Reached host stage state)
    (inside : stage ≠ .uninitialized ∧ stage ≠ .initialized) (answer : Answers host stage.next) {taken : List Resource}
    (new : (layer state stage.next).Perm taken)
    (counted : .serverRegistered ≤ stage.next → host.vcpus = some state.vcpus)
    (ports : .portsBound ≤ stage.next → unbound ∉ state.ioreqLocalPort) :
    Reached host stage.next (demuSeqNext (acquire state taken)) := by
  have replayed := reached.accounted.replayed
  rw [reached.seq] at replayed
  have grown : (demuSeqNext (acquire state taken)).seq = stage.next :=
    congrArg Seq.next reached.seq
  have later : stage.next ≠ .uninitialized := by
    intro first
    have above := rank_next inside.2
    rw [first] at above
    cases above
  refine ⟨⟨?_, reached.accounted.images, ?_, ?_⟩, grown, ?_, counted, ports⟩
  · rw [grown]
    apply (replay_onward replayed _).trans
    rw [replay_acquisitions, ← Multiset.coe_eq_coe.mpr new]
    exact congrArg some (held_next state inside.2).symm
  · rw [grown]
    exact fun first => absurd first later
  · rw [grown]
    refine iff_of_false (fun none => inside.1 ?_) later
    exact reached.seq.symm.trans (reached.accounted.front.mp none)
  · intro earlier below
    rcases le_next below with before | rfl
    · exact reached.answered earlier before
    · exact answer

theorem Reached.stops (reached : Reached host stage state) (refused : ¬ Answers host stage.next)
    (ports : .portArrayAllocated ≤ stage →
      (unbound ∈ state.ioreqLocalPort ↔ stage = .portArrayAllocated)) : Stopped host state := by
  refine ⟨reached.accounted, ?_, ?_, ?_⟩
  · rw [reached.seq]
    exact reached.answered
  · rw [reached.seq]
    exact refused
  · rw [reached.seq]
    exact ports

/-- A step with one call, whose answer is stored before it is looked at. -/
theorem Reached.attempt {next : State} (reached : Reached host stage next)
    (early : stage ≠ .uninitialized ∧ ¬ .portArrayAllocated ≤ stage) {good : Prop} [Decidable good]
    (answer : Answers host stage.next ↔ good) {taken : List Resource}
    (new : (layer next stage.next).Perm taken)
    (counted : good → .serverRegistered ≤ stage.next → host.vcpus = some next.vcpus) :
    Outcome (Reached host stage.next) (Stopped host)
      (if good then .ok (demuSeqNext (acquire next taken)) else .error next) := by
  have more : stage ≠ .initialized := by
    rintro rfl
    exact early.2 (by decide)
  by_cases holds : good
  · rw [if_pos holds]
    apply reached.advances ⟨early.1, more⟩ (answer.mpr holds) new (counted holds)
    intro bound
    have above : 10 ≤ stage.next.rank := bound
    rw [rank_next more] at above
    exact absurd (Nat.le_of_succ_le_succ above) early.2
  · rw [if_neg holds]
    exact reached.stops (fun answered => holds (answer.mp answered))
      (fun late => absurd late early.2)

theorem Reached.opens {next : State} (reached : Reached host stage next)
    (early : stage ≠ .uninitialized ∧ ¬ .portArrayAllocated ≤ stage) {handle : UInt64}
    (answer : Answers host stage.next ↔ handle ≠ 0) {taken : List Resource}
    (new : (layer next stage.next).Perm taken)
    (counted : .serverRegistered ≤ stage.next → host.vcpus = some next.vcpus) :
    Outcome (Reached host stage.next) (Stopped host)
      (if handle = 0 then .error next else .ok (demuSeqNext (acquire next taken))) := by
  rw [← ite_not]
  exact reached.attempt early answer new (fun _ => counted)

/-! Connecting to the domain. -/

theorem Idle.reached (idle : Idle state) : Reached host .uninitialized state := by
  refine ⟨⟨?_, ?_, fun _ => idle.closed, iff_of_true idle.front idle.seq⟩, idle.seq, ?_, ?_, ?_⟩
  · rw [idle.seq]
    exact idle.settled
  · rw [idle.closed, List.length_replicate]
  · intro earlier below
    cases earlier <;> trivial
  · exact fun late => absurd late (by decide)
  · exact fun late => absurd late (by decide)

/-- What xenstore_disconnect_dom gives back of a state that watches both paths. -/
def watched (fe : UInt64) : List Resource := [.frontendWatch fe, .frontend fe, .backendWatch]

@[simp] theorem disconnect_seq (state : State) :
    (xenstoreDisconnectDom state).seq = state.seq := by
  unfold xenstoreDisconnectDom
  split <;> rfl

@[simp] theorem disconnect_filenames (state : State) :
    (xenstoreDisconnectDom state).filenames = state.filenames := by
  unfold xenstoreDisconnectDom
  split <;> rfl

@[simp] theorem disconnect_fe (state : State) : (xenstoreDisconnectDom state).fe = 0 := by
  unfold xenstoreDisconnectDom
  split
  · rfl
  · rename_i none
    exact not_not.mp none

theorem disconnect_settles (front : state.fe ≠ 0)
    (replayed : replay 0 state.log = some (watched state.fe : Multiset Resource)) :
    Settled (xenstoreDisconnectDom state).log := by
  rw [xenstoreDisconnectDom, if_pos front]
  apply (replay_onward replayed _).trans
  have back := replay_releases 0 (List.Perm.refl (watched state.fe))
  rwa [Multiset.add_zero] at back

/-- A path that was not watched is taken from the watches nevertheless. -/
theorem disconnect_lost {taken : Multiset Resource} (replayed : replay 0 state.log = some taken)
    (missing : state.fe = 0 ∧ .backendWatch ∉ taken ∨
      state.fe ≠ 0 ∧ .frontendWatch state.fe ∉ taken) :
    replay 0 (xenstoreDisconnectDom state).log = none := by
  rcases missing with ⟨none, missing⟩ | ⟨front, missing⟩
  · rw [xenstoreDisconnectDom, if_neg (not_not.mpr none)]
    exact (replay_onward replayed _).trans (replay_missing (List.mem_singleton_self _) missing)
  · rw [xenstoreDisconnectDom, if_pos front]
    exact (replay_onward replayed _).trans (replay_missing List.mem_cons_self missing)

/-- The state in which xenstore_connect_dom waits for the back end. -/
def watchingBoth (host : Host) (state : State) : State :=
  acquire (acquire (acquire { state with fe := host.frontend } [.frontend host.frontend])
    [.backendWatch]) [.frontendWatch host.frontend]

theorem both_watched (watches : Watches host) :
    xenstoreReadFe host state >>= xenstoreWatch host = .ok (watchingBoth host state) := by
  simp [xenstoreReadFe, watches.backendState, watches.frontend, bind, Except.bind, xenstoreWatch,
    watches.frontendState, watches.watchBackend, watches.watchFrontend, watchingBoth, acquire]

theorem watching_both_replayed (settled : Settled state.log) :
    replay 0 (watchingBoth host state).log =
      some (watched host.frontend : Multiset Resource) := by
  have grown : (watchingBoth host state).log = state.log ++
      [.frontend host.frontend, .backendWatch, .frontendWatch host.frontend].map .acquired := by
    simp [watchingBoth, acquire]
  rw [grown, replay_onward settled, replay_acquisitions, Multiset.add_zero]
  apply congrArg some
  apply Multiset.coe_eq_coe.mpr
  have turned : ([.frontend host.frontend, .backendWatch] ++
      [.frontendWatch host.frontend] : List Resource).Perm
        ([.frontendWatch host.frontend] ++ [.frontend host.frontend, .backendWatch]) :=
    List.perm_append_comm
  exact turned

theorem configured_state (configured : Configured host) (state : State) :
    xenstoreConfigure host state = .ok (acquire
      { state with filenames := state.filenames.set 0 host.params } [.filename host.params]) := by
  simp [xenstoreConfigure, configured.waitBackend, demuReadXenstoreConfig, configured.mode,
    configured.base, configured.irq, configured.params]

theorem unconfigured_state (fails : ¬ Configured host) (state : State) :
    xenstoreConfigure host state = .error state := by
  unfold xenstoreConfigure
  split
  · rename_i waits
    unfold demuReadXenstoreConfig
    split
    · rename_i read
      exact absurd ⟨waits, read.1, read.2.1, read.2.2.1, read.2.2.2⟩ fails
    · rfl
  · rfl

theorem xenstore_attached (idle : Idle state) (watches : Watches host)
    (configured : Configured host) : Reached host .xenstoreAttached (demuSeqNext (acquire
      { watchingBoth host state with filenames := state.filenames.set 0 host.params }
      [.filename host.params])) := by
  have attached : state.seq.next = .xenstoreAttached := congrArg Seq.next idle.seq
  have named : state.filenames.set 0 host.params =
      host.params :: List.replicate (maxDiskImages - 1) 0 := by
    rw [idle.closed]
    rfl
  refine ⟨⟨?_, ?_, ?_, ?_⟩, attached, ?_, ?_, ?_⟩
  · apply (replay_onward (watching_both_replayed idle.settled) _).trans
    rw [replay_acquisitions]
    apply congrArg some
    have content (later : State) (names : later.filenames = state.filenames.set 0 host.params)
        (fe : later.fe = host.frontend) (seq : later.seq = .xenstoreAttached) :
        held later later.seq = (.filename host.params :: watched host.frontend : List Resource) := by
      have kept : heldNames later = [host.params] := by
        rw [heldNames, names, named]
        simp [configured.params, maxDiskImages, List.replicate]
      have first := held_next later (by decide : Seq.uninitialized ≠ .initialized)
      rw [seq]
      refine first.trans ?_
      rw [Seq.next, layer, kept, fe]
      exact Multiset.add_zero _
    exact (content _ rfl rfl attached).symm
  · exact List.length_set.trans (by rw [idle.closed, List.length_replicate])
  · intro first
    exact absurd (attached.symm.trans first) (by decide)
  · refine iff_of_false watches.frontend fun first => ?_
    exact absurd (attached.symm.trans first) (by decide)
  · intro earlier below
    cases earlier <;> trivial
  · exact fun late => absurd late (by decide)
  · exact fun late => absurd late (by decide)

theorem xenstore_reached (idle : Idle state) (watches : Watches host) :
    Outcome (Reached host .xenstoreAttached) (Stopped host) (xenstoreConnectDom host state) := by
  rw [xenstoreConnectDom, both_watched watches]
  by_cases configured : Configured host
  · simp only [bind, Except.bind, configured_state configured]
    exact xenstore_attached idle watches configured
  · simp only [bind, Except.bind, unconfigured_state configured]
    have back : Idle (xenstoreDisconnectDom (watchingBoth host state)) := by
      refine ⟨?_, ?_, disconnect_fe _, ?_⟩
      · exact (disconnect_seq _).trans idle.seq
      · exact (disconnect_filenames _).trans idle.closed
      · exact disconnect_settles watches.frontend (watching_both_replayed idle.settled)
    exact back.reached.stops (fun answered => configured answered.2)
      (fun late => absurd late (by decide))

/-- A connection that is refused before both paths are watched. -/
structure Overreleased (state : State) : Prop where
  seq : state.seq = .uninitialized
  lost : replay 0 state.log = none

theorem xenstore_overreleased (idle : Idle state) (refused : ¬ Watches host) :
    ∃ final, xenstoreConnectDom host state = .error final ∧ Overreleased final := by
  have seq (later : State) (same : later.seq = state.seq) :
      (xenstoreDisconnectDom later).seq = .uninitialized :=
    (disconnect_seq later).trans (same.trans idle.seq)
  by_cases read : host.backendState = some xenbusStateInitialising ∧ host.frontend ≠ 0
  case neg =>
    have stopped : xenstoreReadFe host state = .error state := by
      unfold xenstoreReadFe
      split
      · rename_i same
        exact if_pos (by_contra fun front => read ⟨same, front⟩)
      · rfl
    refine ⟨_, by rw [xenstoreConnectDom, stopped]; rfl, seq state rfl, ?_⟩
    exact disconnect_lost idle.settled (.inl ⟨idle.front, Multiset.notMem_zero _⟩)
  case pos =>
    obtain ⟨same, front⟩ := read
    let opened := acquire { state with fe := host.frontend } [.frontend host.frontend]
    have reads : xenstoreReadFe host state = .ok opened := by
      rw [xenstoreReadFe, if_pos same, if_neg front]
    have held := replay_onward idle.settled [.acquired (.frontend host.frontend)]
    by_cases first : host.frontendState = some xenbusStateInitialising ∧ host.watchBackend = true
    case neg =>
      have stopped : xenstoreWatch host opened = .error opened := by
        unfold xenstoreWatch
        split
        · rename_i ready
          exact if_neg fun watch => first ⟨ready, watch⟩
        · rfl
      refine ⟨_, ?_, seq opened rfl, ?_⟩
      · rw [xenstoreConnectDom, reads]
        simp only [bind, Except.bind, stopped]
      · exact disconnect_lost held (.inr ⟨front, by simp⟩)
    case pos =>
      have second : ¬ host.watchFrontend = true := fun watch =>
        refused ⟨same, front, first.1, first.2, watch⟩
      have stopped : xenstoreWatch host opened = .error (acquire opened [.backendWatch]) := by
        rw [xenstoreWatch, if_pos first.1, if_pos first.2]
        exact if_neg second
      refine ⟨_, ?_, seq (acquire opened [.backendWatch]) rfl, ?_⟩
      · rw [xenstoreConnectDom, reads]
        simp only [bind, Except.bind, stopped]
      · have both := replay_onward held [.acquired .backendWatch]
        exact disconnect_lost both (.inr ⟨front, by simp⟩)

theorem xenevtchn_reached (reached : Reached host .xenstoreAttached state) :
    Outcome (Reached host .xenevtchnOpen) (Stopped host) (xenevtchnOpen host state) := by
  have assigned : Reached host .xenstoreAttached { state with xeh := host.xeh } :=
    reached.assigned rfl rfl rfl rfl reached.counted reached.ports rfl
  have answer : Answers host .xenevtchnOpen ↔ host.xeh ≠ 0 := Iff.rfl
  exact assigned.opens (by decide) answer (List.Perm.refl _) (fun late => absurd late (by decide))

theorem xenforeignmemory_reached (reached : Reached host .xenevtchnOpen state) :
    Outcome (Reached host .xenforeignmemoryOpen) (Stopped host)
      (xenforeignmemoryOpen host state) := by
  have assigned : Reached host .xenevtchnOpen { state with xfh := host.xfh } :=
    reached.assigned rfl rfl rfl rfl reached.counted reached.ports rfl
  have answer : Answers host .xenforeignmemoryOpen ↔ host.xfh ≠ 0 := Iff.rfl
  exact assigned.opens (by decide) answer (List.Perm.refl _) (fun late => absurd late (by decide))

theorem xendevicemodel_reached (reached : Reached host .xenforeignmemoryOpen state) :
    Outcome (Reached host .xendevicemodelOpen) (Stopped host) (xendevicemodelOpen host state) := by
  have assigned : Reached host .xenforeignmemoryOpen { state with xdh := host.xdh } :=
    reached.assigned rfl rfl rfl rfl reached.counted reached.ports rfl
  have answer : Answers host .xendevicemodelOpen ↔ host.xdh ≠ 0 := Iff.rfl
  exact assigned.opens (by decide) answer (List.Perm.refl _) (fun late => absurd late (by decide))

theorem xengnttab_reached (reached : Reached host .xendevicemodelOpen state) :
    Outcome (Reached host .xengnttabOpen) (Stopped host) (xengnttabOpen host state) := by
  have assigned : Reached host .xendevicemodelOpen { state with xgt := host.xgt } :=
    reached.assigned rfl rfl rfl rfl reached.counted reached.ports rfl
  have answer : Answers host .xengnttabOpen ↔ host.xgt ≠ 0 := Iff.rfl
  exact assigned.opens (by decide) answer (List.Perm.refl _) (fun late => absurd late (by decide))

theorem server_reached (reached : Reached host .xengnttabOpen state) :
    Outcome (Reached host .serverRegistered) (Stopped host) (registerServer host state) := by
  have early : ¬ .serverRegistered ≤ Seq.xengnttabOpen := by decide
  rw [registerServer]
  cases counted : host.vcpus with
  | none =>
      apply reached.stops
      · intro answered
        exact absurd answered.1 (by simp [counted])
      · exact fun late => absurd late (by decide)
  | some vcpus =>
      have sized : Reached host .xengnttabOpen { state with vcpus := vcpus } :=
        reached.assigned rfl rfl rfl rfl (fun late => absurd late early) reached.ports rfl
      cases registered : host.ioservid with
      | none =>
          apply sized.stops
          · intro answered
            exact absurd answered.2 (by simp [registered])
          · exact fun late => absurd late (by decide)
      | some ioservid =>
          have assigned : Reached host .xengnttabOpen
              { state with vcpus := vcpus, ioservid := ioservid } :=
            sized.assigned rfl rfl rfl rfl (fun late => absurd late early) reached.ports rfl
          have answer : Answers host .serverRegistered := by
            constructor
            · rw [counted]
              rfl
            · rw [registered]
              rfl
          exact assigned.advances (by decide) answer (List.Perm.refl _) (fun _ => counted)
            (fun late => absurd late (by decide))

theorem resource_reached (reached : Reached host .serverRegistered state) :
    Outcome (Reached host .resourceMapped) (Stopped host) (mapResource host state) := by
  have assigned : Reached host .serverRegistered { state with resource := host.resource } :=
    reached.assigned rfl rfl rfl rfl reached.counted reached.ports rfl
  have answer : Answers host .resourceMapped ↔ host.resource ≠ 0 := Iff.rfl
  exact assigned.opens (by decide) answer (List.Perm.refl _) (fun _ => reached.counted (by decide))

theorem enabled_reached (reached : Reached host .resourceMapped state) :
    Outcome (Reached host .serverEnabled) (Stopped host) (enableServer host state) := by
  have answer : Answers host .serverEnabled ↔ host.enabled = true := Iff.rfl
  exact reached.attempt (by decide) answer (List.Perm.refl _)
    (fun _ _ => reached.counted (by decide))

theorem held_bound {bound : List UInt32} (valid : unbound ∉ bound) (remaining : Nat) :
    (bound ++ List.replicate remaining unbound).filter (· ≠ unbound) = bound := by
  have kept : bound.filter (· ≠ unbound) = bound := by
    apply List.filter_eq_self.mpr
    intro port member
    exact decide_eq_true fun same => valid (same ▸ member)
  rw [List.filter_append, kept]
  simp

/-- Every entry is -1 before the first binding. -/
theorem port_array_reached (reached : Reached host .serverEnabled state) :
    Outcome (fun next => Reached host .portArrayAllocated next ∧
        next.ioreqLocalPort = List.replicate next.vcpus unbound)
      (Stopped host) (allocPortArray host state) := by
  have assigned : Reached host .serverEnabled { state with portArray := host.portArray } :=
    reached.assigned rfl rfl rfl rfl reached.counted reached.ports rfl
  by_cases missing : host.portArray = 0
  · rw [allocPortArray, if_pos missing]
    apply assigned.stops
    · exact fun answered => answered missing
    · exact fun late => absurd late (by decide)
  · have filled : Reached host .serverEnabled
        { state with
          portArray := host.portArray
          ioreqLocalPort := List.replicate state.vcpus unbound } :=
      assigned.assigned rfl rfl rfl rfl reached.counted (fun late => absurd late (by decide)) rfl
    rw [allocPortArray, if_neg missing]
    refine ⟨filled.advances (by decide) missing ?_ (fun _ => reached.counted (by decide))
      (fun late => absurd late (by decide)), rfl⟩
    have empty : (List.replicate state.vcpus unbound).filter (· ≠ unbound) = [] :=
      held_bound List.not_mem_nil state.vcpus
    rw [Seq.next, layer, heldPorts, empty]
    exact List.Perm.refl _

/-! The ports. Those that are bound come first in the array. -/

structure Binding (host : Host) (bound : List UInt32) (remaining : Nat) (state : State) : Prop where
  reached : Reached host .portArrayAllocated state
  ports : state.ioreqLocalPort = bound ++ List.replicate remaining unbound
  valid : unbound ∉ bound
  counted : bound.length + remaining = state.vcpus
  answered : ∀ i, i < bound.length → 0 ≤ host.bind i

theorem bound_port {rc : Int32} (positive : ¬ rc < 0) : rc.toUInt32 ≠ unbound := by
  intro same
  have minus : rc = Int32.ofUInt32 unbound := by rw [← same]
  apply positive
  rw [minus]
  decide

theorem held_ports (state : State) : held state .portArrayAllocated =
    (((heldPorts state).map (Resource.port state.xeh) : List Resource) : Multiset Resource) +
      (.portArray state.portArray ::ₘ held state .serverEnabled) := by
  have more : Seq.serverEnabled ≠ .initialized := by decide
  apply (held_next state more).trans
  rw [Seq.next, layer, ← Multiset.coe_add, Multiset.add_assoc]
  rfl

theorem bind_port_binding {bound : List UInt32} {remaining : Nat}
    (binding : Binding host bound (remaining + 1) state) :
    Outcome (Binding host (bound ++ [(host.bind bound.length).toUInt32]) remaining) (Stopped host)
      (bindPort host state bound.length) := by
  rw [bindPort]
  by_cases failed : host.bind bound.length < 0
  · rw [if_pos failed]
    apply binding.reached.stops
    · intro answered
      have inside : bound.length < state.vcpus := by
        rw [← binding.counted]
        omega
      exact absurd failed (Int32.not_lt.mpr
        (answered state.vcpus (binding.reached.counted (by decide)) bound.length inside))
    · intro late
      refine iff_of_true ?_ rfl
      rw [binding.ports, List.replicate_succ]
      exact List.mem_append_right bound List.mem_cons_self
  · rw [if_neg failed]
    have stored : state.ioreqLocalPort.set bound.length (host.bind bound.length).toUInt32 =
        (bound ++ [(host.bind bound.length).toUInt32]) ++ List.replicate remaining unbound := by
      rw [binding.ports, List.set_append_right _ _ (Nat.le_refl _), Nat.sub_self,
        List.replicate_succ, List.set_cons_zero, List.append_assoc, List.singleton_append]
    have valid : unbound ∉ bound ++ [(host.bind bound.length).toUInt32] := by
      simp only [List.mem_append, List.mem_singleton, not_or]
      exact ⟨binding.valid, Ne.symm (bound_port failed)⟩
    have stays := binding.reached.seq
    have replayed := binding.reached.accounted.replayed
    have before : heldPorts state = bound := by
      rw [heldPorts, binding.ports]
      exact held_bound binding.valid _
    rw [stays, held_ports, before] at replayed
    refine ⟨⟨⟨?_, binding.reached.accounted.images, ?_, binding.reached.accounted.front⟩, stays,
      binding.reached.answered, binding.reached.counted, fun late => absurd late (by decide)⟩,
      stored, valid, ?_, ?_⟩
    · apply (replay_onward replayed _).trans
      apply congrArg some
      apply Eq.trans _ (congrArg (held _) stays.symm)
      have after : heldPorts { state with
          ioreqLocalPort := state.ioreqLocalPort.set bound.length
            (host.bind bound.length).toUInt32 } = bound ++ [(host.bind bound.length).toUInt32] := by
        rw [heldPorts, stored]
        exact held_bound valid _
      rw [held_ports]
      apply Eq.symm
      apply (congrArg (fun ports : List UInt32 =>
        ((ports.map (Resource.port state.xeh) : List Resource) : Multiset Resource) +
          (.portArray state.portArray ::ₘ held state .serverEnabled)) after).trans
      rw [List.map_append, ← Multiset.coe_add, Multiset.add_assoc]
      rw [List.map_singleton, Multiset.coe_singleton, Multiset.singleton_add]
      exact Multiset.add_cons _ _ _
    · intro first
      exact absurd (stays.symm.trans first) (by decide)
    · apply Eq.trans _ binding.counted
      rw [List.length_append, List.length_singleton, Nat.add_assoc, Nat.add_comm 1]
    · intro i inside
      rw [List.length_append, List.length_singleton] at inside
      rcases Nat.lt_succ_iff_lt_or_eq.mp inside with earlier | rfl
      · exact binding.answered i earlier
      · exact Int32.not_lt.mp failed

theorem bind_loop_binding (remaining : Nat) {bound : List UInt32}
    (binding : Binding host bound remaining state) :
    Outcome (fun next => ∃ bound, Binding host bound 0 next) (Stopped host)
      ((List.range' bound.length remaining).foldlM (bindPort host) state) := by
  induction remaining generalizing bound state with
  | zero => exact ⟨bound, binding⟩
  | succ remaining ih =>
      rw [List.range'_succ, List.foldlM_cons]
      apply (bind_port_binding binding).bind
      intro next later
      have tail := ih later
      rwa [List.length_append, List.length_singleton] at tail

theorem ports_reached (reached : Reached host .portArrayAllocated state)
    (fresh : state.ioreqLocalPort = List.replicate state.vcpus unbound) :
    Outcome (Reached host .portsBound) (Stopped host) (bindPorts host state) := by
  have start : Binding host [] state.vcpus state :=
    ⟨reached, fresh, List.not_mem_nil, Nat.zero_add _,
      fun i inside => absurd inside (Nat.not_lt_zero i)⟩
  rw [bindPorts, List.range_eq_range']
  apply (bind_loop_binding state.vcpus start).bind
  rintro next ⟨bound, binding⟩
  have ports : next.ioreqLocalPort = bound := binding.ports.trans (List.append_nil bound)
  have counted : host.vcpus = some next.vcpus := binding.reached.counted (by decide)
  have answer : Answers host .portsBound := by
    intro vcpus given i inside
    apply binding.answered i
    rw [counted] at given
    cases given
    exact Nat.lt_of_lt_of_eq inside binding.counted.symm
  have whole := binding.reached.advances (by decide) answer (List.Perm.refl _)
    (fun _ => counted) (fun _ member => binding.valid (ports ▸ member))
  have same : demuSeqNext next = demuSeqNext (acquire next []) := by
    rw [acquire, List.map_nil, List.append_nil]
  exact same ▸ whole

theorem device_reached (reached : Reached host .portsBound state) :
    Outcome (Reached host .initialized) (Stopped host) (initializeDevice host state) := by
  have counted := reached.counted (by decide)
  have ports := reached.ports (by decide)
  rw [initializeDevice]
  by_cases answer : host.device = true
  · rw [if_pos answer]
    have device : Reached host .deviceInitialized (demuSeqNext (acquire state [.device])) :=
      reached.advances (by decide) answer (List.Perm.refl _) (fun _ => counted) (fun _ => ports)
    have last := device.advances (by decide) trivial (List.Perm.refl _) (fun _ => counted)
      (fun _ => ports)
    have same : demuSeqNext (demuSeqNext (acquire state [.device])) =
        demuSeqNext (acquire (demuSeqNext (acquire state [.device])) []) := by
      simp [acquire, demuSeqNext]
    exact same ▸ last
  · rw [if_neg answer]
    exact reached.stops answer (fun _ => iff_of_false ports (by decide))

/-- Once both paths are watched, `demu_initialize` stops at the first stage that the host
does not answer. -/
theorem initialize_reached (idle : Idle state) (watches : Watches host) :
    Outcome (Reached host .initialized) (Stopped host) (demuInitialize host state) := by
  apply (xenstore_reached idle watches).bind
  intro state reached
  apply (xenevtchn_reached reached).bind
  intro state reached
  apply (xenforeignmemory_reached reached).bind
  intro state reached
  apply (xendevicemodel_reached reached).bind
  intro state reached
  apply (xengnttab_reached reached).bind
  intro state reached
  apply (server_reached reached).bind
  intro state reached
  apply (resource_reached reached).bind
  intro state reached
  apply (enabled_reached reached).bind
  intro state reached
  apply (port_array_reached reached).bind
  rintro state ⟨reached, fresh⟩
  apply (ports_reached reached fresh).bind
  intro state reached
  exact device_reached reached

/-! Every block of the teardown gives back the uppermost stage that is held. -/

structure Under (stage : Seq) (state : State) : Prop where
  accounted : Accounted state
  below : state.seq ≤ stage
  ports : .portArrayAllocated ≤ state.seq → unbound ∉ state.ioreqLocalPort

theorem stage_left {test : Bool} {back : List Resource} {down : Seq}
    (inside : down ≠ .uninitialized ∧ down ≠ .initialized)
    (same : test = true ↔ state.seq = down.next)
    (content : state.seq = down.next → (layer state down.next).Perm back)
    (under : Under down.next state) : Under down (leaveStage test back down state) := by
  obtain ⟨accounted, below, ports⟩ := under
  rw [leaveStage]
  by_cases top : state.seq = down.next
  · rw [if_pos (same.mpr top)]
    have attached : state.seq ≠ .uninitialized := by
      rw [top]
      intro first
      have above := rank_next inside.2
      rw [first] at above
      cases above
    refine ⟨⟨?_, accounted.images, fun first => absurd first inside.1, ?_⟩, Nat.le_refl _, ?_⟩
    rotate_left
    · exact iff_of_false (fun none => attached (accounted.front.mp none)) inside.1
    · intro reached
      apply ports
      rw [top]
      exact Nat.le_trans reached (rank_next inside.2 ▸ Nat.le_succ _)
    have replayed := accounted.replayed
    rw [top, held_next state inside.2, Multiset.coe_eq_coe.mpr (content top)] at replayed
    apply (replay_onward replayed _).trans
    exact replay_releases (held state down) (List.Perm.refl back)
  · rw [if_neg (fun holds => top (same.mp holds))]
    rcases le_next below with under | same
    · exact ⟨accounted, under, ports⟩
    · exact absurd same top

theorem at_least {seq stage : Seq} (below : seq ≤ stage) :
    decide (stage ≤ seq) = true ↔ seq = stage := by
  rw [decide_eq_true_iff]
  constructor
  · intro above
    exact rank_injective (Nat.le_antisymm below above)
  · rintro rfl
    exact Nat.le_refl _

theorem unbind_ports (valid : unbound ∉ state.ioreqLocalPort) :
    unbindPorts state = (heldPorts state).map (.port state.xeh) := by
  have bound : heldPorts state = state.ioreqLocalPort := by
    apply List.filter_eq_self.mpr
    intro port member
    exact decide_eq_true fun same => valid (same ▸ member)
  rw [unbindPorts, bound, List.filter_eq_self.mpr]
  exact fun port _ => decide_eq_true (UInt32.zero_le)

theorem below_initialized (seq : Seq) : seq ≤ .initialized := by
  cases seq <;> decide

theorem initialized_left (under : Under .initialized state) :
    Under .deviceInitialized (leaveInitialized state) :=
  stage_left (by decide) decide_eq_true_iff (fun _ => List.Perm.refl _) under

theorem device_left (under : Under .deviceInitialized state) :
    Under .portsBound (leaveDeviceInitialized state) :=
  stage_left (by decide) decide_eq_true_iff (fun _ => List.Perm.refl _) under

theorem ports_left (under : Under .portsBound state) :
    Under .portArrayAllocated (leavePortsBound state) :=
  stage_left (by decide) (at_least under.below) (fun _ => List.Perm.refl _) under

theorem port_array_left (under : Under .portArrayAllocated state) :
    Under .serverEnabled (leavePortArray state) := by
  have content (top : state.seq = .portArrayAllocated) :
      (layer state .portArrayAllocated).Perm
        (unbindPorts state ++ [.portArray state.portArray]) := by
    rw [unbind_ports (under.ports (by rw [top]; decide))]
    exact List.Perm.refl _
  exact stage_left (by decide) (at_least under.below) content under

theorem enabled_left (under : Under .serverEnabled state) :
    Under .resourceMapped (leaveServerEnabled state) :=
  stage_left (by decide) decide_eq_true_iff (fun _ => List.Perm.refl _) under

theorem resource_left (under : Under .resourceMapped state) :
    Under .serverRegistered (leaveResourceMapped state) :=
  stage_left (by decide) (at_least under.below) (fun _ => List.Perm.refl _) under

theorem server_left (under : Under .serverRegistered state) :
    Under .xengnttabOpen (leaveServerRegistered state) :=
  stage_left (by decide) (at_least under.below) (fun _ => List.Perm.refl _) under

theorem xengnttab_left (under : Under .xengnttabOpen state) :
    Under .xendevicemodelOpen (leaveXengnttab state) :=
  stage_left (by decide) (at_least under.below) (fun _ => List.Perm.refl _) under

theorem xendevicemodel_left (under : Under .xendevicemodelOpen state) :
    Under .xenforeignmemoryOpen (leaveXendevicemodel state) :=
  stage_left (by decide) (at_least under.below) (fun _ => List.Perm.refl _) under

theorem xenforeignmemory_left (under : Under .xenforeignmemoryOpen state) :
    Under .xenevtchnOpen (leaveXenforeignmemory state) :=
  stage_left (by decide) (at_least under.below) (fun _ => List.Perm.refl _) under

theorem xenevtchn_left (under : Under .xenevtchnOpen state) :
    Under .xenstoreAttached (leaveXenevtchn state) :=
  stage_left (by decide) (at_least under.below) (fun _ => List.Perm.refl _) under

theorem xenstore_left (under : Under .xenstoreAttached state) : Idle (leaveXenstore state) := by
  obtain ⟨accounted, below, _⟩ := under
  have replayed := accounted.replayed
  rw [leaveXenstore]
  rcases @le_next .uninitialized _ below with none | attached
  · have first : state.seq = .uninitialized := rank_injective (Nat.le_zero.mp none)
    rw [first] at replayed
    rw [if_neg (by rw [first]; decide)]
    exact ⟨first, accounted.closed first, accounted.front.mpr first, replayed⟩
  · rw [if_pos (by rw [attached]; decide)]
    have front : state.fe ≠ 0 := by
      intro none
      exact absurd (attached.symm.trans (accounted.front.mp none)) (by decide)
    refine ⟨rfl, ?_, disconnect_fe _, ?_⟩
    · rw [← accounted.images]
      exact (disconnect_filenames _).trans List.map_const'
    · show Settled (xenstoreDisconnectDom (freeFilenames state)).log
      refine disconnect_settles front ?_
      have content : held state state.seq =
          ((heldNames state).map Resource.filename : List Resource) +
            (watched state.fe : Multiset Resource) := by
        have first := held_next state (by decide : Seq.uninitialized ≠ .initialized)
        rw [attached]
        refine first.trans ?_
        rw [Seq.next, layer, ← Multiset.coe_add]
        exact Multiset.add_zero _
      rw [content] at replayed
      apply (replay_onward replayed _).trans
      exact replay_releases _ (List.Perm.refl _)

/-- The teardown settles the account from any stage, when every entry of a
port array is a port. -/
theorem teardown_idle (accounted : Accounted state)
    (valid : .portArrayAllocated ≤ state.seq → unbound ∉ state.ioreqLocalPort) :
    Idle (demuTeardown state) := by
  have upper := device_left (initialized_left ⟨accounted, below_initialized _, valid⟩)
  have array := port_array_left (ports_left upper)
  have server := server_left (resource_left (enabled_left array))
  exact xenstore_left (xenevtchn_left (xenforeignmemory_left (xendevicemodel_left
    (xengnttab_left server))))

/-! A port array with an entry that was not bound. -/

theorem mem_layers {r : Resource} {some : List Seq}
    (member : r ∈ some.foldr
      (fun stage below => (layer state stage : Multiset Resource) + below) 0) :
    ∃ stage, r ∈ layer state stage := by
  induction some with
  | nil => simp at member
  | cons stage rest ih =>
      rcases Multiset.mem_add.mp member with here | below
      · exact ⟨stage, Multiset.mem_coe.mp here⟩
      · exact ih below

theorem unbound_missing (state : State) (seq : Seq) :
    Resource.port state.xeh unbound ∉ held state seq := by
  intro member
  obtain ⟨stage, inside⟩ := mem_layers member
  cases stage <;> simp [layer, heldPorts] at inside

theorem leave_stage_lost {test : Bool} {back : List Resource} {down : Seq}
    (lost : replay 0 state.log = none) : replay 0 (leaveStage test back down state).log = none := by
  rw [leaveStage]
  split
  · exact replay_lost lost _
  · exact lost

theorem xenstore_lost (lost : replay 0 state.log = none) :
    replay 0 (leaveXenstore state).log = none := by
  have disconnected (later : State) (lost : replay 0 later.log = none) :
      replay 0 (xenstoreDisconnectDom later).log = none := by
    rw [xenstoreDisconnectDom]
    split
    · exact replay_lost lost _
    · exact replay_lost lost _
  rw [leaveXenstore]
  split
  · exact disconnected _ (replay_lost lost _)
  · exact lost

theorem leave_stage_kept {test : Bool} {back : List Resource} {down : Seq}
    (below : test = false) : leaveStage test back down state = state := by
  rw [leaveStage, below]
  rfl

theorem port_array_lost (accounted : Accounted state) (reached : state.seq = .portArrayAllocated)
    (missed : unbound ∈ state.ioreqLocalPort) : replay 0 (leavePortArray state).log = none := by
  have replayed := accounted.replayed
  rw [reached] at replayed
  have named : Resource.port state.xeh unbound ∈
      unbindPorts state ++ [.portArray state.portArray] := by
    apply List.mem_append_left
    apply List.mem_map_of_mem
    exact List.mem_filter.mpr ⟨missed, rfl⟩
  rw [leavePortArray, leaveStage, if_pos (by rw [reached]; decide)]
  apply (replay_onward replayed _).trans
  exact replay_missing named (unbound_missing state _)

theorem teardown_lost (accounted : Accounted state) (reached : state.seq = .portArrayAllocated)
    (missed : unbound ∈ state.ioreqLocalPort) : ¬ Idle (demuTeardown state) := by
  intro idle
  have untouched : leavePortsBound (leaveDeviceInitialized (leaveInitialized state)) = state := by
    have initialized : leaveInitialized state = state := leave_stage_kept (by rw [reached]; rfl)
    have device : leaveDeviceInitialized state = state := leave_stage_kept (by rw [reached]; rfl)
    rw [initialized, device]
    exact leave_stage_kept (by rw [reached]; rfl)
  have lost : replay 0 (demuTeardown state).log = none := by
    rw [demuTeardown, untouched]
    apply xenstore_lost
    iterate 7 apply leave_stage_lost
    exact port_array_lost accounted reached missed
  have settled : replay 0 (demuTeardown state).log = some 0 := idle.settled
  rw [lost] at settled
  cases settled

theorem Overreleased.unsettled (refused : Overreleased state) : ¬ Idle (demuTeardown state) := by
  intro idle
  have lost : replay 0 (demuTeardown state).log = none := by
    rw [demuTeardown]
    apply xenstore_lost
    iterate 11 apply leave_stage_lost
    exact refused.lost
  have settled : replay 0 (demuTeardown state).log = some 0 := idle.settled
  rw [lost] at settled
  cases settled

/-- Everything up to the port array succeeds, and then a binding does not. -/
def BindingFails (host : Host) : Prop :=
  (∀ stage, stage ≤ .portArrayAllocated → Answers host stage) ∧ ¬ Answers host .portsBound

theorem cycle_watching_iff (idle : Idle state) (watches : Watches host) :
    Idle (cycle host state) ↔ ¬ BindingFails host := by
  have ended : Outcome (Reached host .initialized) (Stopped host) (demuInitialize host state) :=
    initialize_reached idle watches
  rw [cycle]
  cases result : demuInitialize host state with
  | ok final =>
      rw [result] at ended
      have reached : Reached host .initialized final := ended
      apply iff_of_true
      · exact teardown_idle reached.accounted (fun _ => reached.ports (by decide))
      · exact fun fails => fails.2 (reached.answered .portsBound (by decide))
  | error final =>
      rw [result] at ended
      have stopped : Stopped host final := ended
      by_cases binding : final.seq = .portArrayAllocated
      · have missed := (stopped.ports (by rw [binding]; decide)).mpr binding
        apply iff_of_false
        · exact teardown_lost stopped.accounted binding missed
        · rw [not_not]
          refine ⟨?_, ?_⟩
          · rw [← binding]
            exact stopped.answered
          · have refused := stopped.refused
            rwa [binding] at refused
      · apply iff_of_true
        · apply teardown_idle stopped.accounted
          intro late missed
          exact binding ((stopped.ports late).mp missed)
        · rintro ⟨early, failed⟩
          rcases Nat.lt_trichotomy final.seq.rank Seq.portArrayAllocated.rank with
            below | same | above
          · have more : final.seq ≠ .initialized := by
              intro last
              rw [last] at below
              exact absurd below (by decide)
            have reachable : final.seq.next.rank ≤ Seq.portArrayAllocated.rank := by
              rw [rank_next more]
              exact below
            exact stopped.refused (early final.seq.next reachable)
          · exact binding (rank_injective same)
          · exact failed (stopped.answered .portsBound above)

/-- `demu_initialize` followed by `demu_teardown` settles what was acquired, wherever it
stops, but for a connection that is refused before both paths are watched and for a
failed binding: then paths are taken from the watches that are not among them, and
-1 is unbound. -/
theorem cycle_idle_iff (host : Host) (state : State) (idle : Idle state) :
    Idle (cycle host state) ↔ Watches host ∧ ¬ BindingFails host := by
  by_cases watches : Watches host
  · exact (cycle_watching_iff idle watches).trans (iff_and_self.mpr fun _ => watches)
  · obtain ⟨final, stopped, refused⟩ := xenstore_overreleased idle watches
    have failed : demuInitialize host state = .error final := by
      simp [demuInitialize, stopped, bind, Except.bind]
    rw [cycle, failed]
    exact iff_of_false refused.unsettled fun both => watches both.1

/-- Nothing is open, and nothing was yet. -/
def fresh : State where
  seq := .uninitialized
  fe := 0
  xeh := 0
  xfh := 0
  xdh := 0
  xgt := 0
  vcpus := 0
  ioservid := 0
  resource := 0
  portArray := 0
  ioreqLocalPort := []
  filenames := List.replicate maxDiskImages 0
  log := []

/-- A domain with two vCPUs, for which everything succeeds. -/
def twoVcpus : Host where
  backendState := some xenbusStateInitialising
  frontend := 0x8
  frontendState := some xenbusStateInitialising
  watchBackend := true
  watchFrontend := true
  waitBackend := xenbusStateInitWait
  mode := true
  base := true
  irq := true
  params := 0x10
  xeh := 0x20
  xfh := 0x30
  xdh := 0x40
  xgt := 0x50
  vcpus := some 2
  ioservid := some 1
  resource := 0x60
  enabled := true
  portArray := 0x70
  bind := fun i => if i = 0 then 5 else 6
  device := true

theorem fresh_idle : Idle fresh := ⟨rfl, rfl, rfl, rfl⟩

theorem cycle_two_vcpus :
    Idle (cycle twoVcpus fresh) ↔ Watches twoVcpus ∧ ¬ BindingFails twoVcpus :=
  cycle_idle_iff twoVcpus fresh fresh_idle

/-- The second vCPU cannot be bound: its entry of the array is still -1. -/
def secondRefused : Host := { twoVcpus with bind := fun i => if i = 0 then 5 else -1 }

theorem second_port_unbound : Idle fresh ∧ ¬ Idle (cycle secondRefused fresh) ∧
    Entry.released (Resource.port 0x20 0xffffffff) ∈ (cycle secondRefused fresh).log ∧
    Entry.acquired (Resource.port 0x20 0xffffffff) ∉ (cycle secondRefused fresh).log := by
  refine ⟨fresh_idle, ?_, ?_, ?_⟩
  · rintro ⟨_, _, _, settled⟩
    exact absurd settled (by decide)
  · decide
  · decide

end VirtioDisk.DemuSequence
