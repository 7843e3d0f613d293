import Mathlib.Logic.Function.Basic
import Mathlib.Data.List.Flatten
import Mathlib.Data.List.Range
import VirtioDisk.Transition

/-!
vCPUs that issue I/O requests, and the server loop that takes them. Every access
to the shared page and every event is a step of its own, taken in some
sequentially consistent order (xen_mb). A port keeps its event until it is fetched;
the fetch masks the port. `issued`, `issuing` and `trace` are ghost state.
-/

namespace VirtioDisk.IoreqHandshake

open Transition

/-- The states of an `ioreq_t` that the two sides agree on. -/
inductive IoreqState where
  | none
  | ready
  | inprocess
  | respReady
  deriving DecidableEq

/-- A slot of the shared page. `id` stands for what is asked: the requests of a
vCPU are numbered as they are issued. -/
structure Ioreq where
  state : IoreqState
  id : Nat

structure Request where
  vcpu : Nat
  id : Nat
  deriving DecidableEq

/-- What the server does: `demu_handle_ioreq` is called and returns, the response is
published, the event is sent. -/
inductive Entry where
  | called (r : Request)
  | returned (r : Request)
  | responded (r : Request)
  | notified (port : UInt32)
  deriving DecidableEq

/-- Where the server is: outside `demu_poll_iopages`, at vCPU `i` of its loop over
the fetched port, or in `demu_poll_shared_iopage` for that vCPU. -/
inductive Server where
  | idle
  | scanning (port : UInt32) (i : Nat)
  | polling (port : UInt32) (i : Nat)
  | accepted (port : UInt32) (i : Nat)
  | marked (port : UInt32) (i : Nat)
  | handling (port : UInt32) (r : Request)
  | handled (port : UInt32) (r : Request)
  | responded (port : UInt32) (r : Request)
  deriving DecidableEq

structure State where
  ioreq : Nat → Ioreq
  pending : UInt32 → Bool
  masked : UInt32 → Bool
  server : Server
  issued : Nat → Nat
  issuing : Nat → Bool
  trace : List Entry

/-- `store` and `send` are the two halves of issuing a request, `consume` takes the
response. Anyone may cause an event on any port at any time. -/
inductive Action where
  | store (i : Nat)
  | send (i : Nat)
  | consume (i : Nat)
  | spurious (port : UInt32)
  | fetch (port : UInt32)
  | fetchError
  | serve

def event (s : State) (port : UInt32) : State :=
  { s with pending := Function.update s.pending port true }

def setState (s : State) (i : Nat) (state : IoreqState) : State :=
  { s with ioreq := Function.update s.ioreq i { s.ioreq i with state := state } }

section System
variable (vcpus : Nat) (localPort : Nat → UInt32)

def storeRequest (s : State) (i : Nat) : State :=
  { s with
    ioreq := Function.update s.ioreq i ⟨.ready, s.issued i⟩
    issued := Function.update s.issued i (s.issued i + 1)
    issuing := Function.update s.issuing i true }

def sendEvent (s : State) (i : Nat) : State :=
  { event s (localPort i) with issuing := Function.update s.issuing i false }

/-- The next step of `demu_poll_iopages` and `demu_poll_shared_iopage`. -/
def serve (s : State) : Server → Option State
  | .idle => none
  | .scanning port i =>
      if i < vcpus then
        if port = localPort i then
          some { s with
            masked := Function.update s.masked port false
            server := .polling port i }
        else some { s with server := .scanning port (i + 1) }
      else some { s with server := .idle }
  | .polling port i =>
      -- IO request not ready
      if (s.ioreq i).state ≠ .ready then some { s with server := .scanning port (i + 1) }
      else some { s with server := .accepted port i }
  | .accepted port i => some { setState s i .inprocess with server := .marked port i }
  | .marked port i =>
      let r : Request := ⟨i, (s.ioreq i).id⟩
      some { s with trace := s.trace ++ [.called r], server := .handling port r }
  | .handling port r =>
      some { s with trace := s.trace ++ [.returned r], server := .handled port r }
  | .handled port r =>
      some { setState s r.vcpu .respReady with
        trace := s.trace ++ [.responded r]
        server := .responded port r }
  | .responded port r =>
      some { s with
        trace := s.trace ++ [.notified (localPort r.vcpu)]
        server := .scanning port (r.vcpu + 1) }

/-- A failed fetch gives -1, which no `evtchn_port_t` is below 0 for. -/
def step (s : State) : Action → Option State
  | .store i =>
      if i < vcpus ∧ (s.ioreq i).state = .none then some (storeRequest s i) else none
  | .send i => if s.issuing i then some (sendEvent localPort s i) else none
  | .consume i =>
      if (s.ioreq i).state = .respReady ∧ s.issuing i = false then some (setState s i .none)
      else none
  | .spurious port => some (event s port)
  | .fetch port =>
      if s.server = .idle ∧ s.pending port = true ∧ s.masked port = false then
        some { s with
          pending := Function.update s.pending port false
          masked := Function.update s.masked port true
          server := .scanning port 0 }
      else none
  | .fetchError =>
      if s.server = .idle then some { s with server := .scanning 0xffffffff 0 } else none
  | .serve => serve vcpus localPort s s.server

end System

/-- Nothing was issued yet, and no event is there. -/
def start : State where
  ioreq := fun _ => ⟨.none, 0⟩
  pending := fun _ => false
  masked := fun _ => false
  server := .idle
  issued := fun _ => 0
  issuing := fun _ => false
  trace := []

/-! What is true of the trace: one request after the other. -/

def cycle (localPort : Nat → UInt32) (r : Request) : List Entry :=
  [.called r, .returned r, .responded r, .notified (localPort r.vcpu)]

/-- The part of the last cycle that has happened. -/
def opened : Server → List Entry
  | .handling _ r => [.called r]
  | .handled _ r => [.called r, .returned r]
  | .responded _ r => [.called r, .returned r, .responded r]
  | .idle | .scanning _ _ | .polling _ _ | .accepted _ _ | .marked _ _ => []

/-- The requests that were passed to the handler, in order, and those that were answered. -/
def calls (trace : List Entry) : List Request :=
  trace.filterMap fun
    | .called r => some r
    | .returned _ | .responded _ | .notified _ => none

def responses (trace : List Entry) : List Request :=
  trace.filterMap fun
    | .responded r => some r
    | .called _ | .returned _ | .notified _ => none

def idsOf (i : Nat) (requests : List Request) : List Nat :=
  (requests.filter fun r => r.vcpu = i).map (·.id)

/-- How many requests of the vCPU are answered: all but the one in its slot. -/
def answered (s : State) (i : Nat) : Nat :=
  match (s.ioreq i).state with
  | .none | .respReady => s.issued i
  | .ready | .inprocess => s.issued i - 1

/-! What a step can do. -/

inductive Served (vcpus : Nat) (localPort : Nat → UInt32) (s : State) : State → Prop where
  | matched (port i) : s.server = .scanning port i → port = localPort i →
      Served vcpus localPort s
        { s with masked := Function.update s.masked port false, server := .polling port i }
  | passed (port i) : s.server = .scanning port i → port ≠ localPort i →
      Served vcpus localPort s { s with server := .scanning port (i + 1) }
  | finished (port i) : s.server = .scanning port i → vcpus ≤ i →
      Served vcpus localPort s { s with server := .idle }
  | notReady (port i) : s.server = .polling port i → (s.ioreq i).state ≠ .ready →
      Served vcpus localPort s { s with server := .scanning port (i + 1) }
  | isReady (port i) : s.server = .polling port i → (s.ioreq i).state = .ready →
      Served vcpus localPort s { s with server := .accepted port i }
  | accepted (port i) : s.server = .accepted port i →
      Served vcpus localPort s
        { setState s i .inprocess with server := .marked port i }
  | called (port i) : s.server = .marked port i →
      Served vcpus localPort s
        { s with
          trace := s.trace ++ [.called ⟨i, (s.ioreq i).id⟩]
          server := .handling port ⟨i, (s.ioreq i).id⟩ }
  | returned (port r) : s.server = .handling port r →
      Served vcpus localPort s
        { s with trace := s.trace ++ [.returned r], server := .handled port r }
  | responded (port r) : s.server = .handled port r →
      Served vcpus localPort s
        { setState s r.vcpu .respReady with
          trace := s.trace ++ [.responded r]
          server := .responded port r }
  | notified (port r) : s.server = .responded port r →
      Served vcpus localPort s
        { s with
          trace := s.trace ++ [.notified (localPort r.vcpu)]
          server := .scanning port (r.vcpu + 1) }

theorem serve_cases {vcpus : Nat} {localPort : Nat → UInt32} {s next : State}
    (served : serve vcpus localPort s s.server = some next) : Served vcpus localPort s next := by
  cases server : s.server with
  | idle =>
      rw [server] at served
      cases served
  | scanning port i =>
      simp only [serve, server] at served
      split at served
      · split at served <;> rename_i found
        · cases served
          exact .matched port i server found
        · cases served
          exact .passed port i server found
      · rename_i last
        cases served
        exact .finished port i server (Nat.not_lt.mp last)
  | polling port i =>
      simp only [serve, server] at served
      split at served <;> rename_i ready
      · cases served
        exact .notReady port i server ready
      · cases served
        exact .isReady port i server (not_not.mp ready)
  | accepted port i =>
      rw [server] at served
      cases served
      exact .accepted port i server
  | marked port i =>
      rw [server] at served
      cases served
      exact .called port i server
  | handling port r =>
      rw [server] at served
      cases served
      exact .returned port r server
  | handled port r =>
      rw [server] at served
      cases served
      exact .responded port r server
  | responded port r =>
      rw [server] at served
      cases served
      exact .notified port r server

inductive Stepped (vcpus : Nat) (localPort : Nat → UInt32) (s : State) : Action → State → Prop where
  | store (i) : (s.ioreq i).state = .none → Stepped vcpus localPort s (.store i) (storeRequest s i)
  | send (i) : Stepped vcpus localPort s (.send i) (sendEvent localPort s i)
  | consume (i) : (s.ioreq i).state = .respReady →
      Stepped vcpus localPort s (.consume i) (setState s i .none)
  | spurious (port) : Stepped vcpus localPort s (.spurious port) (event s port)
  | fetch (port) : s.server = .idle →
      Stepped vcpus localPort s (.fetch port)
        { s with
          pending := Function.update s.pending port false
          masked := Function.update s.masked port true
          server := .scanning port 0 }
  | fetchError : s.server = .idle →
      Stepped vcpus localPort s .fetchError { s with server := .scanning 0xffffffff 0 }
  | serve {next} : Served vcpus localPort s next → Stepped vcpus localPort s .serve next

theorem step_cases {vcpus : Nat} {localPort : Nat → UInt32} {s next : State} {action : Action}
    (taken : step vcpus localPort s action = some next) :
    Stepped vcpus localPort s action next := by
  cases action with
  | store i =>
      obtain ⟨free, done⟩ := Option.ite_none_right_eq_some.mp taken
      cases done
      exact .store i free.2
  | send i =>
      obtain ⟨_, done⟩ := Option.ite_none_right_eq_some.mp taken
      cases done
      exact .send i
  | consume i =>
      obtain ⟨finished, done⟩ := Option.ite_none_right_eq_some.mp taken
      cases done
      exact .consume i finished.1
  | spurious port =>
      cases taken
      exact .spurious port
  | fetch port =>
      obtain ⟨idle, done⟩ := Option.ite_none_right_eq_some.mp taken
      cases done
      exact .fetch port idle.1
  | fetchError =>
      obtain ⟨idle, done⟩ := Option.ite_none_right_eq_some.mp taken
      cases done
      exact .fetchError idle
  | serve => exact .serve (serve_cases taken)

/-! The slot of a vCPU, its request and the server. -/

/-- The vCPU whose slot the server has marked as in process. -/
def Server.inside : Server → Option Nat
  | .marked _ i => some i
  | .handling _ r | .handled _ r => some r.vcpu
  | .idle | .scanning _ _ | .polling _ _ | .accepted _ _ | .responded _ _ => none

/-- The request of that slot, once it was read. -/
def Server.request : Server → Option Request
  | .handling _ r | .handled _ r => some r
  | .idle | .scanning _ _ | .polling _ _ | .accepted _ _ | .marked _ _ | .responded _ _ => none

theorem request_inside {server : Server} {r : Request} (same : server.request = some r) :
    server.inside = some r.vcpu := by
  cases server <;> cases same <;> rfl

structure Slots (s : State) : Prop where
  issued : ∀ i, (s.ioreq i).state = .ready ∨ (s.ioreq i).state = .inprocess →
    s.issued i = (s.ioreq i).id + 1
  inside : ∀ i, (s.ioreq i).state = .inprocess ↔ s.server.inside = some i
  accepted : ∀ port i, s.server = .accepted port i → (s.ioreq i).state = .ready
  request : ∀ r, s.server.request = some r → (s.ioreq r.vcpu).id = r.id

theorem start_slots : Slots start := by
  constructor
  · rintro i (other | other) <;> cases other
  · intro i
    exact iff_of_false (fun other => by cases other) (fun other => by cases other)
  · intro port i other
    cases other
  · intro r other
    cases other

variable {vcpus : Nat} {localPort : Nat → UInt32} {s next : State}

theorem store_slots {i : Nat} (slots : Slots s) (free : (s.ioreq i).state = .none) :
    Slots (storeRequest s i) := by
  constructor
  · intro k busy
    by_cases same : k = i
    · subst same
      simp [storeRequest]
    · simp only [storeRequest, Function.update_of_ne same] at busy ⊢
      exact slots.issued k busy
  · intro k
    by_cases same : k = i
    · subst same
      have outside : s.server.inside ≠ some k := by
        rw [Ne, ← slots.inside k, free]
        decide
      simp [storeRequest, outside]
    · simp only [storeRequest, Function.update_of_ne same]
      exact slots.inside k
  · intro port k reached
    by_cases same : k = i
    · subst same
      simp [storeRequest]
    · simp only [storeRequest, Function.update_of_ne same]
      exact slots.accepted port k reached
  · intro r reached
    have holds : (s.ioreq r.vcpu).state = .inprocess := by
      rw [slots.inside]
      exact request_inside reached
    have other : r.vcpu ≠ i := by
      intro same
      rw [same, free] at holds
      cases holds
    simp only [storeRequest, Function.update_of_ne other]
    exact slots.request r reached

/-- A store to the state of one slot, and where it leaves the server. -/
theorem set_state_slots {i : Nat} {state : IoreqState} {server : Server} {trace : List Entry}
    (slots : Slots s)
    (busy : state = .ready ∨ state = .inprocess → s.issued i = (s.ioreq i).id + 1)
    (here : state = .inprocess ↔ server.inside = some i)
    (others : ∀ k, k ≠ i → (s.server.inside = some k ↔ server.inside = some k))
    (accepted : ∀ port k, server = .accepted port k → k ≠ i ∧ s.server = .accepted port k)
    (request : ∀ r, server.request = some r → s.server.request = some r) :
    Slots { setState s i state with server := server, trace := trace } := by
  constructor
  · intro k holds
    by_cases same : k = i
    · subst same
      simp only [setState, Function.update_self] at holds ⊢
      exact busy holds
    · simp only [setState, Function.update_of_ne same] at holds ⊢
      exact slots.issued k holds
  · intro k
    by_cases same : k = i
    · subst same
      simp only [setState, Function.update_self]
      exact here
    · simp only [setState, Function.update_of_ne same]
      exact (slots.inside k).trans (others k same)
  · intro port k reached
    obtain ⟨other, before⟩ := accepted port k reached
    simp only [setState, Function.update_of_ne other]
    exact slots.accepted port k before
  · intro r reached
    have before := slots.request r (request r reached)
    by_cases same : r.vcpu = i
    · simp only [setState, same, Function.update_self]
      rwa [same] at before
    · simp only [setState, Function.update_of_ne same]
      exact before

theorem moved_slots {server : Server} {trace : List Entry} {pending masked : UInt32 → Bool}
    {issuing : Nat → Bool} (slots : Slots s) (inside : server.inside = s.server.inside)
    (accepted : ∀ port i, server = .accepted port i → (s.ioreq i).state = .ready)
    (request : ∀ r, server.request = some r → (s.ioreq r.vcpu).id = r.id) :
    Slots { s with
      server := server, trace := trace, pending := pending, masked := masked,
      issuing := issuing } := by
  refine ⟨slots.issued, ?_, accepted, request⟩
  intro i
  rw [inside]
  exact slots.inside i

/-- The server is at no slot before and after the step. -/
theorem elsewhere_slots {server before : Server} {trace : List Entry}
    {pending masked : UInt32 → Bool} {issuing : Nat → Bool} (slots : Slots s)
    (current : s.server = before) (outside : before.inside = none ∧ server.inside = none)
    (waits : ∀ port i, server ≠ .accepted port i) :
    Slots { s with
      server := server, trace := trace, pending := pending, masked := masked,
      issuing := issuing } := by
  apply moved_slots slots
  · rw [current, outside.1, outside.2]
  · exact fun port i same => absurd same (waits port i)
  · intro r same
    have inside := request_inside same
    rw [outside.2] at inside
    cases inside

theorem serve_slots (slots : Slots s) (served : Served vcpus localPort s next) : Slots next := by
  cases served with
  | matched port i server | passed port i server | finished port i server
  | notReady port i server | notified port r server =>
      exact elsewhere_slots slots server ⟨rfl, rfl⟩ (fun _ _ other => by cases other)
  | isReady port i server ready =>
      refine moved_slots slots (by rw [server]; rfl) ?_ (fun _ other => by cases other)
      intro _ _ same
      cases same
      exact ready
  | accepted port i server =>
      apply set_state_slots slots
      · exact fun _ => slots.issued i (Or.inl (slots.accepted port i server))
      · exact iff_of_true rfl rfl
      · intro k other
        rw [server]
        apply iff_of_false
        · exact fun none => by cases none
        · exact fun same => other (Option.some.inj same).symm
      · exact fun _ _ other => by cases other
      · exact fun _ other => by cases other
  | called port i server =>
      refine moved_slots slots (by rw [server]; rfl) (fun _ _ other => by cases other) ?_
      intro _ same
      cases same
      rfl
  | returned port r server =>
      refine moved_slots slots (by rw [server]; rfl) (fun _ _ other => by cases other) ?_
      intro _ same
      apply slots.request
      rw [server]
      exact same
  | responded port r server =>
      apply set_state_slots slots
      · rintro (other | other) <;> cases other
      · exact iff_of_false (fun other => by cases other) (fun other => by cases other)
      · intro k other
        rw [server]
        apply iff_of_false
        · exact fun same => other (Option.some.inj same).symm
        · exact fun none => by cases none
      · exact fun _ _ other => by cases other
      · exact fun _ other => by cases other

theorem step_slots {action : Action} (slots : Slots s)
    (stepped : Stepped vcpus localPort s action next) : Slots next := by
  cases stepped with
  | store i free => exact store_slots slots free
  | send i => exact moved_slots (s := s) slots rfl slots.accepted slots.request
  | spurious port => exact moved_slots (s := s) slots rfl slots.accepted slots.request
  | consume i finished =>
      have outside : s.server.inside ≠ some i := by
        rw [Ne, ← slots.inside i, finished]
        decide
      apply set_state_slots slots
      · rintro (other | other) <;> cases other
      · exact iff_of_false (fun other => by cases other) outside
      · exact fun _ _ => Iff.rfl
      · intro port k reached
        refine ⟨?_, reached⟩
        rintro rfl
        have ready := slots.accepted port k reached
        rw [finished] at ready
        cases ready
      · exact fun _ reached => reached
  | fetch port idle =>
      exact elsewhere_slots slots idle ⟨rfl, rfl⟩ (fun _ _ other => by cases other)
  | fetchError idle =>
      exact elsewhere_slots slots idle ⟨rfl, rfl⟩ (fun _ _ other => by cases other)
  | serve served => exact serve_slots slots served

/-! The event of a request. -/

/-- The port of the loop and the vCPU it comes to next. -/
def Server.upcoming : Server → Option (UInt32 × Nat)
  | .idle => none
  | .scanning port i | .polling port i | .accepted port i => some (port, i)
  | .marked port i => some (port, i + 1)
  | .handling port r | .handled port r | .responded port r => some (port, r.vcpu + 1)

/-- The loop will come to the slot of the vCPU without another event. -/
def Coming (localPort : Nat → UInt32) (server : Server) (i : Nat) : Prop :=
  ∃ j, j ≤ i ∧ server.upcoming = some (localPort i, j)

structure Delivery (vcpus : Nat) (localPort : Nat → UInt32) (s : State) : Prop where
  unmasked : ∀ i, i < vcpus → s.masked (localPort i) = true →
    ∃ j, j ≤ i ∧ s.server = .scanning (localPort i) j
  coming : ∀ i, i < vcpus → (s.ioreq i).state = .ready → s.issuing i = false →
    s.pending (localPort i) = true ∨ Coming localPort s.server i

theorem start_delivery : Delivery vcpus localPort start := by
  constructor
  · intro i _ masked
    cases masked
  · intro i _ ready
    cases ready

/-- Past the scan no bound port is masked. -/
theorem Delivery.open (delivery : Delivery vcpus localPort s)
    (past : ∀ port i, s.server ≠ .scanning port i) {i : Nat} (bound : i < vcpus) :
    s.masked (localPort i) ≠ true := by
  intro masked
  obtain ⟨j, _, scanning⟩ := delivery.unmasked i bound masked
  exact past _ _ scanning

/-- The loop has gone on from vCPU `j` to `k`. -/
theorem Coming.moves {before after : Server} {i j k : Nat} {port : UInt32}
    (coming : Coming localPort before i) (current : before.upcoming = some (port, j))
    (moved : after.upcoming = some (port, k)) (onward : port = localPort i → j ≤ i → k ≤ i) :
    Coming localPort after i := by
  obtain ⟨reached, below, same⟩ := coming
  rw [current] at same
  cases same
  exact ⟨k, onward rfl below, moved⟩

/-- A step in `demu_poll_shared_iopage`, or back from it. -/
theorem Delivery.polled {after : State} (delivery : Delivery vcpus localPort s)
    (past : ∀ port i, s.server ≠ .scanning port i) (masked : after.masked = s.masked)
    (pending : after.pending = s.pending) (issuing : after.issuing = s.issuing)
    (ready : ∀ i, (after.ioreq i).state = .ready → (s.ioreq i).state = .ready ∧
      (Coming localPort s.server i → Coming localPort after.server i)) :
    Delivery vcpus localPort after := by
  constructor
  · intro i bound closed
    rw [masked] at closed
    exact absurd closed (delivery.open past bound)
  · intro i bound now sent
    obtain ⟨before, comes⟩ := ready i now
    rw [issuing] at sent
    rw [pending]
    exact (delivery.coming i bound before sent).imp_right comes

theorem serve_delivery (delivery : Delivery vcpus localPort s)
    (served : Served vcpus localPort s next) : Delivery vcpus localPort next := by
  cases served with
  | matched port i server =>
      constructor
      · intro k bound closed
        have other : localPort k ≠ port := by
          intro same
          simp [same] at closed
        simp only [Function.update_of_ne other] at closed
        obtain ⟨j, _, scanning⟩ := delivery.unmasked k bound closed
        rw [server] at scanning
        cases scanning
        exact absurd rfl other
      · intro k bound ready sent
        apply (delivery.coming k bound ready sent).imp_right
        rw [server]
        exact fun coming => coming
  | passed port i server other =>
      have onward (k : Nat) (same : port = localPort k) (below : i ≤ k) : i + 1 ≤ k := by
        rcases Nat.lt_or_eq_of_le below with later | here
        · exact later
        · rw [← here] at same
          exact absurd same other
      constructor
      · intro k bound closed
        obtain ⟨j, below, scanning⟩ := delivery.unmasked k bound closed
        rw [server] at scanning
        cases scanning
        exact ⟨i + 1, onward k rfl below, rfl⟩
      · intro k bound ready sent
        apply (delivery.coming k bound ready sent).imp_right
        rw [server]
        exact fun coming => coming.moves rfl rfl (onward k)
  | finished port i server last =>
      constructor
      · intro k bound closed
        obtain ⟨j, below, scanning⟩ := delivery.unmasked k bound closed
        rw [server] at scanning
        cases scanning
        exact absurd bound (Nat.not_lt.mpr (Nat.le_trans last below))
      · intro k bound ready sent
        rcases delivery.coming k bound ready sent with event | ⟨j, below, same⟩
        · exact Or.inl event
        · rw [server] at same
          cases same
          exact absurd bound (Nat.not_lt.mpr (Nat.le_trans last below))
  | notReady port i server waits =>
      refine delivery.polled (by simp [server]) rfl rfl rfl ?_
      intro k ready
      refine ⟨ready, fun coming => coming.moves (by rw [server]; rfl) rfl ?_⟩
      intro _ below
      rcases Nat.lt_or_eq_of_le below with later | here
      · exact later
      · rw [here] at waits
        exact absurd ready waits
  | isReady port i server _ =>
      refine delivery.polled (by simp [server]) rfl rfl rfl ?_
      intro k ready
      exact ⟨ready, fun coming => coming.moves (by rw [server]; rfl) rfl fun _ below => below⟩
  | accepted port i server =>
      refine delivery.polled (by simp [server]) rfl rfl rfl ?_
      intro k ready
      have other : k ≠ i := by
        rintro rfl
        simp [setState] at ready
      simp only [setState, Function.update_of_ne other] at ready
      refine ⟨ready, fun coming => coming.moves (by rw [server]; rfl) rfl ?_⟩
      exact fun _ below => Nat.lt_of_le_of_ne below (Ne.symm other)
  | called port i server =>
      refine delivery.polled (by simp [server]) rfl rfl rfl ?_
      intro k ready
      exact ⟨ready, fun coming => coming.moves (by rw [server]; rfl) rfl fun _ below => below⟩
  | responded port r server =>
      refine delivery.polled (by simp [server]) rfl rfl rfl ?_
      intro k ready
      have other : k ≠ r.vcpu := by
        rintro rfl
        simp [setState] at ready
      simp only [setState, Function.update_of_ne other] at ready
      exact ⟨ready, fun coming => coming.moves (by rw [server]; rfl) rfl fun _ below => below⟩
  | returned port r server | notified port r server =>
      refine delivery.polled (by simp [server]) rfl rfl rfl ?_
      intro k ready
      exact ⟨ready, fun coming => coming.moves (by rw [server]; rfl) rfl fun _ below => below⟩

theorem event_keeps {pending : UInt32 → Bool} {other : UInt32} (was : pending other = true)
    (port : UInt32) : Function.update pending port true other = true := by
  by_cases same : other = port
  · rw [same, Function.update_self]
  · rw [Function.update_of_ne same]
    exact was

theorem step_delivery {action : Action} (delivery : Delivery vcpus localPort s)
    (stepped : Stepped vcpus localPort s action next) : Delivery vcpus localPort next := by
  cases stepped with
  | store i free =>
      refine ⟨delivery.unmasked, ?_⟩
      intro k bound ready sent
      by_cases same : k = i
      · subst same
        simp [storeRequest] at sent
      · simp only [storeRequest, Function.update_of_ne same] at ready sent
        exact delivery.coming k bound ready sent
  | send i =>
      refine ⟨delivery.unmasked, ?_⟩
      intro k bound ready sent
      by_cases same : k = i
      · subst same
        simp [sendEvent, event]
      · simp only [sendEvent, event, Function.update_of_ne same] at sent
        apply (delivery.coming k bound ready sent).imp_left
        exact fun was => event_keeps was (localPort i)
  | spurious port =>
      refine ⟨delivery.unmasked, ?_⟩
      intro k bound ready sent
      apply (delivery.coming k bound ready sent).imp_left
      exact fun was => event_keeps was port
  | consume i finished =>
      refine ⟨delivery.unmasked, ?_⟩
      intro k bound ready sent
      have other : k ≠ i := by
        rintro rfl
        simp [setState] at ready
      simp only [setState, Function.update_of_ne other] at ready
      exact delivery.coming k bound ready sent
  | fetch port idle =>
      have past (other : UInt32) (i : Nat) : s.server ≠ .scanning other i := by simp [idle]
      constructor
      · intro k bound closed
        by_cases same : localPort k = port
        · exact ⟨0, Nat.zero_le k, by rw [same]⟩
        · simp only [Function.update_of_ne same] at closed
          exact absurd closed (delivery.open past bound)
      · intro k bound ready sent
        have waiting : s.pending (localPort k) = true := by
          rcases delivery.coming k bound ready sent with was | ⟨j, _, coming⟩
          · exact was
          · rw [idle] at coming
            cases coming
        by_cases same : localPort k = port
        · exact Or.inr ⟨0, Nat.zero_le k, by rw [same]; rfl⟩
        · simp only [Function.update_of_ne same]
          exact Or.inl waiting
  | fetchError idle =>
      have past (other : UInt32) (i : Nat) : s.server ≠ .scanning other i := by simp [idle]
      constructor
      · intro k bound closed
        exact absurd closed (delivery.open past bound)
      · intro k bound ready sent
        rcases delivery.coming k bound ready sent with was | ⟨j, _, coming⟩
        · exact Or.inl was
        · rw [idle] at coming
          cases coming
  | serve served => exact serve_delivery delivery served

/-! The trace. -/

/-- The request whose response is there, but not its notification. -/
def published : Server → List Request
  | .responded _ r => [r]
  | .idle | .scanning _ _ | .polling _ _ | .accepted _ _ | .marked _ _ | .handling _ _
  | .handled _ _ => []

/-- The requests of `done` are over, and the server is in the cycle of the next one. -/
structure Cycles (localPort : Nat → UInt32) (s : State) (done : List Request) : Prop where
  trace : s.trace = done.flatMap (cycle localPort) ++ opened s.server
  ids : ∀ i, idsOf i (done ++ published s.server) = List.range (answered s i)

theorem ids_append (i : Nat) (first second : List Request) :
    idsOf i (first ++ second) = idsOf i first ++ idsOf i second := by
  simp [idsOf]

theorem start_cycles : Cycles localPort start [] := ⟨rfl, fun _ => rfl⟩

/-- The server is in no cycle before and after the step. -/
theorem Cycles.elsewhere {done : List Request} {after : State} (cycles : Cycles localPort s done)
    (before : opened s.server = [] ∧ published s.server = [])
    (later : opened after.server = [] ∧ published after.server = [])
    (trace : after.trace = s.trace) (counts : ∀ i, answered after i = answered s i) :
    Cycles localPort after done := by
  constructor
  · rw [trace, later.1, ← before.1]
    exact cycles.trace
  · intro i
    rw [later.2, counts, ← before.2]
    exact cycles.ids i

theorem Cycles.ids_done {done : List Request} (cycles : Cycles localPort s done)
    (here : published s.server = []) (i : Nat) : idsOf i done = List.range (answered s i) := by
  have ids := cycles.ids i
  rw [here, List.append_nil] at ids
  exact ids

/-- The response of the request that is in process brings the count up to it. -/
theorem respond_answered (slots : Slots s) {port : UInt32} {r : Request}
    (server : s.server = .handled port r) (trace : List Entry) (i : Nat) :
    List.range (answered
        { setState s r.vcpu .respReady with trace := trace, server := .responded port r } i) =
      List.range (answered s i) ++ idsOf i [r] := by
  by_cases same : r.vcpu = i
  · have busy : (s.ioreq i).state = .inprocess := by
      rw [slots.inside, server, ← same]
      rfl
    have issued := slots.issued i (Or.inr busy)
    have held : (s.ioreq i).id = r.id := by
      rw [← same]
      exact slots.request r (by rw [server]; rfl)
    have before : answered s i = r.id := by
      simp [answered, busy, issued, held]
    have after : answered
        { setState s r.vcpu .respReady with trace := trace, server := .responded port r } i =
          r.id + 1 := by
      simp [answered, setState, same, issued, held]
    rw [before, after, List.range_succ]
    simp [idsOf, same]
  · have unchanged : answered
        { setState s r.vcpu .respReady with trace := trace, server := .responded port r } i =
          answered s i := by
      simp only [answered, setState, Function.update_of_ne (Ne.symm same)]
    rw [unchanged]
    simp [idsOf, same]

theorem serve_cycles {done : List Request} (slots : Slots s) (cycles : Cycles localPort s done)
    (served : Served vcpus localPort s next) : ∃ done, Cycles localPort next done := by
  cases served with
  | matched port i server | passed port i server | finished port i server
  | notReady port i server | isReady port i server =>
      exact ⟨done, cycles.elsewhere (by rw [server]; exact ⟨rfl, rfl⟩) ⟨rfl, rfl⟩ rfl fun _ => rfl⟩
  | accepted port i server =>
      refine ⟨done, cycles.elsewhere (by rw [server]; exact ⟨rfl, rfl⟩) ⟨rfl, rfl⟩ rfl ?_⟩
      intro k
      by_cases same : k = i
      · subst same
        simp [answered, setState, slots.accepted port k server]
      · simp only [answered, setState, Function.update_of_ne same]
  | called port i server =>
      refine ⟨done, ?_, ?_⟩
      · have trace := cycles.trace
        rw [server] at trace
        simp only [opened, List.append_nil] at trace ⊢
        rw [trace]
      · have ids := cycles.ids
        rw [server] at ids
        exact ids
  | returned port r server =>
      refine ⟨done, ?_, ?_⟩
      · have trace := cycles.trace
        rw [server] at trace
        simp only [opened] at trace ⊢
        rw [trace]
        simp
      · have ids := cycles.ids
        rw [server] at ids
        exact ids
  | responded port r server =>
      refine ⟨done, ?_, ?_⟩
      · have trace := cycles.trace
        rw [server] at trace
        simp only [opened] at trace ⊢
        rw [trace]
        simp
      · intro i
        rw [respond_answered slots server, ids_append, published,
          cycles.ids_done (by rw [server]; rfl)]
  | notified port r server =>
      refine ⟨done ++ [r], ?_, ?_⟩
      · have trace := cycles.trace
        rw [server] at trace
        simp only [opened] at trace ⊢
        rw [trace]
        simp [cycle]
      · have ids := cycles.ids
        rw [server] at ids
        intro i
        rw [published, List.append_nil]
        exact ids i

theorem step_cycles {action : Action} {done : List Request} (slots : Slots s)
    (cycles : Cycles localPort s done) (stepped : Stepped vcpus localPort s action next) :
    ∃ done, Cycles localPort next done := by
  cases stepped with
  | store i free =>
      refine ⟨done, cycles.trace, ?_⟩
      intro k
      have counts : answered (storeRequest s i) k = answered s k := by
        by_cases same : k = i
        · subst same
          simp [answered, storeRequest, free]
        · simp only [answered, storeRequest, Function.update_of_ne same]
      rw [counts]
      exact cycles.ids k
  | consume i finished =>
      refine ⟨done, cycles.trace, ?_⟩
      intro k
      have counts : answered (setState s i .none) k = answered s k := by
        by_cases same : k = i
        · subst same
          simp [answered, setState, finished]
        · simp only [answered, setState, Function.update_of_ne same]
      rw [counts]
      exact cycles.ids k
  | send i | spurious port => exact ⟨done, cycles.trace, cycles.ids⟩
  | fetch port idle =>
      exact ⟨done, cycles.elsewhere (by rw [idle]; exact ⟨rfl, rfl⟩) ⟨rfl, rfl⟩ rfl fun _ => rfl⟩
  | fetchError idle =>
      exact ⟨done, cycles.elsewhere (by rw [idle]; exact ⟨rfl, rfl⟩) ⟨rfl, rfl⟩ rfl fun _ => rfl⟩
  | serve served => exact serve_cycles slots cycles served

/-! How many requests were passed to the handler. -/

/-- Those that are answered, and the one that the handler has. -/
def passed (s : State) (i : Nat) : Nat :=
  match s.server.request with
  | none => answered s i
  | some r => if r.vcpu = i then answered s i + 1 else answered s i

theorem calls_append (first second : List Entry) :
    calls (first ++ second) = calls first ++ calls second :=
  List.filterMap_append

theorem responses_append (first second : List Entry) :
    responses (first ++ second) = responses first ++ responses second :=
  List.filterMap_append

theorem calls_cycles (done : List Request) : calls (done.flatMap (cycle localPort)) = done := by
  induction done with
  | nil => rfl
  | cons r rest ih =>
      rw [List.flatMap_cons, calls_append, ih]
      rfl

theorem responses_cycles (done : List Request) :
    responses (done.flatMap (cycle localPort)) = done := by
  induction done with
  | nil => rfl
  | cons r rest ih =>
      rw [List.flatMap_cons, responses_append, ih]
      rfl

theorem calls_opened (server : Server) :
    calls (opened server) = published server ++ server.request.toList := by
  cases server <;> rfl

theorem responses_opened (server : Server) : responses (opened server) = published server := by
  cases server <;> rfl

theorem Slots.request_answered (slots : Slots s) {r : Request} (held : s.server.request = some r) :
    answered s r.vcpu = r.id ∧ s.issued r.vcpu = r.id + 1 := by
  have busy : (s.ioreq r.vcpu).state = .inprocess := by
    rw [slots.inside]
    exact request_inside held
  have issued := slots.issued r.vcpu (Or.inr busy)
  rw [slots.request r held] at issued
  simp [answered, busy, issued]

theorem Cycles.responded {done : List Request} (cycles : Cycles localPort s done) (i : Nat) :
    idsOf i (responses s.trace) = List.range (answered s i) := by
  rw [cycles.trace, responses_append, responses_cycles, responses_opened]
  exact cycles.ids i

theorem Cycles.called {done : List Request} (slots : Slots s) (cycles : Cycles localPort s done)
    (i : Nat) : idsOf i (calls s.trace) = List.range (passed s i) := by
  rw [cycles.trace, calls_append, calls_cycles, calls_opened, ← List.append_assoc, ids_append,
    cycles.ids i]
  cases held : s.server.request with
  | none => simp [passed, held, idsOf]
  | some r =>
      by_cases same : r.vcpu = i
      · have count := (slots.request_answered held).1
        rw [same] at count
        simp [passed, held, idsOf, same, count, List.range_succ]
      · simp [passed, held, idsOf, same]

theorem answered_issued (s : State) (i : Nat) : answered s i ≤ s.issued i := by
  rw [answered]
  split <;> omega

theorem answered_passed (s : State) (i : Nat) : answered s i ≤ passed s i := by
  rw [passed]
  split
  · exact Nat.le_refl _
  · split <;> omega

theorem Slots.passed_issued (slots : Slots s) (i : Nat) : passed s i ≤ s.issued i := by
  have below := answered_issued s i
  cases held : s.server.request with
  | none => simpa [passed, held] using below
  | some r =>
      by_cases same : r.vcpu = i
      · have ⟨count, issued⟩ := slots.request_answered held
        rw [same] at count issued
        simp [passed, held, same, count, issued]
      · simpa [passed, held, same] using below

/-! The loop comes to its end. -/

/-- The steps that the loop has at most. -/
def Server.remaining (vcpus : Nat) : Server → Nat
  | .idle => 0
  | .scanning _ i => 8 * (vcpus - i) + 1
  | .polling _ i => 8 * (vcpus - (i + 1)) + 7
  | .accepted _ i => 8 * (vcpus - (i + 1)) + 6
  | .marked _ i => 8 * (vcpus - (i + 1)) + 5
  | .handling _ r => 8 * (vcpus - (r.vcpu + 1)) + 4
  | .handled _ r => 8 * (vcpus - (r.vcpu + 1)) + 3
  | .responded _ r => 8 * (vcpus - (r.vcpu + 1)) + 2

theorem serve_remaining (vcpus : Nat) (localPort : Nat → UInt32) (s : State)
    (busy : s.server ≠ .idle) :
    ∃ next, serve vcpus localPort s s.server = some next ∧
      next.server.remaining vcpus < s.server.remaining vcpus := by
  cases server : s.server with
  | idle => exact absurd server busy
  | scanning port i =>
      by_cases more : i < vcpus
      · by_cases found : port = localPort i
        · exact ⟨_, by rw [serve, if_pos more, if_pos found],
            by simp only [Server.remaining]; omega⟩
        · exact ⟨_, by rw [serve, if_pos more, if_neg found],
            by simp only [Server.remaining]; omega⟩
      · exact ⟨_, by rw [serve, if_neg more], by simp only [Server.remaining]; omega⟩
  | polling port i =>
      by_cases ready : (s.ioreq i).state = .ready
      · exact ⟨_, by rw [serve, if_neg (not_not.mpr ready)],
          by simp only [Server.remaining]; omega⟩
      · exact ⟨_, by rw [serve, if_pos ready], by simp only [Server.remaining]; omega⟩
  | accepted port i | marked port i | handling port r | handled port r | responded port r =>
      exact ⟨_, rfl, by simp only [Server.remaining]; omega⟩

/-- From every state the server alone gets back to `xenevtchn_pending`. -/
theorem serve_finishes (vcpus : Nat) (localPort : Nat → UInt32) (s : State) :
    ∃ count final, run (step vcpus localPort) s (List.replicate count .serve) = some final ∧
      final.server = .idle := by
  induction left : s.server.remaining vcpus using Nat.strong_induction_on generalizing s with
  | _ steps ih =>
      by_cases idle : s.server = .idle
      · exact ⟨0, s, rfl, idle⟩
      · obtain ⟨next, served, fewer⟩ := serve_remaining vcpus localPort s idle
        obtain ⟨count, final, ran, done⟩ := ih _ (left ▸ fewer) next rfl
        refine ⟨count + 1, final, ?_, done⟩
        have taken : step vcpus localPort s .serve = some next := served
        rw [List.replicate_succ, run, taken]
        exact ran

/-! The handshake. -/

/-- What holds after every run. -/
structure Handshake (vcpus : Nat) (localPort : Nat → UInt32) (s : State) : Prop where
  /-- The requests are handled one after the other, each with the steps of `cycle`. -/
  inTurn : ∃ done : List Request, s.trace = done.flatMap (cycle localPort) ++ opened s.server
  /-- The requests of a vCPU that were passed to the handler are the first ones that it
  issued, once each; so are those whose response was published. -/
  called : ∀ i, idsOf i (calls s.trace) = List.range (passed s i) ∧ passed s i ≤ s.issued i
  responded : ∀ i, idsOf i (responses s.trace) = List.range (answered s i) ∧
    answered s i ≤ passed s i
  /-- No request is left behind when the loop is idle and there is no event. -/
  complete : s.server = .idle → ∀ i, i < vcpus → s.issuing i = false →
    s.pending (localPort i) = false →
      (s.ioreq i).state ≠ .ready ∧ passed s i = s.issued i ∧ answered s i = s.issued i
  /-- An event that is there can be fetched. -/
  unmasked : s.server = .idle → ∀ i, i < vcpus → s.masked (localPort i) = false
  /-- An event without a request only takes the loop to the next vCPU. -/
  spurious : ∀ port i, s.server = .polling port i → (s.ioreq i).state ≠ .ready →
    step vcpus localPort s .serve = some { s with server := .scanning port (i + 1) }
  finishes : ∃ count final,
    run (step vcpus localPort) s (List.replicate count .serve) = some final ∧ final.server = .idle

structure Reached (vcpus : Nat) (localPort : Nat → UInt32) (s : State) : Prop where
  slots : Slots s
  delivery : Delivery vcpus localPort s
  cycles : ∃ done, Cycles localPort s done

theorem step_reached {action : Action} (reached : Reached vcpus localPort s)
    (taken : step vcpus localPort s action = some next) : Reached vcpus localPort next := by
  have stepped := step_cases taken
  obtain ⟨done, cycles⟩ := reached.cycles
  exact ⟨step_slots reached.slots stepped, step_delivery reached.delivery stepped,
    step_cycles reached.slots cycles stepped⟩

theorem run_reached {actions : List Action}
    (ran : run (step vcpus localPort) start actions = some s) : Reached vcpus localPort s :=
  run_invariant (Reached vcpus localPort) (fun _ _ _ reached taken => step_reached reached taken)
    ⟨start_slots, start_delivery, [], start_cycles⟩ ran

theorem Reached.complete (reached : Reached vcpus localPort s) (idle : s.server = .idle)
    {i : Nat} (bound : i < vcpus) (sent : s.issuing i = false)
    (quiet : s.pending (localPort i) = false) :
    (s.ioreq i).state ≠ .ready ∧ passed s i = s.issued i ∧ answered s i = s.issued i := by
  have notReady : (s.ioreq i).state ≠ .ready := by
    intro ready
    rcases reached.delivery.coming i bound ready sent with event | ⟨j, _, coming⟩
    · rw [quiet] at event
      cases event
    · rw [idle] at coming
      cases coming
  have notInside : (s.ioreq i).state ≠ .inprocess := by
    rw [Ne, reached.slots.inside, idle]
    exact fun other => by cases other
  have count : answered s i = s.issued i := by
    rw [answered]
    cases state : (s.ioreq i).state with
    | none | respReady => rfl
    | ready => exact absurd state notReady
    | inprocess => exact absurd state notInside
  refine ⟨notReady, ?_, count⟩
  rw [passed, idle]
  exact count

theorem handshake_holds {actions : List Action}
    (ran : run (step vcpus localPort) start actions = some s) :
    Handshake vcpus localPort s := by
  have reached := run_reached ran
  obtain ⟨done, cycles⟩ := reached.cycles
  constructor
  · exact ⟨done, cycles.trace⟩
  · exact fun i => ⟨cycles.called reached.slots i, reached.slots.passed_issued i⟩
  · exact fun i => ⟨cycles.responded i, answered_passed s i⟩
  · exact fun idle i bound sent quiet => reached.complete idle bound sent quiet
  · intro idle i bound
    have closed := reached.delivery.open (by simp [idle]) bound
    exact Bool.eq_false_iff.mpr closed
  · intro port i polling waits
    rw [step, polling, serve, if_pos waits]
  · exact serve_finishes vcpus localPort s

/-- The second of two vCPUs issues a request, and is answered. -/
theorem second_vcpu_answered :
    ∃ s, run (step 2 fun i => UInt32.ofNat (i + 5)) start
        [.store 1, .spurious 5, .send 1, .fetch 6, .serve, .serve, .serve, .serve, .serve, .serve,
          .serve, .serve, .serve] = some s ∧
      calls s.trace = [⟨1, 0⟩] ∧ s.server = .idle ∧
      Handshake 2 (fun i => UInt32.ofNat (i + 5)) s := by
  have ran : run (step 2 fun i => UInt32.ofNat (i + 5)) start
      [.store 1, .spurious 5, .send 1, .fetch 6, .serve, .serve, .serve, .serve, .serve, .serve,
        .serve, .serve, .serve] = some _ := rfl
  exact ⟨_, ran, rfl, rfl, handshake_holds ran⟩

end VirtioDisk.IoreqHandshake
