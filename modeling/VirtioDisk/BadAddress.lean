import VirtioDisk.RequestMemory
import VirtioDisk.MmioRegisters

/-!
What a guest's addresses can do to the server. The model of mapping is latched
from the first address and a BUG_ON for all later ones, and a map call that fails
gives NULL: virt_queue__get_head_iov, virtio_blk_do_io_request and
virtio_blk_complete are followed with the answers of the host to each map call.
Which pages are mapped has no part in it, so the calls start from none. The walk
is followed as far as `iov` has entries, and a request as far as it is completed.
-/

namespace VirtioDisk.BadAddress

open BlkDevice ByteStore DescriptorChain MmioRegisters RequestMemory RingWindow Transition Virtqueue

variable {Disk : Type}

/-- How a step ends the server. The last two are not about addresses by themselves: what
lies outside `reqs` or `iov`, and a service that is not come back from, be it through
a null pointer in the data, a read-only page or an operation of the image. -/
inductive Fault where
  | bugOn
  | nullMapping
  | outside
  | service
  deriving DecidableEq

def Fault.ofAddress : Fault → Prop
  | .bugOn | .nullMapping => True
  | .outside | .service => False

/-- What the host answers to the map calls of one request, in their order. -/
structure Answers where
  table : Option GuestMapping.HostPages
  entry : Nat → Option GuestMapping.HostPages

/-- `useGnttab` is the mapping model. -/
structure Server (Disk : Type) where
  dev : BlkDev Disk
  useGnttab : Option Bool

def demuMapGuestRange (useGnttab : Option Bool) (addr size : UInt64)
    (answer : Option GuestMapping.HostPages) : Except Fault (UInt64 × Option Bool) :=
  match GuestMapping.demuMapGuestRange ⟨useGnttab, []⟩ addr size answer with
  | none => .error .bugOn
  | some (ptr, after) => .ok (ptr, after.useGnttab)

/-- `desc`, `max` and `idx` as the walk starts, and the length of the table. -/
structure Table where
  desc : Nat → VringDesc
  bound : Nat
  max : UInt16
  first : UInt16

def ringTable (dev : BlkDev Disk) (head : UInt16) : Table :=
  ⟨dev.ring.desc, dev.vq.vring.num, UInt16.ofNat dev.vq.vring.num, head⟩

def indirectTable (dev : BlkDev Disk) (head : UInt16) : Table :=
  let first := dev.ring.desc head.toNat
  let entries := first.len.toNat / sizeofVringDesc
  ⟨vringDescTable dev.guest first.addr.toNat, entries, UInt16.ofNat entries, 0⟩

def indirect (dev : BlkDev Disk) (head : UInt16) : Bool :=
  virtDescTestFlag (dev.ring.desc head.toNat) vringDescFIndirect

def tableOf (dev : BlkDev Disk) (head : UInt16) : Table :=
  if indirect dev head then indirectTable dev head else ringTable dev head

/-- A memory that maps just what a call has mapped. -/
def memory (bytes : Nat → UInt8) (mapped : Bool) : GuestMemory := ⟨bytes, fun _ _ _ => mapped⟩

-- `left` counts the entries of `iov` that have not been stored to.
def walkChain (bytes : Nat → UInt8) (table : Table) (entry : Nat → Option GuestMapping.HostPages) :
    Nat → UInt16 → HeadIov → Option Bool → Except Fault (HeadIov × Option Bool)
  | 0, _, _, _ => .error .outside
  | left + 1, idx, w, model => do
      let desc := table.desc idx.toNat
      let (ptr, model) ← demuMapGuestRange model desc.addr desc.len.toUInt64 (entry w.stored.length)
      let next := nextDesc table.desc idx table.max
      let w := storeIovec (memory bytes (ptr != 0)) table.bound idx.toNat desc w
      if next = table.max then .ok (w, model) else walkChain bytes table entry left next w model

def started (dev : BlkDev Disk) (head : UInt16) : HeadIov :=
  ⟨(dev.reqs head.toNat).iov, 0, 0, [⟨head.toNat, dev.vq.vring.num⟩], []⟩

def walkTable (dev : BlkDev Disk) (head : UInt16) (answers : Answers) (table : Table)
    (useGnttab : Option Bool) : Except Fault (HeadIov × Option Bool) :=
  walkChain dev.guest.bytes table answers.entry virtioBlkQueueSize table.first (started dev head)
    useGnttab

def virtQueueGetHeadIov (useGnttab : Option Bool) (dev : BlkDev Disk) (head : UInt16)
    (answers : Answers) : Except Fault (HeadIov × Option Bool) :=
  let first := dev.ring.desc head.toNat
  if indirect dev head then do
    let (ptr, model) ← demuMapGuestRange useGnttab first.addr first.len.toUInt64 answers.table
    -- The first flags are read out of a table that was not mapped.
    if ptr = 0 then .error .nullMapping
    else walkTable dev head answers (indirectTable dev head) model
  else walkTable dev head answers (ringTable dev head) useGnttab

/-! The request that was walked, in two parts: what the disk_image layer does, with
the length it has virtio_blk_complete called with, and that call. -/

def finished (dev : BlkDev Disk) (total : Int) : Option Int :=
  if dev.image.async = false ∧ dev.image.diskReqCb = true then some total else none

def imageServes (dev : BlkDev Disk) : Execution → Option (BlkDev Disk × Option Int)
  | .transfer direction sector iov iovcount =>
      match dev.image.ops.operation direction with
      | none => some (dev, finished dev 0)
      | some op =>
          let moved := op dev.disk dev.guest.bytes sector iov iovcount
          match moved.total with
          | none => none
          | some total =>
              if total < 0 then some (dev.transferred moved, none)
              else some (dev.transferred moved, finished dev total)
  | .flush =>
      let flushed := diskImageFlush dev.image dev.disk
      some ({ dev with disk := flushed.2 }, some flushed.1)
  | .getId buffer =>
      match diskImageGetSerial dev.image dev.guest.bytes buffer virtioBlkIdBytes with
      | none => none
      | some (len, bytes) =>
          some ({ dev with guest := { dev.guest with bytes := bytes } }, some len)
  | .refused => some (dev, none)

def statusPointer (req : BlkDevReq) : Option HostPtr := (req.iov (req.entries - 1)).iovBase

def completeServed (req : BlkDevReq) : BlkDev Disk × Option Int → Except Fault (BlkDev Disk)
  | (dev, none) => .ok dev
  | (dev, some len) =>
      match statusPointer req with
      | none => .error .nullMapping
      | some _ =>
          match virtioBlkComplete dev req len with
          | none => .error .service
          | some next => .ok next

def virtioBlkDoIoRequest (dev : BlkDev Disk) (req : BlkDevReq) : Except Fault (BlkDev Disk) :=
  match (req.iov 0).iovBase with
  | none => .error .nullMapping
  | some header =>
      match imageServes dev (execution dev req header) with
      | none => .error .service
      | some served => completeServed req served

def serveHead (useGnttab : Option Bool) (dev : BlkDev Disk) (head : UInt16) (answers : Answers) :
    Except Fault (Server Disk) :=
  if head.toNat < virtioBlkQueueSize then do
    let (w, model) ← virtQueueGetHeadIov useGnttab dev head answers
    let req : BlkDevReq := ⟨w.iov, w.outCount, w.inCount, head⟩
    let next ← virtioBlkDoIoRequest { dev with reqs := put dev.reqs head.toNat req } req
    .ok ⟨next, model⟩
  else .error .outside

/-- What the guest has in its memory when the loop comes round. -/
def turnOf (ring : RingMemory) (bytes : Nat → UInt8) : Turn := ⟨ring, memory bytes true⟩

def virtioBlkDoIo (s : Server Disk) (turn : Turn) (answers : Answers) :
    Except Fault (Server Disk) :=
  let seen := s.dev.seen turn
  if virtQueueAvailableLoad seen.ring seen.vq = true ∧ seen.ioDone = false then
    serveHead s.useGnttab seen.pop (virtQueuePop seen.ring seen.vq).1 answers
  else .ok { s with dev := seen }

/-- The mapping of virtio_init_device_vq, for the queue as it is before. -/
def virtioInitDeviceVq (s : Server Disk) (vq : VirtQueue) (host : HostAnswers) :
    Except Fault (Server Disk) :=
  match mapRings vq virtioBlkQueueSize ⟨s.useGnttab, []⟩ host with
  | none => .error .bugOn
  | some (vring, after) =>
      .ok ⟨{ s.dev with vq := { vq with vring := vring } }, after.useGnttab⟩

inductive Action where
  | activate (vq : VirtQueue) (host : HostAnswers)
  | turn (ring : RingMemory) (bytes : Nat → UInt8) (answers : Answers)

def step (s : Server Disk) : Action → Except Fault (Server Disk)
  | .activate vq host => virtioInitDeviceVq s vq host
  | .turn ring bytes answers => virtioBlkDoIo s (turnOf ring bytes) answers

/-! What the guest and the host have to do with it. -/

/-- The descriptors that are visited before the chain ends or `iov` does. -/
def visited (table : Table) : Nat → UInt16 → List VringDesc
  | 0, _ => []
  | left + 1, idx =>
      let next := nextDesc table.desc idx table.max
      table.desc idx.toNat :: if next = table.max then [] else visited table left next

def chainOf (dev : BlkDev Disk) (head : UInt16) : List VringDesc :=
  visited (tableOf dev head) virtioBlkQueueSize (tableOf dev head).first

/-- The entries of a chain whose addresses are all of the model; none if `iov` is too short. -/
def gather (bytes : Nat → UInt8) (table : Table) (entry : Nat → Option GuestMapping.HostPages) :
    Nat → UInt16 → HeadIov → Option HeadIov
  | 0, _, _ => none
  | left + 1, idx, w =>
      let next := nextDesc table.desc idx table.max
      let mapped := (entry w.stored.length).isSome
      let w := storeIovec (memory bytes mapped) table.bound idx.toNat (table.desc idx.toNat) w
      if next = table.max then some w else gather bytes table entry left next w

def requestOf (dev : BlkDev Disk) (head : UInt16) (answers : Answers) : Option BlkDevReq :=
  (gather dev.guest.bytes (tableOf dev head) answers.entry virtioBlkQueueSize
    (tableOf dev head).first (started dev head)).map
    fun w => ⟨w.iov, w.outCount, w.inCount, head⟩

/-- Some map call of the request fails. -/
def Affected (dev : BlkDev Disk) (head : UInt16) (answers : Answers) : Prop :=
  (indirect dev head = true ∧ answers.table = none) ∨
    ∃ i < (chainOf dev head).length, answers.entry i = none

/-- The header is mapped, and so is the status byte of a request that is completed. An
affected request is come back from, and if it is completed, with an error. -/
structure Completable (dev : BlkDev Disk) (req : BlkDevReq) (affected : Prop) : Prop where
  header : (req.iov 0).iovBase ≠ none
  served : affected → ∀ header, (req.iov 0).iovBase = some header →
    imageServes dev (execution dev req header) ≠ none
  status : ∀ header, (req.iov 0).iovBase = some header → ∀ next len,
    imageServes dev (execution dev req header) = some (next, some len) →
      ∃ status, statusPointer req = some status ∧
        (affected → status.writable = true ∧ len < 0)

/-- A request whose addresses are all of the model, and whose failing map calls are not
those of the table, the header, a status byte that is stored or data that is touched. -/
structure SoundHead (model : Bool) (dev : BlkDev Disk) (head : UInt16) (answers : Answers) :
    Prop where
  table : indirect dev head = true →
    GuestMapping.grantAddress (dev.ring.desc head.toNat).addr = model ∧ answers.table ≠ none
  addresses : ∀ desc ∈ chainOf dev head, GuestMapping.grantAddress desc.addr = model
  request : ∀ req, requestOf dev head answers = some req →
    Completable { dev with reqs := put dev.reqs head.toNat req } req (Affected dev head answers)

/-- The rings are mapped, at addresses of the model. -/
def SoundRings (model : Bool) (addr : VringAddr) (host : HostAnswers) : Prop :=
  ∀ call ∈ ringCalls addr host, GuestMapping.grantAddress call.1 = model ∧ call.2 ≠ none

def Popping (dev : BlkDev Disk) : Prop :=
  virtQueueAvailableLoad dev.ring dev.vq = true ∧ dev.ioDone = false

def Sound (model : Bool) (s : Server Disk) : Action → Prop
  | .activate vq host => SoundRings model vq.vringAddr host
  | .turn ring bytes answers =>
      let seen := s.dev.seen (turnOf ring bytes)
      let head := (virtQueuePop seen.ring seen.vq).1
      Popping seen → head.toNat < virtioBlkQueueSize → SoundHead model seen.pop head answers

/-! What is asked of the server. -/

/-- Nothing that a guest addresses ends the server. -/
def Survives (result : Except Fault (Server Disk)) : Prop :=
  ∀ fault, result = .error fault → ¬ fault.ofAddress

/-- A request with a failed map call is come back from. -/
def Returns (affected : Prop) (result : Except Fault (Server Disk)) : Prop :=
  affected → result ≠ .error .service

/-- A request is not reported as done when a map call of it failed, and the others
are served as they would be on a server that can map everything. -/
structure Isolated (dev : BlkDev Disk) (head : UInt16) (answers : Answers) (next : BlkDev Disk) :
    Prop where
  failed : Affected dev head answers →
    ∀ address, Event.status address virtioBlkSOk ∉ next.log.drop dev.log.length
  others : ∀ i, i ≠ head.toNat → next.reqs i = dev.reqs i
  earlier : dev.log <+: next.log
  served : ¬ Affected dev head answers → ∃ req, popRequest dev head = some req ∧
    BlkDevice.virtioBlkDoIoRequest { dev with reqs := put dev.reqs head.toNat req } req = some next

def Withstands (s : Server Disk) (action : Action) : Prop :=
  Survives (step s action) ∧
    match action with
    | .activate _ _ => ∀ next, step s action = .ok next →
        next.dev.reqs = s.dev.reqs ∧ next.dev.log = s.dev.log
    | .turn ring bytes answers =>
        let seen := s.dev.seen (turnOf ring bytes)
        let head := (virtQueuePop seen.ring seen.vq).1
        Popping seen → Returns (Affected seen.pop head answers) (step s action) ∧
          ∀ next, step s action = .ok next → Isolated seen.pop head answers next.dev

section Mapping
variable {model : Bool} {addr : UInt64} (size : UInt64) (answer : Option GuestMapping.HostPages)

theorem map_refused (other : GuestMapping.grantAddress addr ≠ model) :
    demuMapGuestRange (some model) addr size answer = .error .bugOn := by
  have refused : GuestMapping.latch (some model) (GuestMapping.grantAddress addr) = none := by
    simp [GuestMapping.latch, other.symm]
  simp [demuMapGuestRange,
    GuestMapping.map_range_refused (s := ⟨some model, []⟩) size answer refused]

theorem map_latched (same : GuestMapping.grantAddress addr = model) :
    ∃ ptr, demuMapGuestRange (some model) addr size answer = .ok (ptr, some model) ∧
      (ptr = 0 ↔ answer = none) := by
  have latched : GuestMapping.latch (some model) (GuestMapping.grantAddress addr) = some model := by
    simp [GuestMapping.latch, same]
  obtain ⟨ptr, after, mapped, known, null⟩ :=
    GuestMapping.map_range_latched (s := ⟨some model, []⟩) size answer latched
  refine ⟨ptr, ?_, by rw [null, Option.isNone_iff_eq_none]⟩
  simp [demuMapGuestRange, mapped, known]

end Mapping

section Walk
variable {model : Bool} {bytes : Nat → UInt8} {table : Table}
  {entry : Nat → Option GuestMapping.HostPages}

def walkedOf (model : Bool) : Option HeadIov → Except Fault (HeadIov × Option Bool)
  | none => .error .outside
  | some w => .ok (w, some model)

/-- At addresses of the model the walk gathers the entries. -/
theorem walk_gathers {left : Nat} {idx : UInt16} (w : HeadIov)
    (same : ∀ desc ∈ visited table left idx, GuestMapping.grantAddress desc.addr = model) :
    walkChain bytes table entry left idx w (some model) =
      walkedOf model (gather bytes table entry left idx w) := by
  induction left generalizing idx w with
  | zero => rfl
  | succ left ih =>
      simp only [visited, List.mem_cons, forall_eq_or_imp] at same
      obtain ⟨now, later⟩ := same
      obtain ⟨ptr, mapped, null⟩ := map_latched
        (table.desc idx.toNat).len.toUInt64 (entry w.stored.length) now
      have present : (ptr != 0) = (entry w.stored.length).isSome := by
        rw [Bool.eq_iff_iff, bne_iff_ne, Option.isSome_iff_ne_none]
        exact null.not
      simp only [walkChain, gather, mapped, present, bind, Except.bind]
      split
      · rfl
      · rename_i more
        rw [if_neg more] at later
        exact ih _ later

theorem walk_refused {left : Nat} {idx : UInt16} (w : HeadIov)
    (other : ∃ desc ∈ visited table left idx, GuestMapping.grantAddress desc.addr ≠ model) :
    walkChain bytes table entry left idx w (some model) = .error .bugOn := by
  induction left generalizing idx w with
  | zero => simp [visited] at other
  | succ left ih =>
      by_cases now : GuestMapping.grantAddress (table.desc idx.toNat).addr = model
      · obtain ⟨ptr, mapped, _⟩ := map_latched
          (table.desc idx.toNat).len.toUInt64 (entry w.stored.length) now
        obtain ⟨desc, member, different⟩ := other
        simp only [visited, List.mem_cons] at member
        rcases member with rfl | behind
        · exact absurd now different
        · simp only [walkChain, mapped, bind, Except.bind]
          split
          · rename_i last
            simp [last] at behind
          · rename_i more
            rw [if_neg more] at behind
            exact ih _ ⟨desc, behind, different⟩
      · simp [walkChain, map_refused _ _ now, bind, Except.bind]

/-- With every entry mapped it is the walk of a memory that maps everything. -/
theorem gather_mapped {left : Nat} {idx : UInt16} (w : HeadIov)
    (mapped : ∀ i < (visited table left idx).length, entry (w.stored.length + i) ≠ none) :
    gather bytes table entry left idx w =
      DescriptorChain.walkChain (memory bytes true) table.desc table.bound table.max left idx
        w := by
  induction left generalizing idx w with
  | zero => rfl
  | succ left ih =>
      have now : (entry w.stored.length).isSome = true :=
        Option.isSome_iff_ne_none.mpr (mapped 0 (by simp [visited]))
      simp only [gather, DescriptorChain.walkChain, now]
      split
      · rfl
      · rename_i more
        apply ih
        intro i inside
        have later := mapped (i + 1) (by simpa [visited, more] using inside)
        simpa [storeIovec, Nat.add_assoc, Nat.add_comm 1] using later

theorem gather_short {left : Nat} {idx : UInt16} {w result : HeadIov}
    (gathered : gather bytes table entry left idx w = some result) :
    result.stored.length ≤ w.stored.length + left := by
  induction left generalizing idx w with
  | zero => cases gathered
  | succ left ih =>
      simp only [gather] at gathered
      split at gathered
      · cases gathered
        simp only [storeIovec, List.length_append, List.length_singleton]
        omega
      · have short := ih gathered
        simp only [storeIovec, List.length_append, List.length_singleton] at short
        omega

end Walk

section Head
variable {model : Bool} {dev : BlkDev Disk} {head : UInt16} {answers : Answers}

/-- The table and the descriptors of a request can be mapped by the model. -/
def Reachable (model : Bool) (dev : BlkDev Disk) (head : UInt16) (answers : Answers) : Prop :=
  (indirect dev head = true →
    GuestMapping.grantAddress (dev.ring.desc head.toNat).addr = model ∧ answers.table ≠ none) ∧
  ∀ desc ∈ chainOf dev head, GuestMapping.grantAddress desc.addr = model

theorem head_iov_gathers (reachable : Reachable model dev head answers) :
    virtQueueGetHeadIov (some model) dev head answers =
      walkedOf model (gather dev.guest.bytes (tableOf dev head) answers.entry virtioBlkQueueSize
        (tableOf dev head).first (started dev head)) := by
  obtain ⟨table, addresses⟩ := reachable
  unfold virtQueueGetHeadIov
  cases direct : indirect dev head with
  | false =>
      simp only [chainOf, tableOf, direct, Bool.false_eq_true, if_false] at addresses ⊢
      exact walk_gathers _ addresses
  | true =>
      simp only [chainOf, tableOf, direct, if_true] at addresses ⊢
      obtain ⟨same, answered⟩ := table direct
      obtain ⟨ptr, mapped, null⟩ := map_latched
        (dev.ring.desc head.toNat).len.toUInt64 answers.table same
      simp only [mapped, bind, Except.bind, null, answered, if_false]
      exact walk_gathers _ addresses

theorem head_iov_faults (unreachable : ¬ Reachable model dev head answers) :
    ∃ fault, virtQueueGetHeadIov (some model) dev head answers = .error fault ∧
      fault.ofAddress := by
  unfold virtQueueGetHeadIov
  cases direct : indirect dev head with
  | false =>
      simp only [Reachable, chainOf, tableOf, direct, Bool.false_eq_true, if_false, false_implies,
        true_and, not_forall, exists_prop] at unreachable ⊢
      exact ⟨.bugOn, walk_refused _ unreachable, trivial⟩
  | true =>
      simp only [Reachable, chainOf, tableOf, direct, if_true, forall_const] at unreachable ⊢
      by_cases same : GuestMapping.grantAddress (dev.ring.desc head.toNat).addr = model
      · obtain ⟨ptr, mapped, null⟩ := map_latched
          (dev.ring.desc head.toNat).len.toUInt64 answers.table same
        by_cases missing : answers.table = none
        · refine ⟨.nullMapping, ?_, trivial⟩
          simp only [mapped, bind, Except.bind, null.mpr missing, if_true]
        · refine ⟨.bugOn, ?_, trivial⟩
          simp only [mapped, bind, Except.bind, null, missing, if_false]
          apply walk_refused
          simpa [same, missing] using unreachable
      · exact ⟨.bugOn, by simp [map_refused _ _ same, bind, Except.bind], trivial⟩

end Head

/-! What the service of a request leaves alone. -/

section Served
variable {dev next : BlkDev Disk} {req : BlkDevReq}

/-- The two parts are the request. -/
theorem execute_in_parts (e : Execution) :
    execute dev req e = (imageServes dev e).bind fun served =>
      match served.2 with
      | none => some served.1
      | some len => virtioBlkComplete served.1 req len := by
  cases e with
  | refused => rfl
  | flush => rfl
  | getId buffer =>
      simp only [execute, imageServes]
      cases diskImageGetSerial dev.image dev.guest.bytes buffer virtioBlkIdBytes <;> rfl
  | transfer direction sector iov iovcount =>
      simp only [execute, imageServes, diskImageTransfer, finished]
      cases dev.image.ops.operation direction with
      | none =>
          simp only [Option.bind_some]
          split <;> rfl
      | some op =>
          cases total : (op dev.disk dev.guest.bytes sector iov iovcount).total with
          | none => simp [total]
          | some count =>
              simp only [total, BlkDev.transferred]
              by_cases failed : count < 0
              · simp [failed]
              · by_cases calls : dev.image.async = false ∧ dev.image.diskReqCb = true
                · simp [failed, calls]
                · simp [failed, calls]

theorem image_serves_frame {e : Execution} {len : Option Int}
    (served : imageServes dev e = some (next, len)) :
    next.log = dev.log ∧ next.reqs = dev.reqs := by
  cases e with
  | refused =>
      cases served
      exact ⟨rfl, rfl⟩
  | flush =>
      cases served
      exact ⟨rfl, rfl⟩
  | getId buffer =>
      simp only [imageServes] at served
      split at served
      · cases served
      · cases served
        exact ⟨rfl, rfl⟩
  | transfer direction sector iov iovcount =>
      simp only [imageServes] at served
      split at served
      · cases served
        exact ⟨rfl, rfl⟩
      · split at served
        · cases served
        · split at served
          · cases served
            exact ⟨rfl, rfl⟩
          · cases served
            exact ⟨rfl, rfl⟩

theorem complete_frames {len : Int} (done : virtioBlkComplete dev req len = some next) :
    next.reqs = put dev.reqs req.head.toNat req.unmapAll ∧ ∃ address id, next.log = dev.log ++
      [.status address (if len < 0 then virtioBlkSIoerr else virtioBlkSOk),
        .usedElem id (UInt32.ofInt len)] := by
  unfold virtioBlkComplete at done
  split at done
  · cases done
  · cases done
    exact ⟨rfl, _, _, rfl⟩

/-- A step that is done is a step of the ordinary device. -/
theorem request_done (done : virtioBlkDoIoRequest dev req = .ok next) :
    BlkDevice.virtioBlkDoIoRequest dev req = some next ∧
      (∀ i, i ≠ req.head.toNat → next.reqs i = dev.reqs i) ∧ dev.log <+: next.log := by
  unfold virtioBlkDoIoRequest at done
  cases first : (req.iov 0).iovBase with
  | none => simp [first] at done
  | some header =>
      rw [do_io_request_executes first, execute_in_parts]
      cases service : imageServes dev (execution dev req header) with
      | none => simp [first, service] at done
      | some served =>
          obtain ⟨after, len⟩ := served
          obtain ⟨log, reqs⟩ := image_serves_frame service
          simp only [first, service] at done
          cases len with
          | none =>
              cases done
              exact ⟨rfl, fun i _ => by rw [reqs], by rw [log]⟩
          | some len =>
              simp only [completeServed] at done
              cases status : statusPointer req with
              | none => simp [status] at done
              | some pointer =>
                  cases completed : virtioBlkComplete after req len with
                  | none => simp [status, completed] at done
                  | some final =>
                      simp only [status, completed] at done
                      cases done
                      obtain ⟨kept, address, id, events⟩ := complete_frames completed
                      refine ⟨completed, fun i other => ?_, ?_⟩
                      · rw [kept, put_other _ _ _ _ other, reqs]
                      · rw [events, log]
                        exact List.prefix_append _ _

theorem complete_defined (after : BlkDev Disk) (len : Int) {pointer : HostPtr}
    (status : statusPointer req = some pointer) :
    (∃ next, virtioBlkComplete after req len = some next) ↔ pointer.writable = true := by
  obtain ⟨address, writable⟩ := pointer
  unfold statusPointer at status
  cases writable <;> simp [virtioBlkComplete, status, storeTarget]

/-- Served with no fault of an address; if it is affected, come back from and not
reported as done. -/
structure Honest (dev : BlkDev Disk) (affected : Prop) (result : Except Fault (BlkDev Disk)) :
    Prop where
  survives : ∀ fault, result = .error fault → ¬ fault.ofAddress
  returns : affected → result ≠ .error .service
  failed : ∀ next, result = .ok next → affected →
    ∀ address, Event.status address virtioBlkSOk ∉ next.log.drop dev.log.length

theorem completed_honest_iff {affected : Prop} {after : BlkDev Disk} {len : Int}
    (log : after.log = dev.log) :
    Honest dev affected (completeServed req (after, some len)) ↔
      ∃ status, statusPointer req = some status ∧
        (affected → status.writable = true ∧ len < 0) := by
  cases status : statusPointer req with
  | none =>
      simp only [completeServed, status]
      apply iff_of_false
      · intro honest
        exact honest.survives .nullMapping rfl trivial
      · simp
  | some pointer =>
      have defined : _ ↔ _ := complete_defined after len status
      simp only [completeServed, status, Option.some.injEq, exists_eq_left']
      cases completed : virtioBlkComplete after req len with
      | none =>
          have readOnly : ¬ pointer.writable = true := by simp [← defined, completed]
          constructor
          · exact fun honest affected => absurd rfl (honest.returns affected)
          · intro needed
            refine ⟨?_, fun affected => absurd (needed affected).1 readOnly, ?_⟩
            · simp [Fault.ofAddress]
            · simp
      | some final =>
          have writable : pointer.writable = true := by simp [← defined, completed]
          obtain ⟨_, address, id, events⟩ := complete_frames completed
          rw [log] at events
          constructor
          · intro honest affected
            refine ⟨writable, ?_⟩
            by_contra kept
            have done := honest.failed final rfl affected address
            simp [events, kept] at done
          · intro needed
            refine ⟨by simp, by simp, ?_⟩
            intro next same affected
            cases same
            simp [events, (needed affected).2, virtioBlkSOk, virtioBlkSIoerr]

theorem honest_iff_completable (affected : Prop) :
    Honest dev affected (virtioBlkDoIoRequest dev req) ↔ Completable dev req affected := by
  cases first : (req.iov 0).iovBase with
  | none =>
      apply iff_of_false
      · intro honest
        exact honest.survives .nullMapping (by simp [virtioBlkDoIoRequest, first]) trivial
      · exact fun completable => completable.header first
  | some header =>
      have mapped : ∀ other, (req.iov 0).iovBase = some other ↔ header = other := by simp [first]
      have needed : Completable dev req affected ↔
          (affected → imageServes dev (execution dev req header) ≠ none) ∧ ∀ next len,
          imageServes dev (execution dev req header) = some (next, some len) →
            ∃ status, statusPointer req = some status ∧
              (affected → status.writable = true ∧ len < 0) := by
        constructor
        · intro completable
          exact ⟨fun present => completable.served present header first,
            completable.status header first⟩
        · rintro ⟨served, status⟩
          refine ⟨by simp [first], ?_, ?_⟩
          · intro present other same
            rw [← (mapped other).mp same]
            exact served present
          · intro other same
            rwa [← (mapped other).mp same]
      rw [needed]
      simp only [virtioBlkDoIoRequest, first]
      cases service : imageServes dev (execution dev req header) with
      | none =>
          constructor
          · exact fun honest => ⟨fun affected => absurd rfl (honest.returns affected), by simp⟩
          · rintro ⟨served, _⟩
            exact ⟨by simp [Fault.ofAddress], fun affected => absurd rfl (served affected), by simp⟩
      | some served =>
          obtain ⟨after, len⟩ := served
          obtain ⟨log, _⟩ := image_serves_frame service
          cases len with
          | none =>
              have quiet : Honest dev affected (completeServed req (after, none)) :=
                ⟨by simp [completeServed], by simp [completeServed], by simp [completeServed, log]⟩
              simpa using quiet
          | some len => simpa using completed_honest_iff log

end Served

section Step
variable {model : Bool} {dev : BlkDev Disk} {head : UInt16} {answers : Answers}

theorem unaffected_popped {bytes : Nat → UInt8} {req : BlkDevReq}
    (everything : dev.guest = memory bytes true) (inside : head.toNat < virtioBlkQueueSize)
    (requested : requestOf dev head answers = some req)
    (unaffected : ¬ Affected dev head answers) : popRequest dev head = some req := by
  simp only [Affected, not_or, not_and, not_exists] at unaffected
  obtain ⟨table, entries⟩ := unaffected
  obtain ⟨w, gathered, rfl⟩ := Option.map_eq_some_iff.mp requested
  have short := gather_short gathered
  have mapped : ∀ i < (chainOf dev head).length,
      answers.entry ((started dev head).stored.length + i) ≠ none := by
    simpa [started] using entries
  have bytesOf : dev.guest.bytes = bytes := by rw [everything, memory]
  rw [gather_mapped _ mapped, bytesOf] at gathered
  have walked : DescriptorChain.virtQueueGetHeadIov dev.guest dev.ring dev.vq
      (dev.reqs head.toNat).iov head virtioBlkQueueSize = some w := by
    cases direct : indirect dev head with
    | false =>
        rw [head_iov_direct direct, everything]
        simpa [tableOf, direct, ringTable, started] using gathered
    | true =>
        rw [head_iov_indirect direct (by simp [everything, memory]), everything]
        simpa [tableOf, direct, indirectTable, started, everything] using gathered
  exact pop_request_iff.mpr
    ⟨inside, w, head_iov_enough walked, by simpa [started] using short, rfl⟩

theorem head_withstands_iff {bytes : Nat → UInt8} (everything : dev.guest = memory bytes true)
    (inside : head.toNat < virtioBlkQueueSize) :
    (Survives (serveHead (some model) dev head answers) ∧
      Returns (Affected dev head answers) (serveHead (some model) dev head answers) ∧
      ∀ next, serveHead (some model) dev head answers = .ok next →
        Isolated dev head answers next.dev) ↔ SoundHead model dev head answers := by
  by_cases reachable : Reachable model dev head answers
  case neg =>
    obtain ⟨fault, refused, ofAddress⟩ := head_iov_faults reachable
    apply iff_of_false
    · intro withstands
      apply withstands.1 fault _ ofAddress
      simp [serveHead, inside, refused, bind, Except.bind]
    · exact fun sound => reachable ⟨sound.table, sound.addresses⟩
  case pos =>
    have sound : SoundHead model dev head answers ↔ ∀ req, requestOf dev head answers = some req →
        Honest { dev with reqs := put dev.reqs head.toNat req } (Affected dev head answers)
          (virtioBlkDoIoRequest { dev with reqs := put dev.reqs head.toNat req } req) := by
      simp only [honest_iff_completable]
      exact ⟨fun sound => sound.request, fun completable =>
        ⟨reachable.1, reachable.2, completable⟩⟩
    rw [sound, requestOf]
    simp only [serveHead, inside, if_true, head_iov_gathers reachable]
    cases gathered : gather dev.guest.bytes (tableOf dev head) answers.entry virtioBlkQueueSize
        (tableOf dev head).first (started dev head) with
    | none =>
        simp [walkedOf, bind, Except.bind, Survives, Returns, Fault.ofAddress]
    | some w =>
        have requested :
            requestOf dev head answers = some ⟨w.iov, w.outCount, w.inCount, head⟩ := by
          simp [requestOf, gathered]
        simp only [walkedOf, bind, Except.bind, Option.map_some, Option.some.injEq, forall_eq']
        generalize same : (⟨w.iov, w.outCount, w.inCount, head⟩ : BlkDevReq) = req at requested
        have popped : req.head = head := by rw [← same]
        cases served :
          virtioBlkDoIoRequest { dev with reqs := put dev.reqs head.toNat req } req with
        | error fault =>
            constructor
            · rintro ⟨survives, returns, _⟩
              exact ⟨by simpa [Survives] using survives, by simpa [Returns] using returns, by simp⟩
            · intro honest
              exact ⟨by simpa [Survives] using honest.survives,
                by simpa [Returns] using honest.returns, by simp⟩
        | ok next =>
            obtain ⟨ordinary, reqs, earlier⟩ := request_done served
            constructor
            · rintro ⟨_, _, isolated⟩
              refine ⟨by simp, by simp, ?_⟩
              intro other done
              cases done
              exact (isolated _ rfl).failed
            · intro honest
              refine ⟨by simp [Survives], by simp [Returns], ?_⟩
              intro other done
              cases done
              refine ⟨honest.failed next rfl, ?_, earlier, ?_⟩
              · intro i elsewhere
                rw [reqs i (by rwa [popped])]
                exact put_other _ _ _ _ elsewhere
              · intro unaffected
                exact ⟨req, unaffected_popped everything inside requested unaffected, ordinary⟩

theorem head_keeps_model {useGnttab : Option Bool} {next : Server Disk}
    (known : useGnttab = some model)
    (served : serveHead useGnttab dev head answers = .ok next) : next.useGnttab = some model := by
  subst known
  unfold serveHead at served
  split at served
  · obtain ⟨⟨w, after⟩, walked, later⟩ := bind_ok served
    obtain ⟨_, _, stored⟩ := bind_ok later
    cases stored
    by_cases reachable : Reachable model dev head answers
    · rw [head_iov_gathers reachable] at walked
      generalize gather dev.guest.bytes (tableOf dev head) answers.entry virtioBlkQueueSize
        (tableOf dev head).first (started dev head) = gathered at walked
      cases gathered <;> cases walked
      rfl
    · obtain ⟨fault, refused, _⟩ := head_iov_faults reachable
      rw [refused] at walked
      cases walked
  · cases served

theorem activation_withstands_iff {s : Server Disk} (known : s.useGnttab = some model)
    (vq : VirtQueue) (host : HostAnswers) :
    Withstands s (.activate vq host) ↔ SoundRings model vq.vringAddr host := by
  have latch := map_rings_latch vq virtioBlkQueueSize ⟨s.useGnttab, []⟩ host
  obtain ⟨sound, refused⟩ := GuestMapping.latch_all_known model (ringCalls vq.vringAddr host)
  simp only [known] at latch
  simp only [Withstands, Survives, step, virtioInitDeviceVq, known]
  by_cases rings : SoundRings model vq.vringAddr host
  · rw [sound rings] at latch
    obtain ⟨⟨vring, after⟩, mapped, _⟩ := Option.map_eq_some_iff.mp latch
    simp [mapped, rings]
  · rw [refused rings] at latch
    rw [Option.map_eq_none_iff.mp latch]
    simp [rings, Fault.ofAddress]

theorem turn_withstands_iff {s : Server Disk} (known : s.useGnttab = some model)
    (ring : RingMemory) (bytes : Nat → UInt8) (answers : Answers) :
    Withstands s (.turn ring bytes answers) ↔ Sound model s (.turn ring bytes answers) := by
  have step_eq : step s (.turn ring bytes answers) =
    virtioBlkDoIo s (turnOf ring bytes) answers := rfl
  simp only [Withstands, Sound, Popping, step_eq, virtioBlkDoIo]
  generalize seenAs : s.dev.seen (turnOf ring bytes) = seen
  have everything : seen.pop.guest = memory bytes true := by
    rw [← seenAs]
    rfl
  by_cases popping : virtQueueAvailableLoad seen.ring seen.vq = true ∧ seen.ioDone = false
  · simp only [known, popping]
    by_cases inside : (virtQueuePop seen.ring seen.vq).1.toNat < virtioBlkQueueSize
    · simpa [inside] using head_withstands_iff everything inside
    · simp [serveHead, inside, Survives, Returns, Fault.ofAddress]
  · simp [popping, Survives]

theorem withstands_iff_sound {s : Server Disk} (known : s.useGnttab = some model)
    (action : Action) : Withstands s action ↔ Sound model s action := by
  cases action with
  | activate vq host => exact activation_withstands_iff known vq host
  | turn ring bytes answers => exact turn_withstands_iff known ring bytes answers

theorem step_keeps_model {s next : Server Disk} {action : Action}
    (known : s.useGnttab = some model) (taken : step s action = .ok next) :
    next.useGnttab = some model := by
  cases action with
  | activate vq host =>
      have latch := map_rings_latch vq virtioBlkQueueSize ⟨s.useGnttab, []⟩ host
      obtain ⟨sound, refused⟩ := GuestMapping.latch_all_known model (ringCalls vq.vringAddr host)
      simp only [known] at latch
      simp only [step, virtioInitDeviceVq, known] at taken
      by_cases rings : SoundRings model vq.vringAddr host
      · rw [sound rings] at latch
        obtain ⟨⟨vring, after⟩, mapped, same⟩ := Option.map_eq_some_iff.mp latch
        rw [mapped] at taken
        cases taken
        exact same
      · rw [refused rings] at latch
        rw [Option.map_eq_none_iff.mp latch] at taken
        cases taken
  | turn ring bytes answers =>
      simp only [step, virtioBlkDoIo] at taken
      split at taken
      · exact head_keeps_model known taken
      · cases taken
        exact known

/-- In whatever order the addresses come and the map calls fail, a run keeps what is
asked of it exactly if each of its steps is sound. -/
theorem bad_addresses_withstood_iff {s : Server Disk} (known : s.useGnttab = some model)
    (actions : List Action) :
    Meets step Withstands s actions ↔ Meets step (Sound model) s actions :=
  meets_iff (fun _ _ _ => step_keeps_model)
    (fun _ action known => withstands_iff_sound known action) known actions

end Step

/-! One published read on a server that maps foreign pages, and the host's answers:
every page, or all but those of the header. -/

def foreignServer : Server ReadWrite.OpenFile := ⟨FlatDisk.rawDevice, some false⟩

def hostPages : GuestMapping.HostPages := ⟨0x80000, by decide, by decide, by decide⟩

def everyPage : Answers := ⟨some hostPages, fun _ => some hostPages⟩

def noHeader : Answers := ⟨some hostPages, fun i => if i = 0 then none else some hostPages⟩

theorem mapped_read_withstood :
    Meets step Withstands foreignServer [.turn oneRead.ring (fun _ => 0) everyPage] := by
  apply (bad_addresses_withstood_iff rfl _).mpr
  refine ⟨?_, ?_⟩
  · intro popping inside
    constructor
    · decide
    · decide
    · intro req requested
      cases requested
      constructor
      · exact fun missing => nomatch missing
      · rintro (⟨_, none⟩ | ⟨i, _, none⟩)
        · cases none
        · cases none
      · intro header first next len served
        refine ⟨⟨0x3000, true⟩, rfl, ?_⟩
        rintro (⟨_, none⟩ | ⟨i, _, none⟩)
        · cases none
        · cases none
  · generalize step foreignServer _ = result
    cases result <;> trivial

theorem unmapped_header_dereferenced :
    ¬ Meets step Withstands foreignServer [.turn oneRead.ring (fun _ => 0) noHeader] := by
  rintro ⟨withstands, _⟩
  exact withstands.1 .nullMapping rfl trivial

end VirtioDisk.BadAddress
