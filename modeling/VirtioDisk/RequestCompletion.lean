import VirtioDisk.BlkDevice

/-!
Completion of requests, over runs of the loop in the synchronous build. A
request is answered when its callback writes the status byte and the used
element. FLUSH and GET_ID call it whatever the outcome; IN and OUT call it only
when the operation of the image is missing or did not return an error; no other
type calls it.
-/

namespace VirtioDisk.RequestCompletion

open BlkDevice DescriptorChain ByteStore Virtqueue Transition

variable {Disk : Type}

/-- Every popped head is followed by one status byte and one used element with its id. -/
inductive Served : List Event → Prop where
  | nil : Served []
  | request {log} (head : UInt16) (address : Nat) (value : UInt8) (len : UInt32) : Served log →
      value = virtioBlkSOk ∨ value = virtioBlkSIoerr →
      Served (log ++ [.popped head, .status address value, .usedElem head.toUInt32 len])

/-- The operation is missing, or comes back without an error. -/
def Succeeds (op : Option (Transfer Disk)) (dev : BlkDev Disk) (sector : UInt64)
    (iov : List Iovec) (iovcount : Int) : Prop :=
  ∀ transfer, op = some transfer → ∃ total,
    (transfer dev.disk dev.guest.bytes sector iov iovcount).total = some total ∧ 0 ≤ total

/-- The request types, with the outcomes, for which the code calls `virtio_blk_complete`. -/
def Reported (dev : BlkDev Disk) (req : BlkDevReq) (header : HostPtr) : Prop :=
  let type := u32At dev.guest.bytes header.address
  let sector := u64At dev.guest.bytes (header.address + 8)
  let data := req.behindHeader
  let count : Int := (req.entries : Int) - 2
  if type = virtioBlkTIn then Succeeds dev.image.ops.read dev sector data count
  else if type = virtioBlkTOut then Succeeds dev.image.ops.write dev sector data count
  else if type = virtioBlkTFlush then True
  else if type = virtioBlkTGetId then
    dev.image.fstat.isNone = true ∨ storeTarget (req.iov 1).iovBase ≠ none
  else False

/-- The header and the status byte are mapped, and the type is reported. -/
def Answered (dev : BlkDev Disk) (req : BlkDevReq) : Prop :=
  ∃ header status, (req.iov 0).iovBase = some header ∧
    storeTarget (req.iov (req.entries - 1)).iovBase = some status ∧ Reported dev req header

/-- Nothing is popped in this turn, or the popped request is answered. -/
def Completes (dev : BlkDev Disk) (turn : Turn) : Prop :=
  let seen := dev.seen turn
  virtQueueAvailableLoad seen.ring seen.vq = true ∧ seen.ioDone = false →
    ∃ req, popRequest seen.pop (virtQueuePop seen.ring seen.vq).1 = some req ∧
      Answered seen.pop req

/-- Every turn of the run completes its request, in the state it finds. -/
def EachCompletes : BlkDev Disk → List Turn → Prop
  | _, [] => True
  | dev, turn :: rest => Completes dev turn ∧
      ∀ next, virtioBlkDoIo dev turn = some next → EachCompletes next rest

/-- `disk_req_cb` is set and the image is not asynchronous. -/
def Synchronous (dev : BlkDev Disk) : Prop :=
  dev.image.async = false ∧ dev.image.diskReqCb = true

/-- One reply to `req`, and nothing else in the log. -/
def Replies (dev : BlkDev Disk) (req : BlkDevReq) (next : BlkDev Disk) : Prop :=
  next.image = dev.image ∧ ∃ address value len,
    (value = virtioBlkSOk ∨ value = virtioBlkSIoerr) ∧
    next.log = dev.log ++ [.status address value, .usedElem req.head.toUInt32 len]

def Silent (dev next : BlkDev Disk) : Prop :=
  next.image = dev.image ∧ next.log = dev.log

section Request
variable {dev next : BlkDev Disk} {req : BlkDevReq}

theorem complete_replies {len : Int} (done : virtioBlkComplete dev req len = some next) :
    Replies dev req next := by
  unfold virtioBlkComplete at done
  split at done
  · simp at done
  · next status _ =>
      cases done
      by_cases failed : len < 0
      · exact ⟨rfl, status, virtioBlkSIoerr, UInt32.ofInt len, Or.inr rfl, by simp [failed]⟩
      · exact ⟨rfl, status, virtioBlkSOk, UInt32.ofInt len, Or.inl rfl, by simp [failed]⟩

theorem complete_total {status : Nat} (len : Int)
    (target : storeTarget (req.iov (req.entries - 1)).iovBase = some status) :
    ∃ next, virtioBlkComplete dev req len = some next := by
  simp [virtioBlkComplete, target]

theorem complete_target {len : Int} (done : virtioBlkComplete dev req len = some next) :
    ∃ status, storeTarget (req.iov (req.entries - 1)).iovBase = some status := by
  cases target : storeTarget (req.iov (req.entries - 1)).iovBase with
  | none => simp [virtioBlkComplete, target] at done
  | some status => exact ⟨status, rfl⟩

section Transfers
variable {op : Option (Transfer Disk)} {sector : UInt64} {iov : List Iovec} {iovcount : Int}

theorem transfer_total (sync : Synchronous dev) {status : Nat}
    (target : storeTarget (req.iov (req.entries - 1)).iovBase = some status)
    (succeeds : Succeeds op dev sector iov iovcount) :
    ∃ next, diskImageTransfer op dev sector iov iovcount req = some next := by
  rcases sync with ⟨async, callback⟩
  cases op with
  | none => simpa [diskImageTransfer, async, callback] using complete_total 0 target
  | some transfer =>
      rcases succeeds transfer rfl with ⟨total, result, positive⟩
      have kept : ¬ total < 0 := by omega
      simpa [diskImageTransfer, result, kept, BlkDev.transferred, async, callback] using
        complete_total total target

theorem transfer_cases (sync : Synchronous dev)
    (done : diskImageTransfer op dev sector iov iovcount req = some next) :
    (Succeeds op dev sector iov iovcount ∧ Replies dev req next ∧
      ∃ status, storeTarget (req.iov (req.entries - 1)).iovBase = some status) ∨
    (¬ Succeeds op dev sector iov iovcount ∧ Silent dev next) := by
  rcases sync with ⟨async, callback⟩
  cases op with
  | none =>
      simp only [diskImageTransfer, async, callback, and_self, if_true] at done
      have succeeds : Succeeds none dev sector iov iovcount := by
        intro transfer missing
        simp at missing
      exact Or.inl ⟨succeeds, complete_replies done, complete_target done⟩
  | some transfer =>
      cases result : (transfer dev.disk dev.guest.bytes sector iov iovcount).total with
      | none => simp [diskImageTransfer, result] at done
      | some total =>
          by_cases failed : total < 0
          · simp only [diskImageTransfer, result, failed, if_true, Option.some.injEq] at done
            subst done
            refine Or.inr ⟨fun succeeds => ?_, rfl, rfl⟩
            rcases succeeds transfer rfl with ⟨other, same, positive⟩
            rw [result] at same
            cases same
            omega
          · simp only [diskImageTransfer, result, failed, if_false, BlkDev.transferred, async,
              callback, and_self, if_true] at done
            have succeeds : Succeeds (some transfer) dev sector iov iovcount := by
              intro other same
              cases same
              exact ⟨total, result, by omega⟩
            have replies : Replies (dev.transferred (transfer dev.disk dev.guest.bytes sector iov
                iovcount)) req next := complete_replies done
            exact Or.inl ⟨succeeds, replies, complete_target done⟩

end Transfers

theorem serial_total {image : DiskImage Disk} {bytes : Nat → UInt8} {buffer : Option HostPtr}
    {len : Nat} (writable : image.fstat.isNone = true ∨ storeTarget buffer ≠ none) :
    ∃ serial, diskImageGetSerial image bytes buffer len = some serial := by
  cases stat : image.fstat with
  | none => exact ⟨(len, bytes), by simp [diskImageGetSerial, stat]⟩
  | some values =>
      cases target : storeTarget buffer with
      | none => simp [stat, target] at writable
      | some address => exact ⟨_, by simp only [diskImageGetSerial, stat, target]; rfl⟩

theorem serial_writable {image : DiskImage Disk} {bytes : Nat → UInt8} {buffer : Option HostPtr}
    {len : Nat} {serial : Nat × (Nat → UInt8)}
    (done : diskImageGetSerial image bytes buffer len = some serial) :
    image.fstat.isNone = true ∨ storeTarget buffer ≠ none := by
  cases stat : image.fstat with
  | none => exact Or.inl rfl
  | some values =>
      cases target : storeTarget buffer with
      | none => simp [diskImageGetSerial, stat, target] at done
      | some address => exact Or.inr (by simp)

/-- The branches of the switch, each with the outcomes that it reports. -/
inductive Branch (dev : BlkDev Disk) (req : BlkDevReq) (header : HostPtr) : Prop where
  | transfer (op sector iov iovcount) :
      virtioBlkDoIoRequest dev req = diskImageTransfer op dev sector iov iovcount req →
      (Reported dev req header ↔ Succeeds op dev sector iov iovcount) → Branch dev req header
  | flush (disk len) :
      virtioBlkDoIoRequest dev req = virtioBlkComplete { dev with disk := disk } req len →
      Reported dev req header → Branch dev req header
  | getId (buffer) :
      virtioBlkDoIoRequest dev req =
        (diskImageGetSerial dev.image dev.guest.bytes buffer virtioBlkIdBytes).bind (fun serial =>
          virtioBlkComplete { dev with guest := { dev.guest with bytes := serial.2 } } req
            serial.1) →
      (Reported dev req header ↔ dev.image.fstat.isNone = true ∨ storeTarget buffer ≠ none) →
      Branch dev req header
  | unknown : virtioBlkDoIoRequest dev req = some dev → ¬ Reported dev req header →
      Branch dev req header

-- The types are told apart in the order of the switch.
theorem branch_cases {header : HostPtr} (first : (req.iov 0).iovBase = some header) :
    Branch dev req header := by
  by_cases read : u32At dev.guest.bytes header.address = virtioBlkTIn
  · apply Branch.transfer dev.image.ops.read
    · simp only [virtioBlkDoIoRequest, first, read, if_true, diskImageRead]
      rfl
    · simp only [Reported, read, if_true]
  · by_cases write : u32At dev.guest.bytes header.address = virtioBlkTOut
    · apply Branch.transfer dev.image.ops.write
      · simp only [virtioBlkDoIoRequest, first, read, if_false]
        rw [if_pos write]
        rfl
      · simp only [Reported, read, if_false]
        rw [if_pos write]
    · by_cases flush : u32At dev.guest.bytes header.address = virtioBlkTFlush
      · apply Branch.flush
        · simp only [virtioBlkDoIoRequest, first, read, write, if_false]
          rw [if_pos flush]
        · simp only [Reported, read, write, if_false]
          rw [if_pos flush]
          trivial
      · by_cases getId : u32At dev.guest.bytes header.address = virtioBlkTGetId
        · apply Branch.getId (req.iov 1).iovBase
          · simp only [virtioBlkDoIoRequest, first, read, write, flush, if_false]
            rw [if_pos getId]
            cases diskImageGetSerial dev.image dev.guest.bytes (req.iov 1).iovBase
              virtioBlkIdBytes <;> rfl
          · simp only [Reported, read, write, flush, if_false]
            rw [if_pos getId]
        · apply Branch.unknown
          · simp only [virtioBlkDoIoRequest, first, read, write, flush, getId, if_false]
          · simp only [Reported, read, write, flush, getId, if_false, not_false_eq_true]

theorem request_total (sync : Synchronous dev) (answered : Answered dev req) :
    ∃ next, virtioBlkDoIoRequest dev req = some next := by
  rcases answered with ⟨header, status, first, target, reported⟩
  cases branch_cases first with
  | transfer op sector iov iovcount same succeeds =>
      rw [same]
      exact transfer_total sync target (succeeds.mp reported)
  | flush disk len same _ =>
      rw [same]
      exact complete_total len target
  | getId buffer same writable =>
      rcases serial_total (writable.mp reported) with ⟨serial, result⟩
      rw [same, result]
      exact complete_total _ target
  | unknown _ unreported => exact absurd reported unreported

theorem request_cases (sync : Synchronous dev) (done : virtioBlkDoIoRequest dev req = some next) :
    (Answered dev req ∧ Replies dev req next) ∨ (¬ Answered dev req ∧ Silent dev next) := by
  cases first : (req.iov 0).iovBase with
  | none => simp [virtioBlkDoIoRequest, first] at done
  | some header =>
      have answered_iff : Answered dev req ↔ Reported dev req header ∧
          ∃ status, storeTarget (req.iov (req.entries - 1)).iovBase = some status := by
        simp only [Answered, first, Option.some.injEq]
        constructor
        · rintro ⟨_, status, rfl, target, reported⟩
          exact ⟨reported, status, target⟩
        · rintro ⟨reported, status, target⟩
          exact ⟨header, status, rfl, target, reported⟩
      rw [answered_iff]
      cases branch_cases first with
      | transfer op sector iov iovcount same succeeds =>
          rw [same] at done
          rw [succeeds]
          rcases transfer_cases sync done with ⟨moved, replies, target⟩ | ⟨fails, silent⟩
          · exact Or.inl ⟨⟨moved, target⟩, replies⟩
          · exact Or.inr ⟨fun both => fails both.1, silent⟩
      | flush disk len same reported =>
          rw [same] at done
          have replies : Replies { dev with disk := disk } req next := complete_replies done
          exact Or.inl ⟨⟨reported, complete_target done⟩, replies⟩
      | getId buffer same writable =>
          rw [same] at done
          rcases Option.bind_eq_some_iff.mp done with ⟨serial, result, completed⟩
          have replies : Replies { dev with guest := { dev.guest with bytes := serial.2 } } req
              next := complete_replies completed
          exact Or.inl ⟨⟨writable.mpr (serial_writable result), complete_target completed⟩, replies⟩
      | unknown same unreported =>
          rw [same] at done
          cases done
          exact Or.inr ⟨fun both => unreported both.1, rfl, rfl⟩

theorem pop_request_head {head : UInt16} (found : popRequest dev head = some req) :
    req.head = head := by
  rcases pop_request_iff.mp found with ⟨_, w, _, _, same⟩
  rw [same]

end Request

section Turns
variable {dev next : BlkDev Disk} {turn : Turn}

theorem turn_total (sync : Synchronous dev) (completes : Completes dev turn) :
    ∃ next, virtioBlkDoIo dev turn = some next := by
  unfold virtioBlkDoIo
  by_cases more : virtQueueAvailableLoad (dev.seen turn).ring (dev.seen turn).vq = true ∧
      (dev.seen turn).ioDone = false
  · rcases completes more with ⟨req, found, answered⟩
    simp only [more, and_self, if_true, found]
    exact request_total sync answered
  · simp only [more, if_false]
    exact ⟨_, rfl⟩

/-- One turn: nothing to do, one request with its reply, or one request without. -/
theorem turn_cases (sync : Synchronous dev) (taken : virtioBlkDoIo dev turn = some next) :
    next.image = dev.image ∧
      ((Completes dev turn ∧ next.log = dev.log) ∨
      (Completes dev turn ∧ ∃ head address value len,
        (value = virtioBlkSOk ∨ value = virtioBlkSIoerr) ∧
        next.log = dev.log ++
          [.popped head, .status address value, .usedElem head.toUInt32 len]) ∨
      (¬ Completes dev turn ∧ ∃ head, next.log = dev.log ++ [.popped head])) := by
  unfold virtioBlkDoIo at taken
  by_cases more : virtQueueAvailableLoad (dev.seen turn).ring (dev.seen turn).vq = true ∧
      (dev.seen turn).ioDone = false
  · simp only [more, and_self, if_true] at taken
    cases found : popRequest (dev.seen turn).pop
        (virtQueuePop (dev.seen turn).ring (dev.seen turn).vq).1 with
    | none => simp [found] at taken
    | some req =>
        simp only [found] at taken
        have completes_iff : Completes dev turn ↔ Answered (dev.seen turn).pop req := by
          simp [Completes, more, found]
        have head := pop_request_head found
        have ready : Synchronous { (dev.seen turn).pop with
            reqs := RingWindow.put (dev.seen turn).pop.reqs req.head.toNat req } := sync
        rw [← head] at taken
        rcases request_cases ready taken with ⟨answered, image, reply⟩ | ⟨dropped, image, log⟩
        · rcases reply with ⟨address, value, len, known, log⟩
          simp only [BlkDev.pop, ← head, List.append_assoc, List.singleton_append] at log
          exact ⟨image, Or.inr (Or.inl ⟨completes_iff.mpr answered, req.head, address, value, len,
            known, log⟩)⟩
        · exact ⟨image, Or.inr (Or.inr ⟨fun completes => dropped (completes_iff.mp completes), _,
            log⟩)⟩
  · simp only [more, if_false, Option.some.injEq] at taken
    subst taken
    exact ⟨rfl, Or.inl ⟨fun available => absurd available more, rfl⟩⟩

/-- Requests popped and not answered. -/
def openRequests : List Event → Int
  | [] => 0
  | .popped _ :: rest => openRequests rest + 1
  | .status _ _ :: rest => openRequests rest
  | .usedElem _ _ :: rest => openRequests rest - 1

theorem open_append (first second : List Event) :
    openRequests (first ++ second) = openRequests first + openRequests second := by
  induction first with
  | nil => simp [openRequests]
  | cons event rest ih =>
      cases event with
      | popped head => simp only [List.cons_append, openRequests, ih]; omega
      | status address value => simp only [List.cons_append, openRequests, ih]
      | usedElem id len => simp only [List.cons_append, openRequests, ih]; omega

theorem served_open {log : List Event} (served : Served log) : openRequests log = 0 := by
  induction served with
  | nil => rfl
  | request head address value len _ _ ih => simp [open_append, openRequests, ih]

-- A request once left open stays open: no later turn answers it.
theorem open_kept {final : BlkDev Disk} {turns : List Turn} (sync : Synchronous dev)
    (ran : run virtioBlkDoIo dev turns = some final) :
    openRequests dev.log ≤ openRequests final.log := by
  induction turns generalizing dev with
  | nil =>
      cases ran
      exact Int.le_refl _
  | cons turn rest ih =>
      rcases run_cons ran with ⟨next, taken, tail⟩
      rcases turn_cases sync taken with ⟨image, step⟩
      have still : Synchronous next := by simpa [Synchronous, image] using sync
      have later := ih still tail
      rcases step with ⟨_, log⟩ | ⟨_, head, address, value, len, _, log⟩ | ⟨_, head, log⟩
      · rwa [log] at later
      · rw [log, open_append] at later
        simpa [openRequests] using later
      · rw [log, open_append] at later
        simp only [openRequests] at later
        omega

/-- The property over a whole run: the loop comes back from every turn, and every
head it popped has exactly one reply. -/
def ExactlyOnce (dev : BlkDev Disk) (turns : List Turn) : Prop :=
  ∃ final, run virtioBlkDoIo dev turns = some final ∧ Served final.log

theorem served_iff_each_completes (sync : Synchronous dev) (before : Served dev.log)
    (turns : List Turn) : ExactlyOnce dev turns ↔ EachCompletes dev turns := by
  induction turns generalizing dev with
  | nil => exact ⟨fun _ => trivial, fun _ => ⟨dev, rfl, before⟩⟩
  | cons turn rest ih =>
      constructor
      · rintro ⟨final, ran, served⟩
        rcases run_cons ran with ⟨next, taken, tail⟩
        rcases turn_cases sync taken with ⟨image, step⟩
        have still : Synchronous next := by simpa [Synchronous, image] using sync
        have onward (completes : Completes dev turn) (log : Served next.log) :
            EachCompletes dev (turn :: rest) := by
          refine ⟨completes, fun other same => ?_⟩
          rw [taken] at same
          cases same
          exact (ih still log).mp ⟨final, tail, served⟩
        rcases step with ⟨completes, log⟩ | ⟨completes, head, address, value, len, known, log⟩ |
          ⟨_, head, log⟩
        · exact onward completes (log ▸ before)
        · exact onward completes (log ▸ Served.request head address value len before known)
        · have kept := open_kept still tail
          rw [served_open served, log, open_append, served_open before] at kept
          simp [openRequests] at kept
      · rintro ⟨completes, later⟩
        rcases turn_total sync completes with ⟨next, taken⟩
        rcases turn_cases sync taken with ⟨image, step⟩
        have still : Synchronous next := by simpa [Synchronous, image] using sync
        have finish (log : Served next.log) : ExactlyOnce dev (turn :: rest) := by
          rcases (ih still log).mpr (later next taken) with ⟨final, ran, served⟩
          exact ⟨final, by simp [run, taken, ran], served⟩
        rcases step with ⟨_, log⟩ | ⟨_, head, address, value, len, known, log⟩ | ⟨fails, _⟩
        · exact finish (log ▸ before)
        · exact finish (log ▸ Served.request head address value len before known)
        · exact absurd completes fails

/-- Every popped request is completed exactly once if and only if no turn meets an
error of a read or write operation or a type the switch does not know. -/
theorem completed_exactly_once (sync : Synchronous dev) (fresh : dev.log = []) (turns : List Turn) :
    ExactlyOnce dev turns ↔ EachCompletes dev turns :=
  served_iff_each_completes sync (fresh ▸ Served.nil) turns

end Turns

def answersRead (total : Int) : DiskImage Unit where
  ops :=
    { read := some fun disk bytes _ _ _ => ⟨some total, disk, bytes⟩
      write := none
      flush := none }
  async := false
  diskReqCb := true
  fsync := fun disk => (0, disk)
  fstat := none

def device (total : Int) : BlkDev Unit where
  image := answersRead total
  disk := ()
  guest := ⟨fun _ => 0, fun _ _ _ => true⟩
  ring := blankRing
  vq := activatedQueue 256
  reqs := fun _ => ⟨noIov, 0, 0, 0⟩
  ioDone := false
  signals := 0
  log := []

set_option maxRecDepth 4000 in
theorem one_read_completes : EachCompletes (device 512) [oneRead] :=
  (completed_exactly_once ⟨rfl, rfl⟩ rfl [oneRead]).mp
    ⟨_, rfl, Served.request 0 0x3000 virtioBlkSOk 512 Served.nil (Or.inl rfl)⟩

/-- A read that fails leaves its head without status byte and without used element. -/
theorem failed_read_unanswered : ¬ ExactlyOnce (device (-1)) [oneRead] := by
  rintro ⟨final, ran, served⟩
  have log : final.log = [.popped 0] := by
    cases ran
    rfl
  have closed := served_open served
  rw [log] at closed
  exact absurd closed (by decide)

end VirtioDisk.RequestCompletion
