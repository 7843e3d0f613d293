import VirtioDisk.RawImage

/-!
The device over a regular file or a block device, as a driver that keeps to the
rules sees it: an array of bytes. `FlatDevice` is that view. Each well-formed
request that completes does to the array and to the driver's memory what `serve`
does, whatever the shape of its chain, the split of its data and the transfers of
the host were.
-/

namespace VirtioDisk.FlatDisk

open BlkDevice ByteStore DescriptorChain RawImage ReadWrite RingWindow Transition Virtqueue

structure Request where
  head : UInt16
  direction : Direction
  sector : UInt64
  header : VringDesc
  data : List VringDesc
  status : VringDesc

def Request.descs (req : Request) : List VringDesc := req.header :: req.data ++ [req.status]

def Request.ranges (req : Request) : List Range :=
  req.data.map fun desc => ⟨desc.addr.toNat, desc.len.toNat⟩

def Request.offset (req : Request) : Nat := req.sector.toNat * 512

/-- The descriptors a head stands for, in the ring or in an indirect table. -/
def Describes (turn : Turn) (head : UInt16) (descs : List VringDesc) : Prop :=
  let first := turn.ring.desc head.toNat
  if virtDescTestFlag first vringDescFIndirect = true then
    turn.guest.maps first.addr first.len.toUInt64 .read = true ∧
      ∃ path, descs = path.map (fun idx => vringDescTable turn.guest first.addr.toNat idx.toNat) ∧
        Chain (vringDescTable turn.guest first.addr.toNat)
          (UInt16.ofNat (first.len.toNat / sizeofVringDesc)) 0 path
  else ∃ path, descs = path.map (fun idx => turn.ring.desc idx.toNat) ∧
    Chain turn.ring.desc (UInt16.ofNat virtioBlkQueueSize) head path

/-- A request of a driver that keeps to the rules, on an image of `capacity` bytes. -/
structure WellFormedRequest (turn : Turn) (capacity : Nat) (req : Request) : Prop where
  inside : req.head.toNat < virtioBlkQueueSize
  chain : Describes turn req.head req.descs
  short : req.descs.length ≤ virtioBlkQueueSize
  headerReadable : virtDescTestFlag req.header vringDescFWrite = false
  dataDirection : ∀ desc ∈ req.data,
    virtDescTestFlag desc vringDescFWrite = decide (req.direction = .fromDevice)
  statusWritable : virtDescTestFlag req.status vringDescFWrite = true
  statusByte : req.status.len = 1
  mapped : ∀ desc ∈ req.descs, turn.guest.maps desc.addr desc.len.toUInt64
    (if virtDescTestFlag desc vringDescFWrite then .write else .read) = true
  type : u32At turn.guest.bytes req.header.addr.toNat = req.direction.type
  sector : u64At turn.guest.bytes (req.header.addr.toNat + 8) = req.sector
  small : total req.ranges < 2 ^ 32
  inImage : req.offset + total req.ranges ≤ capacity

/-- What the device is for. `memory` is the driver's memory after the last
completion, `log` what was written back, and `lengths` are the numbers of data bytes
that the completions stand for. -/
structure FlatDevice where
  bytes : Nat → UInt8
  memory : Nat → UInt8
  log : List Event
  lengths : List Nat

def usedLengths (log : List Event) : List Nat :=
  log.filterMap fun
    | .usedElem _ len => some len.toNat
    | _ => none

def FlatDevice.serve (flat : FlatDevice) (turn : Turn) (req : Request) : FlatDevice :=
  let filled :=
    match req.direction with
    | .fromDevice =>
        scatter turn.guest.bytes req.ranges (readRange flat.bytes req.offset (total req.ranges))
    | .toDevice => turn.guest.bytes
  { bytes :=
      match req.direction with
      | .fromDevice => flat.bytes
      | .toDevice => writeRange flat.bytes req.offset (gather turn.guest.bytes req.ranges)
    memory := writeRange filled req.status.addr.toNat [virtioBlkSOk]
    log := flat.log ++
      [.popped req.head, .status req.status.addr.toNat virtioBlkSOk,
        .usedElem req.head.toUInt32 (UInt32.ofNat (total req.ranges))]
    lengths := flat.lengths ++ [total req.ranges] }

def serveAll : FlatDevice → List Turn → List Request → FlatDevice
  | flat, turn :: turns, req :: reqs => serveAll (flat.serve turn req) turns reqs
  | flat, _, _ => flat

/-- An activated queue over a raw image, on a host that moves on. -/
structure Ready (dev : BlkDev OpenFile) : Prop where
  ops : dev.image.ops = rawImageRegularOps
  async : dev.image.async = false
  callback : dev.image.diskReqCb = true
  queueSize : dev.vq.vring.num = virtioBlkQueueSize
  availMapped : dev.vq.vring.avail ≠ 0
  notDone : dev.ioDone = false
  fileSize : dev.disk.file.size ≤ fileMax
  host : MovesOn dev.disk.answers

/-- The driver has published `req` when the loop comes round. -/
structure Published (dev : BlkDev OpenFile) (turn : Turn) (req : Request) : Prop where
  available : turn.ring.avail.idx ≠ dev.vq.lastAvailIdx
  head : turn.ring.avail.ring (dev.vq.lastAvailIdx.toNat % dev.vq.vring.num) = req.head
  wellFormed : WellFormedRequest turn dev.disk.file.size req

/-- The state of the device is the flat view, and the last used element is in the
slot before the used index. -/
structure Matches (dev : BlkDev OpenFile) (flat : FlatDevice) : Prop where
  bytes : dev.disk.file.bytes = flat.bytes
  memory : dev.guest.bytes = flat.memory
  log : dev.log = flat.log
  lengths : usedLengths dev.log = flat.lengths
  used : ∀ id len, flat.log.getLast? = some (.usedElem id len) →
    dev.ring.used.ring ((dev.ring.used.idx - 1).toNat % dev.vq.vring.num) = ⟨id, len⟩

section Chain
variable {dev : BlkDev OpenFile} {turn : Turn} {req : Request}

theorem available_store_desc (ring : RingMemory) (vq : VirtQueue) :
    (virtQueueAvailableStore ring vq).desc = ring.desc := by
  unfold virtQueueAvailableStore
  split <;> rfl

theorem walk_entries {guest : GuestMemory} {desc : Nat → VringDesc} {bound : Nat}
    {max first : UInt16} {path : List UInt16} {descs : List VringDesc} (iov : Nat → Iovec)
    (visited : List Deref) (same : descs = path.map fun idx => desc idx.toNat)
    (chain : Chain desc max first path) (short : descs.length ≤ virtioBlkQueueSize) :
    ∃ w, walkChain guest desc bound max chainFuel first ⟨iov, 0, 0, visited, []⟩ = some w ∧
      w.stored.length = descs.length ∧ Counts w descs.length ∧
      Window id w.iov 0 (descs.map (iovecOf guest)) := by
  have length : descs.length = path.length := by simp [same]
  have few : path.length ≤ 256 := by
    rw [← length]
    exact short
  have entries := store_all_entries guest desc bound path
    ⟨iov, 0, 0, visited, []⟩ [] rfl (by simp only [List.length_nil]; omega) (window_nil _ _ _)
  refine ⟨_, walk_of_chain chain _ chainFuel (by unfold chainFuel; omega), ?_, ?_, ?_⟩
  · simp [store_all_stored_length, length]
  · simpa [length] using entries.1
  · simpa [same, Function.comp_def] using entries.2

/-- The walk ends, with the entries of the chain in its order. -/
theorem head_iov_entries {turn : Turn} {ring : RingMemory} {vq : VirtQueue} {head : UInt16}
    {descs : List VringDesc} (iov : Nat → Iovec) (same : ring.desc = turn.ring.desc)
    (size : vq.vring.num = virtioBlkQueueSize) (chain : Describes turn head descs)
    (short : descs.length ≤ virtioBlkQueueSize) :
    ∃ w, virtQueueGetHeadIov turn.guest ring vq iov head chainFuel = some w ∧
      w.stored.length = descs.length ∧ Counts w descs.length ∧
      Window id w.iov 0 (descs.map (iovecOf turn.guest)) := by
  by_cases indirect : virtDescTestFlag (ring.desc head.toNat) vringDescFIndirect = true
  · simp only [Describes, ← same, indirect, if_true] at chain
    rcases chain with ⟨table, path, listed, linked⟩
    rw [head_iov_indirect indirect table]
    exact walk_entries iov _ listed linked short
  · simp only [Describes, ← same, indirect] at chain
    rcases chain with ⟨path, listed, linked⟩
    rw [Bool.not_eq_true] at indirect
    rw [head_iov_direct indirect, size]
    exact walk_entries iov _ listed linked short

end Chain

section Entries
variable {turn : Turn} {capacity : Nat} {req : Request}

/-- What `reqs[head]` holds after the walk of a well-formed request. -/
structure Walked (turn : Turn) (req : Request) (found : BlkDevReq) : Prop where
  head : found.head = req.head
  count : found.entries = req.data.length + 2
  header : found.iov 0 = iovecOf turn.guest req.header
  status : found.iov (req.data.length + 1) = iovecOf turn.guest req.status
  behind : ∃ rest, found.behindHeader =
    req.data.map (iovecOf turn.guest) ++ iovecOf turn.guest req.status :: rest

theorem behind_header {found : BlkDevReq} {entries : List Iovec} {header status : Iovec}
    (window : Window id found.iov 0 (header :: entries ++ [status]))
    (short : entries.length + 2 ≤ virtioBlkQueueSize) :
    ∃ rest, found.behindHeader = entries ++ status :: rest := by
  have at_ (i : Nat) (inside : i < (header :: entries ++ [status]).length) :
      found.iov i = (header :: entries ++ [status])[i] := by
    simpa using window i inside
  rcases Nat.exists_eq_add_of_le short with ⟨more, sum⟩
  have split : virtioBlkQueueSize - 1 = entries.length + (1 + more) := by omega
  refine ⟨(List.range more).map fun i => found.iov (entries.length + (1 + i) + 1), ?_⟩
  rw [BlkDevReq.behindHeader, split, List.range_add, List.range_add]
  simp only [List.map_append, List.map_map]
  congr 1
  · apply List.ext_getElem (by simp)
    intro i _ inside
    have entry := at_ (i + 1) (by simp; omega)
    simpa [List.getElem_append, inside] using entry
  · have last := at_ (entries.length + 1) (by simp)
    simp [last, Nat.add_assoc, Nat.add_comm 1]

theorem pop_request_walked {Disk : Type} (dev : BlkDev Disk) (guest : dev.guest = turn.guest)
    (desc : dev.ring.desc = turn.ring.desc) (size : dev.vq.vring.num = virtioBlkQueueSize)
    (formed : WellFormedRequest turn capacity req) :
    ∃ found, popRequest dev req.head = some found ∧ Walked turn req found := by
  rcases head_iov_entries (dev.reqs req.head.toNat).iov desc size formed.chain formed.short with
    ⟨w, walked, stored, counts, window⟩
  have length : req.descs.length = req.data.length + 2 := by simp [Request.descs]
  have short := formed.short
  refine ⟨⟨w.iov, w.outCount, w.inCount, req.head⟩, ?_, ?_⟩
  · rw [← guest] at walked
    exact pop_request_iff.mpr ⟨formed.inside, w, walked, by rw [stored]; exact short, rfl⟩
  · have entries : Window id w.iov 0 (iovecOf turn.guest req.header ::
        req.data.map (iovecOf turn.guest) ++ [iovecOf turn.guest req.status]) := by
      simpa [Request.descs] using window
    refine ⟨rfl, ?_, ?_, ?_, ?_⟩
    · rw [← length]
      exact counts
    · simpa using entries 0 (by simp)
    · simpa using entries (req.data.length + 1) (by simp)
    · exact behind_header entries (by simpa [← length] using short)

/-- The data entries are reached, each at its descriptor's range. -/
theorem data_segments (target : Option HostPtr → Option Nat) (guest : GuestMemory)
    (data : List VringDesc)
    (reached : ∀ desc ∈ data, target (iovecOf guest desc).iovBase = some desc.addr.toNat) :
    Mapped target (data.map (iovecOf guest)) ∧
      segments target (data.map (iovecOf guest)) =
        data.map (fun desc => (⟨desc.addr.toNat, desc.len.toNat⟩ : Range)) := by
  constructor
  · intro entry member
    rcases List.mem_map.mp member with ⟨desc, present, same⟩
    subst same
    exact ⟨_, reached desc present⟩
  · induction data with
    | nil => rfl
    | cons desc rest ih =>
        have first := reached desc (by simp)
        have tail := ih fun later member => reached later (List.mem_cons_of_mem _ member)
        simp only [List.map_cons, segments, first, tail]
        rfl

end Entries

/-- An activated queue over an image that completes its requests at once. -/
structure Serving {Disk : Type} (dev : BlkDev Disk) : Prop where
  async : dev.image.async = false
  callback : dev.image.diskReqCb = true
  queueSize : dev.vq.vring.num = virtioBlkQueueSize
  availMapped : dev.vq.vring.avail ≠ 0
  notDone : dev.ioDone = false

theorem Ready.serving {dev : BlkDev OpenFile} (ready : Ready dev) : Serving dev :=
  ⟨ready.async, ready.callback, ready.queueSize, ready.availMapped, ready.notDone⟩

/-- `req` is what the driver offers at its next turn. -/
structure Offered {Disk : Type} (dev : BlkDev Disk) (capacity : Nat) (turn : Turn) (req : Request) :
    Prop where
  available : turn.ring.avail.idx ≠ dev.vq.lastAvailIdx
  head : turn.ring.avail.ring (dev.vq.lastAvailIdx.toNat % dev.vq.vring.num) = req.head
  wellFormed : WellFormedRequest turn capacity req

section AnyImage
variable {Disk : Type} {dev next : BlkDev Disk} {turn : Turn} {req : Request} {found : BlkDevReq}

theorem mapped_base {guest : GuestMemory} {desc : VringDesc}
    (mapped : guest.maps desc.addr desc.len.toUInt64
      (if virtDescTestFlag desc vringDescFWrite then .write else .read) = true) :
    (iovecOf guest desc).iovBase =
      some ⟨desc.addr.toNat, virtDescTestFlag desc vringDescFWrite⟩ := by
  unfold iovecOf demuMapGuestRange
  rw [if_pos mapped]
  cases virtDescTestFlag desc vringDescFWrite <;> rfl

theorem iov_bytes_ranges (guest : GuestMemory) (data : List VringDesc) :
    iovBytes (data.map (iovecOf guest)) =
      total (data.map fun desc => (⟨desc.addr.toNat, desc.len.toNat⟩ : Range)) := by
  induction data with
  | nil => rfl
  | cons desc rest ih => simp [iovBytes, total, ih, iovecOf]

theorem of_int_nat (len : Nat) : UInt32.ofInt len = UInt32.ofNat len := by
  apply UInt32.toNat_inj.mp
  have wrapped : ((len : Int) % 2 ^ 32).toNat = len % 2 ^ 32 := by omega
  simp only [UInt32.ofInt, wrapped, UInt32.toNat_ofNat']
  omega

/-- What a completed request adds to the log; its length is a `u32`. -/
theorem used_lengths_served (log : List Event) (head : UInt16) (status : Nat) (value : UInt8)
    {len : Nat} (small : len < 2 ^ 32) :
    usedLengths (log ++ [.popped head, .status status value,
      .usedElem head.toUInt32 (UInt32.ofNat len)]) = usedLengths log ++ [len] := by
  have whole : (UInt32.ofNat len).toNat = len := by
    rw [UInt32.toNat_ofNat', Nat.mod_eq_of_lt small]
  simp [usedLengths, List.filterMap_append, whole]

theorem used_elem_set (ring : RingMemory) (vq : VirtQueue) (head len : UInt32) :
    let after := virtQueueSetUsedElem ring vq head len
    after.used.ring ((after.used.idx - 1).toNat % vq.vring.num) = ⟨head, len⟩ := by
  have slot : ring.used.idx + 1 - 1 = ring.used.idx + 0 := by grind
  simp [virtQueueSetUsedElem, virtQueueUsedIdxAdvance, virtQueueSetUsedElemNoUpdate, slot]

/-- The reply to a request whose transfer moved everything. -/
theorem complete_spec {status : Nat} {len : Nat}
    (target : storeTarget (found.iov (found.entries - 1)).iovBase = some status)
    (done : virtioBlkComplete dev found len = some next) :
    next.image = dev.image ∧ next.disk = dev.disk ∧ next.ioDone = dev.ioDone ∧
      next.vq.vring = dev.vq.vring ∧
      next.guest.bytes = writeRange dev.guest.bytes status [virtioBlkSOk] ∧
      next.log = dev.log ++ [.status status virtioBlkSOk,
        .usedElem found.head.toUInt32 (UInt32.ofNat len)] ∧
      next.ring.used.ring ((next.ring.used.idx - 1).toNat % next.vq.vring.num) =
        ⟨found.head.toUInt32, UInt32.ofNat len⟩ := by
  have positive : ¬ ((len : Int) < 0) := by omega
  simp only [virtioBlkComplete, target, positive, if_false, of_int_nat, Option.some.injEq] at done
  subst done
  have queue := (should_signal_queue (virtQueueSetUsedElem dev.ring dev.vq found.head.toUInt32
    (UInt32.ofNat len)) dev.vq).2
  refine ⟨rfl, rfl, rfl, queue, rfl, rfl, ?_⟩
  simp only [queue]
  exact used_elem_set dev.ring dev.vq found.head.toUInt32 (UInt32.ofNat len)

theorem transfer_spec {op : Transfer Disk} {sector : UInt64} {iov : List Iovec} {iovcount : Int}
    (serving : Serving dev)
    (done : diskImageTransfer (some op) dev sector iov iovcount found = some next) :
    ∃ total, (op dev.disk dev.guest.bytes sector iov iovcount).total = some total ∧
      (0 ≤ total → virtioBlkComplete (dev.transferred (op dev.disk dev.guest.bytes sector iov
        iovcount)) found total = some next) ∧
      (total < 0 → next = dev.transferred (op dev.disk dev.guest.bytes sector iov iovcount)) := by
  cases result : (op dev.disk dev.guest.bytes sector iov iovcount).total with
  | none => simp [diskImageTransfer, result] at done
  | some total =>
      refine ⟨total, rfl, ?_, ?_⟩
      · intro positive
        have kept : ¬ total < 0 := by omega
        simpa [diskImageTransfer, result, kept, BlkDev.transferred, serving.async,
          serving.callback] using done
      · intro negative
        simpa [diskImageTransfer, result, negative, eq_comm] using done

/-- A well-formed request is one transfer, with its status in the last entry. -/
theorem request_transfers {capacity : Nat} (guest : dev.guest = turn.guest)
    (walked : Walked turn req found) (formed : WellFormedRequest turn capacity req)
    (done : virtioBlkDoIoRequest dev found = some next) :
    diskImageTransfer (dev.image.ops.operation req.direction) dev req.sector found.behindHeader
        ((found.entries : Int) - 2) found = some next ∧
      storeTarget (found.iov (found.entries - 1)).iovBase = some req.status.addr.toNat := by
  have header := mapped_base (formed.mapped req.header (by simp [Request.descs]))
  have status := mapped_base (formed.mapped req.status (by simp [Request.descs]))
  constructor
  · simp only [virtioBlkDoIoRequest, walked.header, header, guest, formed.type, formed.sector]
      at done
    cases direction : req.direction with
    | fromDevice => simpa [direction, Direction.type, diskImageRead,
        DiskImageOperations.operation] using done
    | toDevice => simpa [direction, Direction.type, virtioBlkTIn, virtioBlkTOut, diskImageWrite,
        DiskImageOperations.operation] using done
  · have last : found.entries - 1 = req.data.length + 1 := by rw [walked.count]; rfl
    rw [last, walked.status, status, formed.statusWritable]
    rfl

/-- What the backend is handed: the data of the request, with the status behind. -/
theorem walked_data (walked : Walked turn req found) :
    (found.entries : Int) - 2 = (req.data.map (iovecOf turn.guest)).length ∧
      ∃ rest, found.behindHeader =
        req.data.map (iovecOf turn.guest) ++ iovecOf turn.guest req.status :: rest := by
  refine ⟨?_, walked.behind⟩
  rw [walked.count]
  simp

theorem data_reached {capacity : Nat} (formed : WellFormedRequest turn capacity req)
    (target : Option HostPtr → Option Nat)
    (known : ∀ address, target (some ⟨address, decide (req.direction = .fromDevice)⟩) =
      some address) :
    Mapped target (req.data.map (iovecOf turn.guest)) ∧
      segments target (req.data.map (iovecOf turn.guest)) = req.ranges := by
  apply data_segments
  intro desc member
  rw [mapped_base (formed.mapped desc (by simp [Request.descs, member])),
    formed.dataDirection desc member]
  exact known _

/-- A turn that finds a well-formed request walks it and serves it. -/
theorem turn_transfers {capacity : Nat} (serving : Serving dev)
    (offered : Offered dev capacity turn req) (taken : virtioBlkDoIo dev turn = some next) :
    ∃ found, Walked turn req found ∧
      virtioBlkDoIoRequest { (dev.seen turn).pop with
        reqs := put (dev.seen turn).pop.reqs req.head.toNat found } found = some next := by
  have available : virtQueueAvailableLoad (dev.seen turn).ring (dev.seen turn).vq = true := by
    refine (available_load_iff _ _ serving.availMapped).mpr ?_
    simpa [BlkDev.seen] using offered.available
  have head : (virtQueuePop (dev.seen turn).ring (dev.seen turn).vq).1 = req.head := by
    simpa [virtQueuePop, BlkDev.seen] using offered.head
  have notDone : (dev.seen turn).ioDone = false := serving.notDone
  rcases pop_request_walked (dev.seen turn).pop rfl (available_store_desc _ _)
    serving.queueSize offered.wellFormed with ⟨found, walk, walked⟩
  simp only [virtioBlkDoIo, available, notDone, and_self, if_true, head, walk] at taken
  exact ⟨found, walked, taken⟩

end AnyImage

section Turns
variable {dev next : BlkDev OpenFile} {turn : Turn} {req : Request}

/-- What the two operations of a raw image do for a well-formed request. -/
theorem operation_serves {found : BlkDevReq} {moved : Transferred OpenFile} {count : Int}
    (ready : Ready dev) (guest : dev.guest = turn.guest) (walked : Walked turn req found)
    (formed : WellFormedRequest turn dev.disk.file.size req)
    (done : (match req.direction with
      | .fromDevice => rawImageReadSync
      | .toDevice => rawImageWriteSync) dev.disk dev.guest.bytes req.sector found.behindHeader
        ((found.entries : Int) - 2) = moved) (returned : moved.total = some count)
    {flat : FlatDevice} (bytes : dev.disk.file.bytes = flat.bytes) :
    count = total req.ranges ∧ MovesOn moved.disk.answers ∧
      moved.disk.file.size = dev.disk.file.size ∧
      moved.disk.file.bytes = (flat.serve turn req).bytes ∧
      writeRange moved.bytes req.status.addr.toNat [virtioBlkSOk] =
        (flat.serve turn req).memory := by
  obtain ⟨iovcount, rest, behind⟩ := walked_data walked
  have statusLen : 0 < (iovecOf turn.guest req.status).iovLen := by
    simp [iovecOf, formed.statusByte]
  have sum := iov_bytes_ranges turn.guest req.data
  have fits : req.sector.toNat * 512 ≤ fileMax :=
    Nat.le_trans (Nat.le_add_right _ _) (Nat.le_trans formed.inImage ready.fileSize)
  have inside : req.offset + iovBytes (req.data.map (iovecOf turn.guest)) ≤ dev.disk.file.size := by
    rw [sum]
    exact formed.inImage
  cases direction : req.direction with
  | fromDevice =>
      simp only [direction, rawImageReadSync, sector_offset _ fits, behind, iovcount, guest] at done
      have reached := data_reached formed storeTarget
        fun address => by simp [direction, storeTarget]
      rcases preadv_in_full_spec statusLen ready.host reached.1 inside done returned with
        ⟨moved, host, file, filled⟩
      refine ⟨by rw [moved, sum]; rfl, host, by rw [file], ?_, ?_⟩
      · simp [FlatDevice.serve, direction, file, bytes]
      · simp only [FlatDevice.serve, direction, filled, reached.2, sum, bytes]
        rfl
  | toDevice =>
      simp only [direction, rawImageWriteSync, sector_offset _ fits, behind, iovcount, guest]
        at done
      have reached := data_reached formed loadTarget fun address => rfl
      rcases pwritev_in_full_spec statusLen ready.host reached.1 inside ready.fileSize done
        returned with
        ⟨moved, host, memory, size, stored⟩
      refine ⟨by rw [moved, sum]; rfl, host, size, ?_, ?_⟩
      · simp only [FlatDevice.serve, direction, stored, reached.2, bytes]
      · simp [FlatDevice.serve, direction, memory]

theorem request_serves {found : BlkDevReq} (ready : Ready dev) (guest : dev.guest = turn.guest)
    (walked : Walked turn req found) (formed : WellFormedRequest turn dev.disk.file.size req)
    (done : virtioBlkDoIoRequest dev found = some next) {flat : FlatDevice}
    (bytes : dev.disk.file.bytes = flat.bytes) (log : dev.log = flat.log ++ [.popped req.head])
    (lengths : usedLengths flat.log = flat.lengths) :
    Ready next ∧ next.disk.file.size = dev.disk.file.size ∧
      Matches next (flat.serve turn req) := by
  obtain ⟨transfer, target⟩ := request_transfers guest walked formed done
  have transferred : diskImageTransfer (some (match req.direction with
      | .fromDevice => rawImageReadSync
      | .toDevice => rawImageWriteSync)) dev req.sector found.behindHeader
        ((found.entries : Int) - 2) found = some next := by
    rw [ready.ops] at transfer
    cases direction : req.direction <;> rw [direction] at transfer <;> exact transfer
  obtain ⟨total, returned, completes, _⟩ := transfer_spec ready.serving transferred
  rcases operation_serves ready guest walked formed rfl returned bytes with
    ⟨count, host, size, stored, memory⟩
  have completed := completes (by rw [count]; exact Int.natCast_nonneg _)
  rw [count] at completed
  rcases complete_spec target completed with
    ⟨image, disk, ioDone, vring, written, logged, used⟩
  refine ⟨?_, by rw [disk]; exact size, ?_, ?_, ?_, ?_, ?_⟩
  · constructor
    · rw [image]; exact ready.ops
    · rw [image]; exact ready.async
    · rw [image]; exact ready.callback
    · rw [vring]; exact ready.queueSize
    · rw [vring]; exact ready.availMapped
    · rw [ioDone]; exact ready.notDone
    · rw [disk]; exact Nat.le_trans (Nat.le_of_eq size) ready.fileSize
    · rw [disk]; exact host
  · rw [disk]
    exact stored
  · rw [written]
    exact memory
  · rw [logged, walked.head]
    simp [BlkDev.transferred, log, FlatDevice.serve]
  · rw [logged, walked.head]
    have reported := used_lengths_served flat.log req.head req.status.addr.toNat virtioBlkSOk
      formed.small
    rw [lengths] at reported
    simpa [BlkDev.transferred, log, FlatDevice.serve] using reported
  · intro id len last
    rw [used, walked.head]
    simpa [FlatDevice.serve] using last

theorem turn_serves (ready : Ready dev) (published : Published dev turn req)
    (taken : virtioBlkDoIo dev turn = some next) {flat : FlatDevice}
    (bytes : dev.disk.file.bytes = flat.bytes) (log : dev.log = flat.log)
    (lengths : usedLengths dev.log = flat.lengths) :
    Ready next ∧ next.disk.file.size = dev.disk.file.size ∧
      Matches next (flat.serve turn req) := by
  have offered : Offered dev dev.disk.file.size turn req :=
    ⟨published.available, published.head, published.wellFormed⟩
  obtain ⟨found, walked, served⟩ := turn_transfers ready.serving offered taken
  have head : (virtQueuePop (dev.seen turn).ring (dev.seen turn).vq).1 = req.head := by
    simpa [virtQueuePop, BlkDev.seen] using published.head
  have popped : Ready { (dev.seen turn).pop with
      reqs := put (dev.seen turn).pop.reqs req.head.toNat found } :=
    ⟨ready.ops, ready.async, ready.callback, ready.queueSize, ready.availMapped, ready.notDone,
      ready.fileSize, ready.host⟩
  exact request_serves popped rfl walked published.wellFormed served bytes
    (by rw [← head, ← log]; rfl) (log ▸ lengths)

end Turns

/-- Every turn of the run finds a well-formed request. -/
def EachPublished : BlkDev OpenFile → List Turn → List Request → Prop
  | _, [], [] => True
  | dev, turn :: turns, req :: reqs => Published dev turn req ∧
      ∀ next, virtioBlkDoIo dev turn = some next → EachPublished next turns reqs
  | _, _, _ => False

/-- The view before the first request. -/
def viewOf (dev : BlkDev OpenFile) : FlatDevice :=
  ⟨dev.disk.file.bytes, dev.guest.bytes, [], []⟩

theorem run_serves {dev final : BlkDev OpenFile} {turns : List Turn} {reqs : List Request}
    {flat : FlatDevice} (ready : Ready dev) (now : Matches dev flat)
    (published : EachPublished dev turns reqs) (ran : run virtioBlkDoIo dev turns = some final) :
    Matches final (serveAll flat turns reqs) := by
  induction turns generalizing dev reqs flat with
  | nil =>
      cases ran
      cases reqs <;> exact now
  | cons turn turns ih =>
      cases reqs with
      | nil => exact absurd published id
      | cons req reqs =>
          rcases run_cons ran with ⟨next, taken, tail⟩
          rcases turn_serves ready published.1 taken now.bytes now.log now.lengths with
            ⟨later, _, after⟩
          exact ih later after (published.2 next taken) tail

/-- Whenever the requests of a run complete, the device has behaved as a flat
array of bytes. -/
theorem behaves_as_flat_array {dev final : BlkDev OpenFile} {turns : List Turn}
    {reqs : List Request} (ready : Ready dev) (fresh : dev.log = [])
    (published : EachPublished dev turns reqs) (ran : run virtioBlkDoIo dev turns = some final) :
    Matches final (serveAll (viewOf dev) turns reqs) :=
  run_serves ready ⟨rfl, rfl, fresh, by rw [fresh]; rfl, by simp [viewOf]⟩ published ran

/-! A file of two sectors on a host that interrupts a call and breaks a sector. -/

def twoSectors : OpenFile where
  file := ⟨fun i => UInt8.ofNat i, 1024, false⟩
  answers := [.again, .moves 100, .moves 600]
  touched := []

def rawDevice : BlkDev OpenFile where
  image := ⟨rawImageRegularOps, false, true, fun disk => (0, disk), none⟩
  disk := twoSectors
  guest := oneRead.guest
  ring := blankRing
  vq := activatedQueue 256
  reqs := fun _ => ⟨noIov, 0, 0, 0⟩
  ioDone := false
  signals := 0
  log := []

def readRequest : Request := ⟨0, .fromDevice, 0, readChain 0, [readChain 1], readChain 2⟩

theorem read_request_well_formed : WellFormedRequest oneRead 1024 readRequest where
  inside := by decide
  chain := ⟨[0, 1, 2], rfl, Chain.link ⟨rfl, by decide⟩ (Chain.link ⟨rfl, by decide⟩
    (Chain.last fun linked => absurd linked.1 (by decide)))⟩
  short := by decide
  headerReadable := rfl
  dataDirection := by decide
  statusWritable := rfl
  statusByte := rfl
  mapped := fun _ _ => rfl
  type := rfl
  sector := rfl
  small := by decide
  inImage := by decide

set_option maxRecDepth 4000 in
theorem behaves_as_flat_array_once : ∃ final, run virtioBlkDoIo rawDevice [oneRead] = some final ∧
    Matches final (serveAll (viewOf rawDevice) [oneRead] [readRequest]) := by
  have ready : Ready rawDevice :=
    ⟨rfl, rfl, rfl, rfl, by decide, rfl, by decide, by simp [MovesOn, rawDevice, twoSectors]⟩
  have published : EachPublished rawDevice [oneRead] [readRequest] :=
    ⟨⟨by decide, rfl, read_request_well_formed⟩, fun _ _ => trivial⟩
  exact ⟨_, rfl, behaves_as_flat_array ready rfl published rfl⟩

end VirtioDisk.FlatDisk
