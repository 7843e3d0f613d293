import VirtioDisk.FlatDisk

/-!
Which guest memory a request is served from. virtio_blk_do_io_request takes the
header out of `iov[0]`, the data out of `iov + 1` and virtio_blk_complete the
status byte out of `iov[out + in - 1]`, whatever the chain was; `execution` is
what the switch makes of the request, and a touch is a range of guest memory that
is read or written for it. The backend is charged with all it is handed.
-/

namespace VirtioDisk.RequestMemory

open BlkDevice ByteStore DescriptorChain FlatDisk RawImage ReadWrite RingWindow Virtqueue

variable {Disk : Type}

inductive Execution where
  | transfer (direction : Direction) (sector : UInt64) (iov : List Iovec) (iovcount : Int)
  | flush
  | getId (buffer : Option HostPtr)
  | refused

/-- The switch over the type of the request. -/
def execution (dev : BlkDev Disk) (req : BlkDevReq) (header : HostPtr) : Execution :=
  let type := u32At dev.guest.bytes header.address
  let sector := u64At dev.guest.bytes (header.address + 8)
  let iovcount : Int := (req.entries : Int) - 2
  if type = virtioBlkTIn then .transfer .fromDevice sector req.behindHeader iovcount
  else if type = virtioBlkTOut then .transfer .toDevice sector req.behindHeader iovcount
  else if type = virtioBlkTFlush then .flush
  else if type = virtioBlkTGetId then .getId (req.iov 1).iovBase
  else .refused

def execute (dev : BlkDev Disk) (req : BlkDevReq) : Execution → Option (BlkDev Disk)
  | .transfer direction sector iov iovcount =>
      diskImageTransfer (dev.image.ops.operation direction) dev sector iov iovcount req
  | .flush =>
      let flushed := diskImageFlush dev.image dev.disk
      virtioBlkComplete { dev with disk := flushed.2 } req flushed.1
  | .getId buffer =>
      match diskImageGetSerial dev.image dev.guest.bytes buffer virtioBlkIdBytes with
      | none => none
      | some (len, bytes) =>
          virtioBlkComplete { dev with guest := { dev.guest with bytes := bytes } } req len
  | .refused => some dev

theorem do_io_request_executes {dev : BlkDev Disk} {req : BlkDevReq} {header : HostPtr}
    (mapped : (req.iov 0).iovBase = some header) :
    virtioBlkDoIoRequest dev req = execute dev req (execution dev req header) := by
  simp only [virtioBlkDoIoRequest, mapped, execution, apply_ite (execute dev req)]
  rfl

structure Touch where
  address : Nat
  len : Nat
  write : Bool
  deriving DecidableEq

/-- `type` and `sector`, the fields that are read of the 16 bytes of the header. -/
def headerTouches (header : HostPtr) : List Touch :=
  [⟨header.address, 4, false⟩, ⟨header.address + 8, 8, false⟩]

/-- What snprintf stores: the text, cut to the buffer it is told of, and a zero. -/
def serialBytes (stat : Stat) : List UInt8 := (serialText stat).take (virtioBlkIdBytes - 1) ++ [0]

def entryTouches (write : Bool) (iov : List Iovec) : List Touch :=
  iov.filterMap fun entry => entry.iovBase.map fun ptr => ⟨ptr.address, entry.iovLen, write⟩

def dataTouches (image : DiskImage Disk) : Execution → List Touch
  | .transfer direction _ iov iovcount =>
      entryTouches (decide (direction = .fromDevice)) (iov.take iovcount.toNat)
  | .getId (some buffer) =>
      match image.fstat with
      | none => []
      | some stat => [⟨buffer.address, (serialBytes stat).length, true⟩]
  | _ => []

def statusTouches (req : BlkDevReq) : Execution → List Touch
  | .refused => []
  | _ =>
      match (req.iov (req.entries - 1)).iovBase with
      | none => []
      | some status => [⟨status.address, 1, true⟩]

/-! What the chain offers, and what each type of request needs of it. -/

def Writable (desc : VringDesc) : Prop := virtDescTestFlag desc vringDescFWrite = true

instance (desc : VringDesc) : Decidable (Writable desc) :=
  inferInstanceAs (Decidable (virtDescTestFlag desc vringDescFWrite = true))

structure Touch.Inside (t : Touch) (desc : VringDesc) : Prop where
  direction : virtDescTestFlag desc vringDescFWrite = t.write
  first : desc.addr.toNat ≤ t.address
  last : t.address + t.len ≤ desc.addr.toNat + desc.len.toNat

/-- The descriptors strictly between the first and the last. -/
def inner (descs : List VringDesc) : List VringDesc := (descs.drop 1).dropLast

def known (type : UInt32) : Bool :=
  type == virtioBlkTIn || type == virtioBlkTOut || type == virtioBlkTFlush ||
    type == virtioBlkTGetId

/-- The data descriptors go the way of the request; an id has a buffer to be written to. -/
structure DataShaped (image : DiskImage Disk) (type : UInt32) (descs : List VringDesc) : Prop where
  fromDevice : type = virtioBlkTIn → ∀ desc ∈ inner descs, Writable desc
  toDevice : type = virtioBlkTOut → ∀ desc ∈ inner descs, ¬ Writable desc
  getId : type = virtioBlkTGetId → ∃ desc rest, inner descs = desc :: rest ∧ Writable desc ∧
    ∀ stat, image.fstat = some stat → (serialBytes stat).length ≤ desc.len.toNat

structure WellShaped (image : DiskImage Disk) (type : UInt32) (descs : List VringDesc) : Prop where
  header : ∀ desc, descs.head? = some desc → ¬ Writable desc ∧ 16 ≤ desc.len.toNat
  long : known type = true → 2 ≤ descs.length
  status : known type = true → ∀ desc, descs.getLast? = some desc →
    Writable desc ∧ 1 ≤ desc.len.toNat
  data : DataShaped image type descs

/-- Every byte the request is served from lies in the descriptor it belongs to, and
a chain that is mis-shaped for its type is not executed. -/
structure Contained (dev : BlkDev Disk) (req : BlkDevReq) (header : HostPtr)
    (descs : List VringDesc) : Prop where
  headerInside : ∀ t ∈ headerTouches header, ∃ desc, descs.head? = some desc ∧ t.Inside desc
  backend : ∀ direction sector iov iovcount,
    execution dev req header = .transfer direction sector iov iovcount →
      0 ≤ iovcount ∧ iov.take iovcount.toNat = (inner descs).map (iovecOf dev.guest)
  dataInside : ∀ t ∈ dataTouches dev.image (execution dev req header),
    ∃ desc ∈ inner descs, t.Inside desc
  statusInside : ∀ t ∈ statusTouches req (execution dev req header),
    ∃ desc, descs.getLast? = some desc ∧ t.Inside desc
  refused : ¬ WellShaped dev.image (u32At dev.guest.bytes header.address) descs →
    execution dev req header = .refused

/-- `reqs[head]` holds the entries of the chain, in its order. -/
structure OfChain (guest : GuestMemory) (descs : List VringDesc) (req : BlkDevReq) : Prop where
  nonempty : descs ≠ []
  count : req.entries = descs.length
  entries : Window id req.iov 0 (descs.map (iovecOf guest))

section Popped
variable {dev : BlkDev Disk} {head : UInt16} {descs : List VringDesc} {req : BlkDevReq}

theorem describes_nonempty {turn : Turn} (chain : Describes turn head descs) : descs ≠ [] := by
  simp only [Describes] at chain
  split at chain
  · obtain ⟨_, path, rfl, linked⟩ := chain
    obtain ⟨rest, rfl⟩ := linked.head
    simp
  · obtain ⟨path, rfl, linked⟩ := chain
    obtain ⟨rest, rfl⟩ := linked.head
    simp

/-- The walk of a chain of any length ends, with one store for each descriptor. -/
theorem described_walk (size : dev.vq.vring.num = virtioBlkQueueSize)
    (chain : Describes ⟨dev.ring, dev.guest⟩ head descs) (iov : Nat → Iovec) :
    ∃ w, virtQueueGetHeadIov dev.guest dev.ring dev.vq iov head chainFuel = some w ∧
      w.stored.length = descs.length := by
  have ends {desc : Nat → VringDesc} {max first : UInt16} {path : List UInt16}
      (linked : Chain desc max first path) : path.length ≤ chainFuel :=
    linked.length_le fun i _ => UInt16.toNat_lt i
  by_cases indirect : virtDescTestFlag (dev.ring.desc head.toNat) vringDescFIndirect = true
  · simp only [Describes, indirect, if_true] at chain
    obtain ⟨table, path, rfl, linked⟩ := chain
    rw [head_iov_indirect indirect table, walk_of_chain linked _ chainFuel (ends linked)]
    exact ⟨_, rfl, by simp [store_all_stored_length]⟩
  · simp only [Describes, indirect] at chain
    obtain ⟨path, rfl, linked⟩ := chain
    rw [Bool.not_eq_true] at indirect
    rw [head_iov_direct indirect, size, walk_of_chain linked _ chainFuel (ends linked)]
    exact ⟨_, rfl, by simp [store_all_stored_length]⟩

theorem pop_request_chain (size : dev.vq.vring.num = virtioBlkQueueSize)
    (chain : Describes ⟨dev.ring, dev.guest⟩ head descs) (inside : head.toNat < virtioBlkQueueSize)
    (short : descs.length ≤ virtioBlkQueueSize) :
    ∃ req, popRequest dev head = some req ∧ OfChain dev.guest descs req := by
  obtain ⟨w, walked, stored, counts, window⟩ :=
    head_iov_entries (dev.reqs head.toNat).iov rfl size chain short
  refine ⟨⟨w.iov, w.outCount, w.inCount, head⟩, ?_, describes_nonempty chain, counts, window⟩
  exact pop_request_iff.mpr ⟨inside, w, walked, by rw [stored]; exact short, rfl⟩

theorem popped_bounds (size : dev.vq.vring.num = virtioBlkQueueSize)
    (chain : Describes ⟨dev.ring, dev.guest⟩ head descs)
    (popped : popRequest dev head = some req) :
    head.toNat < virtioBlkQueueSize ∧ descs.length ≤ virtioBlkQueueSize := by
  obtain ⟨inside, w, walked, short, _⟩ := pop_request_iff.mp popped
  obtain ⟨other, same, stored⟩ := described_walk size chain (dev.reqs head.toNat).iov
  rw [walked] at same
  cases same
  exact ⟨inside, stored ▸ short⟩

end Popped

section Shape
variable {dev : BlkDev Disk} {req : BlkDevReq} {descs : List VringDesc}

theorem OfChain.first {guest : GuestMemory} (whole : OfChain guest descs req) :
    ∃ desc rest, descs = desc :: rest ∧ req.iov 0 = iovecOf guest desc := by
  cases descs with
  | nil => exact absurd rfl whole.nonempty
  | cons desc rest =>
      have entry := whole.entries 0 (by simp)
      exact ⟨desc, rest, rfl, by simpa using entry⟩

theorem OfChain.last {guest : GuestMemory} (whole : OfChain guest descs req) :
    ∃ desc, descs.getLast? = some desc ∧ req.iov (req.entries - 1) = iovecOf guest desc := by
  have nonempty := whole.nonempty
  have positive : 0 < descs.length := List.length_pos_of_ne_nil nonempty
  have entry := whole.entries (descs.length - 1) (by simp; omega)
  refine ⟨descs.getLast nonempty, List.getLast?_eq_some_getLast nonempty, ?_⟩
  rw [whole.count, List.getLast_eq_getElem]
  simpa using entry

/-- A chain of at least two has its data between the two. -/
theorem OfChain.data {guest : GuestMemory} (whole : OfChain guest descs req)
    (long : 2 ≤ descs.length) (short : descs.length ≤ virtioBlkQueueSize) :
    0 ≤ (req.entries : Int) - 2 ∧
      req.behindHeader.take ((req.entries : Int) - 2).toNat =
        (inner descs).map (iovecOf guest) := by
  obtain ⟨header, rest, rfl⟩ := List.exists_cons_of_length_pos (show 0 < descs.length by omega)
  have nonempty : rest ≠ [] := by
    intro none
    simp [none] at long
  have split : rest = inner (header :: rest) ++ [rest.getLast nonempty] := by
    simp [inner, List.dropLast_append_getLast]
  have length := congrArg List.length split
  simp only [List.length_append, List.length_singleton] at length
  have count : (req.entries : Int) - 2 = (inner (header :: rest)).length := by
    rw [whole.count]
    simp only [List.length_cons]
    omega
  have entries := whole.entries
  rw [split] at entries
  simp only [List.map_cons, List.map_append, List.map_nil] at entries
  have fits : ((inner (header :: rest)).map (iovecOf guest)).length + 2 ≤ virtioBlkQueueSize := by
    simp only [List.length_map, List.length_cons] at short ⊢
    omega
  obtain ⟨behind, same⟩ := behind_header (by simpa using entries) fits
  rw [count, same]
  exact ⟨Int.natCast_nonneg _, List.take_left' (by simp)⟩

/-- The first of the data descriptors is `iov[1]`. -/
theorem OfChain.second {guest : GuestMemory} (whole : OfChain guest descs req)
    {desc : VringDesc} {rest : List VringDesc} (listed : inner descs = desc :: rest) :
    req.iov 1 = iovecOf guest desc := by
  obtain ⟨header, tail, rfl, _⟩ := whole.first
  have prefixed : desc :: rest <+: tail := by
    rw [← listed]
    exact List.dropLast_prefix tail
  obtain ⟨more, rfl⟩ := prefixed
  have entry := whole.entries 1 (by simp)
  simpa using entry

theorem iovec_base {guest : GuestMemory} {desc : VringDesc} {ptr : HostPtr}
    (mapped : (iovecOf guest desc).iovBase = some ptr) : ptr.address = desc.addr.toNat := by
  simp only [iovecOf, demuMapGuestRange, Option.ite_none_right_eq_some, Option.some.injEq] at mapped
  rw [← mapped.2]

theorem execution_refused_iff (header : HostPtr) :
    execution dev req header = .refused ↔
      known (u32At dev.guest.bytes header.address) = false := by
  simp only [execution, known, Bool.or_eq_false_iff, beq_eq_false_iff_ne]
  constructor
  · intro refused
    refine ⟨⟨⟨?_, ?_⟩, ?_⟩, ?_⟩
    all_goals
      intro same
      simp [same, virtioBlkTIn, virtioBlkTOut, virtioBlkTFlush, virtioBlkTGetId] at refused
  · rintro ⟨⟨⟨read, write⟩, flush⟩, getId⟩
    simp [read, write, flush, getId]

theorem header_inside_iff {guest : GuestMemory} {desc : VringDesc} {header : HostPtr}
    (mapped : (iovecOf guest desc).iovBase = some header) :
    (∀ t ∈ headerTouches header, t.Inside desc) ↔ ¬ Writable desc ∧ 16 ≤ desc.len.toNat := by
  have address := iovec_base mapped
  simp only [headerTouches, List.mem_cons, List.not_mem_nil, or_false, forall_eq_or_imp, forall_eq,
    Writable, Bool.not_eq_true]
  constructor
  · rintro ⟨_, sector⟩
    have last := sector.last
    simp only [address] at last
    exact ⟨sector.direction, by omega⟩
  · rintro ⟨readable, long⟩
    constructor
    · exact ⟨readable, by simp only [address]; omega, by simp only [address]; omega⟩
    · exact ⟨readable, by simp only [address]; omega, by simp only [address]; omega⟩

/-- The status byte of a descriptor that a driver can be told by. -/
theorem status_inside {guest : GuestMemory} {desc : VringDesc} {status : HostPtr}
    (mapped : (iovecOf guest desc).iovBase = some status) (writable : Writable desc)
    (long : 1 ≤ desc.len.toNat) : Touch.Inside ⟨status.address, 1, true⟩ desc := by
  have address := iovec_base mapped
  exact ⟨writable, by simp only [address]; omega, by simp only [address]; omega⟩

theorem entry_touches_inside {guest : GuestMemory} {data : List VringDesc} {write : Bool}
    (direction : ∀ desc ∈ data, virtDescTestFlag desc vringDescFWrite = write) :
    ∀ t ∈ entryTouches write (data.map (iovecOf guest)), ∃ desc ∈ data, t.Inside desc := by
  intro t member
  obtain ⟨entry, present, same⟩ := List.mem_filterMap.mp member
  obtain ⟨desc, inside, rfl⟩ := List.mem_map.mp present
  obtain ⟨ptr, mapped, rfl⟩ := Option.map_eq_some_iff.mp same
  have address := iovec_base mapped
  refine ⟨desc, inside, direction desc inside, ?_, ?_⟩
  · simp only [address]
    omega
  · simp only [address, iovecOf]
    omega

theorem contained_well_shaped {header : HostPtr} (whole : OfChain dev.guest descs req)
    (mapped : (req.iov 0).iovBase = some header) (contained : Contained dev req header descs) :
    WellShaped dev.image (u32At dev.guest.bytes header.address) descs := by
  by_contra shapeless
  have unknown := (execution_refused_iff header).mp (contained.refused shapeless)
  apply shapeless
  obtain ⟨first, rest, rfl, entry⟩ := whole.first
  rw [entry] at mapped
  have inside : ∀ t ∈ headerTouches header, t.Inside first := by
    intro t member
    obtain ⟨desc, same, here⟩ := contained.headerInside t member
    cases same
    exact here
  have other : known (u32At dev.guest.bytes header.address) ≠ true := by simp [unknown]
  constructor
  case header =>
    intro desc same
    cases same
    exact (header_inside_iff mapped).mp inside
  case long => exact fun type => absurd type other
  case status => exact fun type => absurd type other
  case data =>
    constructor
    · intro type
      simp [type, known] at unknown
    · intro type
      simp [type, known] at unknown
    · intro type
      simp [type, known] at unknown

/-- The four types that are executed, each as what it is. -/
inductive Executed (dev : BlkDev Disk) (req : BlkDevReq) (header : HostPtr) : Execution → Prop where
  | transfer (direction : Direction) :
      u32At dev.guest.bytes header.address = direction.type →
      Executed dev req header (.transfer direction (u64At dev.guest.bytes (header.address + 8))
        req.behindHeader ((req.entries : Int) - 2))
  | flush : u32At dev.guest.bytes header.address = virtioBlkTFlush → Executed dev req header .flush
  | getId : u32At dev.guest.bytes header.address = virtioBlkTGetId →
      Executed dev req header (.getId (req.iov 1).iovBase)
  | refused : known (u32At dev.guest.bytes header.address) = false →
      Executed dev req header .refused

theorem execution_cases (header : HostPtr) :
    Executed dev req header (execution dev req header) := by
  by_cases other : known (u32At dev.guest.bytes header.address) = false
  · rw [(execution_refused_iff header).mpr other]
    exact Executed.refused other
  · simp only [known, Bool.or_eq_false_iff, beq_eq_false_iff_ne, not_and_or, not_not] at other
    unfold execution
    rcases other with ((read | write) | flush) | getId
    · simp only [read, if_true]
      exact Executed.transfer .fromDevice read
    · simp only [write, virtioBlkTOut, virtioBlkTIn]
      exact Executed.transfer .toDevice write
    · simp only [flush, virtioBlkTOut, virtioBlkTIn, virtioBlkTFlush]
      exact Executed.flush flush
    · simp only [getId, virtioBlkTOut, virtioBlkTIn, virtioBlkTFlush, virtioBlkTGetId]
      exact Executed.getId getId

theorem known_direction (direction : Direction) : known direction.type = true := by
  cases direction <;> rfl

theorem Executed.known {header : HostPtr} {e : Execution} (executed : Executed dev req header e)
    (taken : e ≠ .refused) : known (u32At dev.guest.bytes header.address) = true := by
  cases executed with
  | transfer direction type =>
      rw [type]
      exact known_direction direction
  | flush type | getId type =>
      rw [type]
      rfl
  | refused other => exact absurd rfl taken

theorem known_status_inside {type : UInt32} (whole : OfChain dev.guest descs req)
    (shaped : WellShaped dev.image type descs) (taken : known type = true) {e : Execution} :
    ∀ t ∈ statusTouches req e, ∃ desc, descs.getLast? = some desc ∧ t.Inside desc := by
  obtain ⟨last, found, entry⟩ := whole.last
  obtain ⟨writable, long⟩ := shaped.status taken last found
  intro t member
  refine ⟨last, found, ?_⟩
  cases mapped : (iovecOf dev.guest last).iovBase with
  | none => cases e <;> simp [statusTouches, entry, mapped] at member
  | some status =>
      have same : t = ⟨status.address, 1, true⟩ := by
        cases e <;> simp_all [statusTouches]
      rw [same]
      exact status_inside mapped writable long

theorem well_shaped_contained {header : HostPtr} (whole : OfChain dev.guest descs req)
    (short : descs.length ≤ virtioBlkQueueSize) (mapped : (req.iov 0).iovBase = some header)
    (shaped : WellShaped dev.image (u32At dev.guest.bytes header.address) descs) :
    Contained dev req header descs := by
  have headerInside :
      ∀ t ∈ headerTouches header, ∃ desc, descs.head? = some desc ∧ t.Inside desc := by
    obtain ⟨first, rest, rfl, entry⟩ := whole.first
    rw [entry] at mapped
    intro t member
    exact ⟨first, rfl, (header_inside_iff mapped).mpr (shaped.header first rfl) t member⟩
  have executed : Executed dev req header (execution dev req header) := execution_cases header
  constructor
  case headerInside => exact headerInside
  case refused => exact fun shapeless => absurd shaped shapeless
  case statusInside =>
    intro t member
    by_cases taken : execution dev req header = .refused
    · simp [taken, statusTouches] at member
    · exact known_status_inside whole shaped (executed.known taken) t member
  case backend =>
    intro direction sector iov iovcount result
    rw [result] at executed
    cases executed with
    | transfer _ type => exact whole.data (shaped.long (type ▸ known_direction direction)) short
  case dataInside =>
    generalize execution dev req header = result at executed
    cases executed with
    | refused | flush => simp [dataTouches]
    | transfer direction type =>
        obtain ⟨_, handed⟩ := whole.data (shaped.long (type ▸ known_direction direction)) short
        simp only [dataTouches, handed]
        apply entry_touches_inside
        cases direction with
        | fromDevice => exact shaped.data.fromDevice type
        | toDevice => simpa [Writable] using shaped.data.toDevice type
    | getId type =>
        obtain ⟨desc, rest, listed, writable, fits⟩ := shaped.data.getId type
        have entry := whole.second listed
        cases mapped : (iovecOf dev.guest desc).iovBase with
        | none => simp [dataTouches, entry, mapped]
        | some buffer =>
            have address := iovec_base mapped
            cases answered : dev.image.fstat with
            | none => simp [dataTouches, entry, mapped, answered]
            | some stat =>
                have room := fits stat answered
                intro t member
                rw [entry, mapped] at member
                simp only [dataTouches, answered, List.mem_singleton] at member
                refine ⟨desc, by simp [listed], ?_⟩
                rw [member]
                exact ⟨writable, by simp only [address]; omega, by simp only [address]; omega⟩

end Shape

/-! The touches are those of the step: what is written lies in a touch that writes. -/

def Touch.Writes (t : Touch) (address : Nat) : Prop :=
  t.write = true ∧ t.address ≤ address ∧ address < t.address + t.len

/-- An operation of an image writes no guest memory but that of its entries. -/
def Confined (direction : Direction) (op : Transfer Disk) : Prop :=
  ∀ disk bytes sector iov iovcount address,
    (∀ t ∈ entryTouches (decide (direction = .fromDevice)) (iov.take iovcount.toNat),
      ¬ t.Writes address) → (op disk bytes sector iov iovcount).bytes address = bytes address

section Frame
variable {dev next : BlkDev Disk} {req : BlkDevReq} {address : Nat}

theorem store_target_base {pointer : Option HostPtr} {base : Nat}
    (target : storeTarget pointer = some base) : pointer = some ⟨base, true⟩ := by
  unfold storeTarget at target
  split at target
  · cases target
    rfl
  · cases target

theorem complete_frame {len : Int} {e : Execution} (taken : e ≠ .refused)
    (done : virtioBlkComplete dev req len = some next)
    (outside : ∀ t ∈ statusTouches req e, ¬ t.Writes address) :
    next.guest.bytes address = dev.guest.bytes address := by
  unfold virtioBlkComplete at done
  cases target : storeTarget (req.iov (req.entries - 1)).iovBase with
  | none => simp [target] at done
  | some status =>
      have base := store_target_base target
      have away : ¬ Touch.Writes ⟨status, 1, true⟩ address := by
        apply outside
        cases e <;> simp [statusTouches, base] at taken ⊢
      simp only [target, Option.some.injEq] at done
      rw [← done]
      apply writeRange_outside
      simp only [Touch.Writes, true_and] at away
      simp only [List.length_singleton]
      omega

theorem serial_frame {image : DiskImage Disk} {bytes : Nat → UInt8} {buffer : Option HostPtr}
    {answer : Nat × (Nat → UInt8)}
    (done : diskImageGetSerial image bytes buffer virtioBlkIdBytes = some answer)
    (outside : ∀ t ∈ dataTouches image (.getId buffer), ¬ t.Writes address) :
    answer.2 address = bytes address := by
  cases stat : image.fstat with
  | none =>
      simp only [diskImageGetSerial, stat, Option.some.injEq] at done
      rw [← done]
  | some values =>
      cases target : storeTarget buffer with
      | none => simp [diskImageGetSerial, stat, target] at done
      | some base =>
          have mapped := store_target_base target
          have away : ¬ Touch.Writes ⟨base, (serialBytes values).length, true⟩ address := by
            apply outside
            simp [dataTouches, mapped, stat]
          simp only [diskImageGetSerial, stat, target, Option.some.injEq] at done
          rw [← done]
          apply writeRange_outside
          simp only [Touch.Writes, true_and, serialBytes] at away
          omega

theorem transfer_frame {direction : Direction} {sector : UInt64} {iov : List Iovec}
    {iovcount : Int}
    (confined : ∀ op, dev.image.ops.operation direction = some op → Confined direction op)
    (done : execute dev req (.transfer direction sector iov iovcount) = some next)
    (data : ∀ t ∈ dataTouches dev.image (.transfer direction sector iov iovcount),
      ¬ t.Writes address)
    (status : ∀ t ∈ statusTouches req (.transfer direction sector iov iovcount),
      ¬ t.Writes address) :
    next.guest.bytes address = dev.guest.bytes address := by
  have finish {now : BlkDev Disk} {total : Int} (ended :
      (if now.image.async = false ∧ now.image.diskReqCb = true then virtioBlkComplete now req total
        else some now) = some next) : next.guest.bytes address = now.guest.bytes address := by
    split at ended
    · exact complete_frame (by simp) ended status
    · cases ended
      rfl
  cases found : dev.image.ops.operation direction with
  | none =>
      simp only [execute, diskImageTransfer, found] at done
      exact finish done
  | some op =>
      have kept := confined op found dev.disk dev.guest.bytes sector iov iovcount address data
      simp only [execute, diskImageTransfer, found] at done
      cases total : (op dev.disk dev.guest.bytes sector iov iovcount).total with
      | none => simp [total] at done
      | some count =>
          simp only [total] at done
          split at done
          · cases done
            exact kept
          · rw [finish done]
            exact kept

/-- The bytes that no touch writes are the same after the request. -/
theorem untouched_bytes_kept {header : HostPtr} (mapped : (req.iov 0).iovBase = some header)
    (confined : ∀ direction op, dev.image.ops.operation direction = some op → Confined direction op)
    (done : virtioBlkDoIoRequest dev req = some next)
    (data : ∀ t ∈ dataTouches dev.image (execution dev req header), ¬ t.Writes address)
    (status : ∀ t ∈ statusTouches req (execution dev req header), ¬ t.Writes address) :
    next.guest.bytes address = dev.guest.bytes address := by
  rw [do_io_request_executes mapped] at done
  cases result : execution dev req header with
  | refused =>
      rw [result] at done
      cases done
      rfl
  | flush =>
      rw [result] at done status
      have completed :
          virtioBlkComplete { dev with disk := (diskImageFlush dev.image dev.disk).2 } req
          (diskImageFlush dev.image dev.disk).1 = some next := done
      have kept := complete_frame (e := .flush) (by simp) completed status
      exact kept
  | getId buffer =>
      rw [result] at done data status
      cases serial : diskImageGetSerial dev.image dev.guest.bytes buffer virtioBlkIdBytes with
      | none => simp [execute, serial] at done
      | some answer =>
          simp only [execute, serial] at done
          rw [complete_frame (by simp) done status]
          exact serial_frame serial data
  | transfer direction sector iov iovcount =>
      rw [result] at done data status
      exact transfer_frame (confined direction) done data status

end Frame

/-! The synchronous operations of a raw image are confined to their entries. -/

section Raw
variable {address : Nat}

theorem segment_entry {iov : List Iovec} {range : Range}
    (member : range ∈ segments storeTarget iov) :
    ⟨range.base, range.len, true⟩ ∈ entryTouches true iov := by
  induction iov with
  | nil => simp [segments] at member
  | cons entry rest ih =>
      unfold segments at member
      cases target : storeTarget entry.iovBase with
      | none =>
          simp only [target] at member
          split at member
          · exact List.mem_filterMap.mpr (by
              obtain ⟨later, inside, same⟩ := List.mem_filterMap.mp (ih member)
              exact ⟨later, List.mem_cons_of_mem _ inside, same⟩)
          · cases member
      | some base =>
          simp only [target] at member
          rcases List.mem_cons.mp member with rfl | behind
          · exact List.mem_filterMap.mpr ⟨entry, by simp, by simp [store_target_base target]⟩
          · obtain ⟨later, inside, same⟩ := List.mem_filterMap.mp (ih behind)
            exact List.mem_filterMap.mpr ⟨later, List.mem_cons_of_mem _ inside, same⟩

/-- The entries that are left after a transfer are among those there were. -/
theorem shifted_entries {nr : Nat} {place next : Place}
    (shifted : shiftIovec nr place.iov place = some next) {entry : Iovec}
    (member : entry ∈ next.iov.take next.iovcnt.toNat) :
    entry ∈ place.iov.take place.iovcnt.toNat := by
  obtain ⟨passed, first, rest, split, _, _, rfl⟩ := shift_iovec_spec rfl shifted
  rw [split, List.take_append]
  apply List.mem_append_right
  have count : (place.iovcnt - passed.length).toNat = place.iovcnt.toNat - passed.length := by omega
  rwa [count] at member

theorem preadv_loop_frame {stopped : Nat → Int} {answers : List HostAnswer} {place : Place}
    {file : File} {bytes : Nat → UInt8} {touched : List Range}
    (outside : ∀ t ∈ entryTouches true (place.iov.take place.iovcnt.toNat), ¬ t.Writes address) :
    (inFull preadv stopped answers place file bytes touched).bytes address = bytes address := by
  induction answers generalizing place file bytes touched with
  | nil =>
      unfold inFull
      split <;> rfl
  | cons answer rest ih =>
      unfold inFull
      split
      · rfl
      · cases answer with
        | again => exact ih outside
        | fails => rfl
        | moves most =>
            have kept (nr : Nat) : scatter bytes
                (segments storeTarget (place.iov.take place.iovcnt.toNat))
                (readRange file.bytes place.offset.toNat nr) address = bytes address := by
              apply scatter_outside
              intro range member held
              exact outside _ (segment_entry member) ⟨rfl, held.1, held.2⟩
            dsimp only
            split
            · rfl
            · split
              · exact kept _
              · split
                · exact kept _
                · rename_i next shifted
                  rw [ih]
                  · exact kept _
                  · intro t member
                    obtain ⟨entry, inside, same⟩ := List.mem_filterMap.mp member
                    exact outside t (List.mem_filterMap.mpr
                      ⟨entry, shifted_entries shifted inside, same⟩)

theorem pwritev_loop_frame {stopped : Nat → Int} {answers : List HostAnswer} {place : Place}
    {file : File} {bytes : Nat → UInt8} {touched : List Range} :
    (inFull pwritev stopped answers place file bytes touched).bytes = bytes := by
  induction answers generalizing place file touched with
  | nil =>
      unfold inFull
      split <;> rfl
  | cons answer rest ih =>
      unfold inFull
      split
      · rfl
      · cases answer with
        | again => exact ih
        | fails => rfl
        | moves most =>
            dsimp only
            split
            · rfl
            · split
              · rfl
              · split
                · rfl
                · exact ih

theorem raw_read_confined : Confined .fromDevice rawImageReadSync := by
  intro disk bytes sector iov iovcount address outside
  simp only [rawImageReadSync, preadvInFull, startInFull]
  split
  · rfl
  · split
    · rfl
    · exact preadv_loop_frame outside

theorem raw_write_confined : Confined .toDevice rawImageWriteSync := by
  intro disk bytes sector iov iovcount address outside
  simp only [rawImageWriteSync, pwritevInFull, startInFull]
  split
  · rfl
  · split
    · rfl
    · rw [pwritev_loop_frame]

end Raw

/-! A whole turn: the chain is walked into `reqs[head]` and the request is served. -/

/-- The walk stays inside `reqs[head]`, and the request inside its chain. -/
def ServedInside (dev : BlkDev Disk) (head : UInt16) (descs : List VringDesc) : Prop :=
  ∃ req, popRequest dev head = some req ∧
    ∀ header, (req.iov 0).iovBase = some header → Contained dev req header descs

/-- The chain fits `reqs[head]` and has the shape of the type its header gives. -/
def Fitting (dev : BlkDev Disk) (head : UInt16) (descs : List VringDesc) : Prop :=
  head.toNat < virtioBlkQueueSize ∧ descs.length ≤ virtioBlkQueueSize ∧
    ∀ first, descs.head? = some first → ∀ header, (iovecOf dev.guest first).iovBase = some header →
      WellShaped dev.image (u32At dev.guest.bytes header.address) descs

section Served
variable {dev next : BlkDev Disk} {head : UInt16} {descs : List VringDesc} {req : BlkDevReq}

/-- What the step writes of a contained request lies in its writable descriptors. -/
theorem contained_step_confined {header : HostPtr} (mapped : (req.iov 0).iovBase = some header)
    (confined : ∀ direction op, dev.image.ops.operation direction = some op → Confined direction op)
    (contained : Contained dev req header descs) (done : virtioBlkDoIoRequest dev req = some next)
    {address : Nat}
    (outside : ∀ desc ∈ descs, Writable desc →
      address < desc.addr.toNat ∨ desc.addr.toNat + desc.len.toNat ≤ address) :
    next.guest.bytes address = dev.guest.bytes address := by
  have away {t : Touch} {desc : VringDesc} (member : desc ∈ descs) (inside : t.Inside desc) :
      ¬ t.Writes address := by
    rintro ⟨write, first, last⟩
    have writable : Writable desc := inside.direction.trans write
    have low := inside.first
    have high := inside.last
    have gap := outside desc member writable
    omega
  apply untouched_bytes_kept mapped confined done
  · intro t touched
    obtain ⟨desc, member, inside⟩ := contained.dataInside t touched
    exact away (List.mem_of_mem_drop (List.mem_of_mem_dropLast member)) inside
  · intro t touched
    obtain ⟨desc, last, inside⟩ := contained.statusInside t touched
    exact away (List.mem_of_getLast? last) inside

theorem served_inside_iff_fitting (size : dev.vq.vring.num = virtioBlkQueueSize)
    (chain : Describes ⟨dev.ring, dev.guest⟩ head descs) :
    ServedInside dev head descs ↔ Fitting dev head descs := by
  constructor
  · rintro ⟨req, popped, contained⟩
    obtain ⟨inside, short⟩ := popped_bounds size chain popped
    obtain ⟨found, again, whole⟩ := pop_request_chain size chain inside short
    rw [popped] at again
    cases again
    refine ⟨inside, short, ?_⟩
    intro first same header mapped
    obtain ⟨desc, rest, rfl, entry⟩ := whole.first
    cases same
    rw [← entry] at mapped
    exact contained_well_shaped whole mapped (contained header mapped)
  · rintro ⟨inside, short, shaped⟩
    obtain ⟨req, popped, whole⟩ := pop_request_chain size chain inside short
    refine ⟨req, popped, ?_⟩
    intro header mapped
    obtain ⟨desc, rest, rfl, entry⟩ := whole.first
    have type := shaped desc rfl header (entry ▸ mapped)
    exact well_shaped_contained whole short mapped type

end Served

/-! One published read of a sector, and a read whose chain is its header only. -/

def shown : BlkDev OpenFile := { rawDevice with ring := oneRead.ring, guest := oneRead.guest }

def headerOnly : BlkDev OpenFile :=
  { rawDevice with
    ring := { blankRing with desc := fun _ => ⟨0x1000, 16, 0, 0⟩ }
    guest := oneRead.guest }

theorem one_read_served_inside : ServedInside shown 0 readRequest.descs := by
  apply (served_inside_iff_fitting rfl read_request_well_formed.chain).mpr
  refine ⟨by decide, by decide, ?_⟩
  intro first same header mapped
  cases same
  have type : u32At shown.guest.bytes header.address = virtioBlkTIn := rfl
  rw [type]
  constructor
  case header =>
    rintro desc ⟨⟩
    decide
  case long => decide
  case status =>
    rintro _ desc ⟨⟩
    decide
  case data =>
    constructor
    · intro _
      decide
    · exact fun other => absurd other (by decide)
    · exact fun other => absurd other (by decide)

theorem header_only_executed : ¬ ServedInside headerOnly 0 [⟨0x1000, 16, 0, 0⟩] := by
  have chain : Describes ⟨headerOnly.ring, headerOnly.guest⟩ 0 [⟨0x1000, 16, 0, 0⟩] :=
    ⟨[0], rfl, Chain.last fun linked => absurd linked.1 (by decide)⟩
  rintro ⟨req, popped, contained⟩
  obtain ⟨found, again, whole⟩ := pop_request_chain rfl chain (by decide) (by decide)
  rw [popped] at again
  cases again
  obtain ⟨first, rest, same, entry⟩ := whole.first
  cases same
  have mapped : (req.iov 0).iovBase = some ⟨0x1000, false⟩ := by
    rw [entry]
    rfl
  have long := (contained_well_shaped whole mapped (contained _ mapped)).long rfl
  exact absurd long (by decide)

end VirtioDisk.RequestMemory
