import VirtioDisk.RequestCompletion
import VirtioDisk.RequestMemory

/-!
One popped head from `virt_queue__pop` to the end of its turn of virtio_blk_do_io.
The walk fills `reqs[head]` from the front, so that behind a short chain the entries
of an earlier request are still there, and the switch takes `iov[0]`, `iov[1]` and
the last entry as they come.
-/

namespace VirtioDisk.HeadHandling

open BlkDevice DescriptorChain FlatDisk RequestCompletion RequestMemory RingWindow Virtqueue

variable {Disk : Type}

/-! The request that a chain comes to. -/

def readableCount (descs : List VringDesc) : Nat :=
  descs.countP fun desc => !virtDescTestFlag desc vringDescFWrite

def writableCount (descs : List VringDesc) : Nat :=
  descs.countP fun desc => virtDescTestFlag desc vringDescFWrite

theorem counts_length (descs : List VringDesc) :
    readableCount descs + writableCount descs = descs.length := by
  have split := List.length_eq_countP_add_countP
    (fun desc => virtDescTestFlag desc vringDescFWrite) (l := descs)
  have other : (fun desc => !virtDescTestFlag desc vringDescFWrite) =
      fun desc => decide ¬ virtDescTestFlag desc vringDescFWrite = true := by
    funext desc
    simp
  rw [readableCount, writableCount, other]
  omega

/-- `iov` with the entries of the chain put over its front. -/
def overlay (guest : GuestMemory) (iov : Nat → Iovec) (descs : List VringDesc) (i : Nat) : Iovec :=
  (descs[i]?.map (iovecOf guest)).getD (iov i)

def gathered (dev : BlkDev Disk) (head : UInt16) (descs : List VringDesc) : BlkDevReq where
  iov := overlay dev.guest (dev.reqs head.toNat).iov descs
  outCount := UInt16.ofNat (readableCount descs)
  inCount := UInt16.ofNat (writableCount descs)
  head := head

/-- What the walk has behind it when it was at the descriptors. -/
structure Gathers (guest : GuestMemory) (iov : Nat → Iovec) (descs : List VringDesc)
    (w : HeadIov) : Prop where
  entries : w.iov = overlay guest iov descs
  outCount : w.outCount = UInt16.ofNat (readableCount descs)
  inCount : w.inCount = UInt16.ofNat (writableCount descs)

section Walk
variable {guest : GuestMemory} {iov : Nat → Iovec} {descs : List VringDesc} {w : HeadIov}

theorem overlay_push (entry : VringDesc) :
    put (overlay guest iov descs) descs.length (iovecOf guest entry) =
      overlay guest iov (descs ++ [entry]) := by
  funext i
  simp only [put, overlay.eq_1 guest iov (descs ++ [entry])]
  rcases Nat.lt_trichotomy i descs.length with before | same | behind
  · rw [Function.update_of_ne (by omega), overlay, List.getElem?_append_left before]
  · rw [same, Function.update_self, List.getElem?_concat_length]
    rfl
  · rw [Function.update_of_ne (by omega), overlay, List.getElem?_eq_none (by omega),
      List.getElem?_eq_none (by rw [List.length_append, List.length_singleton]; omega)]

theorem Gathers.slot (gathers : Gathers guest iov descs w) (room : descs.length < 65536) :
    w.outCount.toNat + w.inCount.toNat = descs.length := by
  have sum := counts_length descs
  rw [gathers.outCount, gathers.inCount, UInt16.toNat_ofNat', UInt16.toNat_ofNat']
  omega

theorem Gathers.store (gathers : Gathers guest iov descs w) (room : descs.length < 65536)
    (bound index : Nat) (entry : VringDesc) :
    Gathers guest iov (descs ++ [entry]) (storeIovec guest bound index entry w) := by
  constructor
  · simp only [storeIovec, gathers.slot room]
    rw [gathers.entries]
    exact overlay_push entry
  · simp only [storeIovec, gathers.outCount, readableCount, List.countP_append]
    cases flag : virtDescTestFlag entry vringDescFWrite <;> simp [flag]
  · simp only [storeIovec, gathers.inCount, writableCount, List.countP_append]
    cases flag : virtDescTestFlag entry vringDescFWrite <;> simp [flag]

theorem store_all_gathers {desc : Nat → VringDesc} {bound : Nat} (path : List UInt16)
    (gathers : Gathers guest iov descs w) (room : descs.length + path.length < 65536) :
    Gathers guest iov (descs ++ path.map fun idx => desc idx.toNat)
      (storeAll guest desc bound path w) := by
  induction path generalizing descs w with
  | nil => simpa [storeAll] using gathers
  | cons idx rest ih =>
      rw [List.length_cons] at room
      have stored := gathers.store (by omega) bound idx.toNat (desc idx.toNat)
      have later := ih stored (by rw [List.length_append, List.length_singleton]; omega)
      rw [storeAll, List.map_cons]
      simpa using later

end Walk

section Popped
variable {dev : BlkDev Disk} {head : UInt16} {descs : List VringDesc}

theorem head_iov_gathers (size : dev.vq.vring.num = virtioBlkQueueSize)
    (chain : Describes ⟨dev.ring, dev.guest⟩ head descs)
    (short : descs.length ≤ virtioBlkQueueSize) :
    ∃ w, virtQueueGetHeadIov dev.guest dev.ring dev.vq (dev.reqs head.toNat).iov head chainFuel =
        some w ∧ w.stored.length = descs.length ∧
      Gathers dev.guest (dev.reqs head.toNat).iov descs w := by
  have start (visited : List Deref) : Gathers dev.guest (dev.reqs head.toNat).iov []
      ⟨(dev.reqs head.toNat).iov, 0, 0, visited, []⟩ := ⟨rfl, rfl, rfl⟩
  have room : ([] : List VringDesc).length + descs.length < 65536 := by
    simp only [List.length_nil, virtioBlkQueueSize] at short ⊢
    omega
  have ends {desc : Nat → VringDesc} {max first : UInt16} {path : List UInt16}
      (linked : Chain desc max first path) : path.length ≤ chainFuel :=
    linked.length_le fun i _ => UInt16.toNat_lt i
  by_cases indirect : virtDescTestFlag (dev.ring.desc head.toNat) vringDescFIndirect = true
  · simp only [Describes, indirect, if_true] at chain
    obtain ⟨table, path, rfl, linked⟩ := chain
    rw [List.length_map] at room
    rw [head_iov_indirect indirect table, walk_of_chain linked _ chainFuel (ends linked)]
    exact ⟨_, rfl, by simp [store_all_stored_length], store_all_gathers path (start _) room⟩
  · simp only [Describes, indirect] at chain
    obtain ⟨path, rfl, linked⟩ := chain
    rw [List.length_map] at room
    rw [Bool.not_eq_true] at indirect
    rw [head_iov_direct indirect, size, walk_of_chain linked _ chainFuel (ends linked)]
    exact ⟨_, rfl, by simp [store_all_stored_length], store_all_gathers path (start _) room⟩

theorem pop_request_gathered (size : dev.vq.vring.num = virtioBlkQueueSize)
    (chain : Describes ⟨dev.ring, dev.guest⟩ head descs) (inside : head.toNat < virtioBlkQueueSize)
    (short : descs.length ≤ virtioBlkQueueSize) :
    popRequest dev head = some (gathered dev head descs) := by
  obtain ⟨w, walked, stored, gathers⟩ := head_iov_gathers size chain short
  apply pop_request_iff.mpr
  refine ⟨inside, w, walked, by rw [stored]; exact short, ?_⟩
  rw [gathers.entries, gathers.outCount, gathers.inCount]
  rfl

/-- A head of well-formed tables has a chain that fits `iov`. -/
theorem well_formed_describes (formed : WellFormed dev.guest dev.ring head) :
    head.toNat < virtioBlkQueueSize ∧ ∃ descs, Describes ⟨dev.ring, dev.guest⟩ head descs ∧
      descs.length ≤ virtioBlkQueueSize := by
  obtain ⟨inside, formed⟩ := formed
  refine ⟨inside, ?_⟩
  by_cases indirect : virtDescTestFlag (dev.ring.desc head.toNat) vringDescFIndirect = true
  · rw [if_pos indirect] at formed
    obtain ⟨mapped, _, path, short, chain⟩ := formed
    refine ⟨path.map fun idx => vringDescTable dev.guest
      (dev.ring.desc head.toNat).addr.toNat idx.toNat, ?_, by rw [List.length_map]; exact short⟩
    simp only [Describes, indirect, if_true]
    exact ⟨mapped, path, rfl, chain⟩
  · rw [if_neg indirect] at formed
    obtain ⟨path, chain⟩ := formed
    have whole : (UInt16.ofNat virtioBlkQueueSize).toNat = virtioBlkQueueSize := rfl
    have short := chain.length_le (chain.bounded inside (Nat.le_of_eq whole))
    refine ⟨path.map fun idx => dev.ring.desc idx.toNat, ?_, by rw [List.length_map]; exact short⟩
    simp only [Describes, indirect]
    exact ⟨path, rfl, chain⟩

end Popped

/-! The request itself. -/

def StatusStored (req : BlkDevReq) : Prop :=
  storeTarget (req.iov (req.entries - 1)).iovBase ≠ none

/-- What has to be mapped, or come back, for the server to come back. The status byte is
stored only where virtio_blk_complete is called. -/
def Returns (dev : BlkDev Disk) (req : BlkDevReq) : Execution → Prop
  | .transfer direction sector iov iovcount =>
      match dev.image.ops.operation direction with
      | none => Synchronous dev → StatusStored req
      | some op => ∃ total, (op dev.disk dev.guest.bytes sector iov iovcount).total = some total ∧
          (0 ≤ total → Synchronous dev → StatusStored req)
  | .flush => StatusStored req
  | .getId buffer => (dev.image.fstat.isNone = true ∨ storeTarget buffer ≠ none) ∧ StatusStored req
  | .refused => True

def ComesBack (dev : BlkDev Disk) (req : BlkDevReq) : Prop :=
  ∃ header, (req.iov 0).iovBase = some header ∧ Returns dev req (execution dev req header)

section Request
variable {dev : BlkDev Disk} {req : BlkDevReq}

theorem complete_returns_iff (len : Int) :
    (∃ next, virtioBlkComplete dev req len = some next) ↔ StatusStored req := by
  constructor
  · rintro ⟨next, done⟩
    obtain ⟨status, target⟩ := complete_target done
    rw [StatusStored, target]
    exact Option.some_ne_none status
  · intro stored
    obtain ⟨status, target⟩ := Option.ne_none_iff_exists'.mp stored
    exact complete_total len target

theorem finish_returns_iff (len : Int) :
    (∃ next, (if dev.image.async = false ∧ dev.image.diskReqCb = true then
        virtioBlkComplete dev req len else some dev) = some next) ↔
      (Synchronous dev → StatusStored req) := by
  by_cases sync : dev.image.async = false ∧ dev.image.diskReqCb = true
  · rw [if_pos sync, complete_returns_iff]
    exact ⟨fun stored _ => stored, fun stored => stored sync⟩
  · rw [if_neg sync]
    exact ⟨fun _ now => absurd now sync, fun _ => ⟨dev, rfl⟩⟩

theorem execute_returns_iff (e : Execution) :
    (∃ next, execute dev req e = some next) ↔ Returns dev req e := by
  cases e with
  | transfer direction sector iov iovcount =>
      simp only [execute, diskImageTransfer, Returns]
      cases dev.image.ops.operation direction with
      | none => exact finish_returns_iff 0
      | some op =>
          simp only
          cases moved : (op dev.disk dev.guest.bytes sector iov iovcount).total with
          | none => simp
          | some total =>
              simp only [Option.some.injEq, exists_eq_left']
              by_cases failed : total < 0
              · rw [if_pos failed]
                exact ⟨fun _ some_ => absurd failed (by omega), fun _ => ⟨_, rfl⟩⟩
              · rw [if_neg failed]
                refine (finish_returns_iff total).trans ?_
                exact ⟨fun all _ => all, fun all => all (by omega)⟩
  | flush => exact complete_returns_iff _
  | getId buffer =>
      simp only [execute, Returns]
      constructor
      · rintro ⟨next, done⟩
        split at done
        · cases done
        · next serial =>
            exact ⟨serial_writable serial, (complete_returns_iff _).mp ⟨next, done⟩⟩
      · rintro ⟨writable, stored⟩
        have found : ∃ serial, diskImageGetSerial dev.image dev.guest.bytes buffer
            virtioBlkIdBytes = some serial := serial_total writable
        obtain ⟨⟨len, bytes⟩, serial⟩ := found
        rw [serial]
        exact (complete_returns_iff _).mpr stored
  | refused => exact ⟨fun _ => trivial, fun _ => ⟨dev, rfl⟩⟩

theorem request_returns_iff :
    (∃ next, virtioBlkDoIoRequest dev req = some next) ↔ ComesBack dev req := by
  unfold ComesBack
  cases first : (req.iov 0).iovBase with
  | none => simp [virtioBlkDoIoRequest, first]
  | some header =>
      rw [do_io_request_executes first, execute_returns_iff]
      simp

end Request

/-! The head. -/

def Popping (dev : BlkDev Disk) : Prop :=
  virtQueueAvailableLoad dev.ring dev.vq = true ∧ dev.ioDone = false

/-- The walk of the popped head is safe, and virtio_blk_do_io comes back from its request. -/
def HandledSafely (dev : BlkDev Disk) (turn : Turn) : Prop :=
  let seen := dev.seen turn
  let head := (virtQueuePop seen.ring seen.vq).1
  Popping seen → WalkSafe seen.guest seen.ring seen.vq (seen.reqs head.toNat).iov head ∧
    ∃ next, virtioBlkDoIo dev turn = some next

/-- The tables are well-formed, and so is the request that they come to: what is used of
its entries is mapped, and the image comes back from the rest. -/
def Manageable (dev : BlkDev Disk) (turn : Turn) : Prop :=
  let seen := dev.seen turn
  let head := (virtQueuePop seen.ring seen.vq).1
  Popping seen → WellFormed seen.guest seen.ring head ∧
    ∃ descs, Describes ⟨seen.ring, seen.guest⟩ head descs ∧
      ComesBack seen (gathered seen head descs)

section Heads
variable {dev : BlkDev Disk} {turn : Turn}

/-- Only the image, the disk and the memory of the device matter for a request. -/
theorem comes_back_popped {req : BlkDevReq} (reqs : Nat → BlkDevReq) :
    ComesBack { dev.pop with reqs := reqs } req ↔ ComesBack dev req := Iff.rfl

theorem do_io_popped (popping : Popping (dev.seen turn)) {req : BlkDevReq}
    (popped : popRequest (dev.seen turn).pop
      (virtQueuePop (dev.seen turn).ring (dev.seen turn).vq).1 = some req) :
    (∃ next, virtioBlkDoIo dev turn = some next) ↔ ComesBack (dev.seen turn) req := by
  obtain ⟨available, running⟩ := popping
  unfold virtioBlkDoIo
  simp only
  rw [if_pos ⟨available, running⟩, popped]
  exact request_returns_iff.trans (comes_back_popped _)

/-- Descriptors are described by a head in one way. -/
theorem describes_unique {first second : List VringDesc} {head : UInt16}
    (left : Describes turn head first) (right : Describes turn head second) : first = second := by
  by_cases indirect : virtDescTestFlag (turn.ring.desc head.toNat) vringDescFIndirect = true
  · simp only [Describes, indirect, if_true] at left right
    obtain ⟨_, path, rfl, chain⟩ := left
    obtain ⟨_, other, rfl, again⟩ := right
    rw [chain.unique again]
  · simp only [Describes, indirect] at left right
    obtain ⟨path, rfl, chain⟩ := left
    obtain ⟨other, rfl, again⟩ := right
    rw [chain.unique again]

/-- A popped head is handled within its bounds and to an end exactly when its tables are
those of a driver that keeps to the rules and its entries are mapped for what they
are used for: the code checks neither. -/
theorem handled_safely_iff (dev : BlkDev Disk) (turn : Turn)
    (size : dev.vq.vring.num = virtioBlkQueueSize) :
    HandledSafely dev turn ↔ Manageable dev turn := by
  unfold HandledSafely Manageable
  simp only
  have bounds : (dev.seen turn).vq.vring.num = virtioBlkQueueSize := size
  have popped := @pop_request_gathered Disk (dev.seen turn).pop
    (virtQueuePop (dev.seen turn).ring (dev.seen turn).vq).1
  apply imp_congr_right
  intro popping
  rw [walk_safe_iff_well_formed _ _ _ _ _ bounds]
  apply and_congr_right
  intro formed
  obtain ⟨inside, descs, chain, short⟩ := well_formed_describes formed
  rw [do_io_popped popping (popped bounds chain inside short)]
  constructor
  · exact fun back => ⟨descs, chain, back⟩
  · rintro ⟨other, again, back⟩
    rw [describes_unique again chain] at back
    exact back

end Heads

theorem one_read_handled : HandledSafely (device 512) oneRead := by
  apply (handled_safely_iff (device 512) oneRead rfl).mpr
  intro _
  have chain : Chain readChain 256 0 [0, 1, 2] :=
    Chain.link ⟨by decide, by decide⟩ (Chain.link ⟨by decide, by decide⟩
      (Chain.last fun linked => absurd linked.1 (by decide)))
  refine ⟨⟨by decide, [0, 1, 2], chain⟩, [readChain 0, readChain 1, readChain 2],
    ⟨[0, 1, 2], rfl, chain⟩, ⟨0x1000, false⟩, rfl, ?_⟩
  exact ⟨512, rfl, fun _ _ => Option.some_ne_none _⟩

/-- Descriptor 0 names itself: the head is inside the ring, but the walk does not return. -/
theorem self_linked_head_lost :
    ¬ HandledSafely (device 512)
      { oneRead with ring := { oneRead.ring with desc := fun _ => ⟨0, 512, vringDescFNext, 0⟩ } } :=
        by
  intro handled
  obtain ⟨⟨fuel, result, walked, _⟩, _⟩ := handled ⟨by decide, rfl⟩
  rw [head_iov_direct (by decide)] at walked
  obtain ⟨path, chain, _⟩ := chain_of_walk walked
  exact chain.not_self_linked ⟨by decide, by decide⟩ rfl

end VirtioDisk.HeadHandling
