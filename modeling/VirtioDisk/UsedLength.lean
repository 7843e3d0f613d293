import VirtioDisk.CapacityConfinement
import VirtioDisk.ReportedWrites
import VirtioDisk.RequestCompletion
import VirtioDisk.RequestMemory
import Mathlib.Algebra.Order.BigOperators.Group.List
import Mathlib.Algebra.Order.Group.Nat

/-!
The length in the used element. Four producers hand a number to
virtio_blk_complete, which stores its low 32 bits: the total of a transfer, the
result of fsync, the length snprintf would have liked to write, and a constant. The
driver takes it for the number of bytes the device has written to the chain.
-/

namespace VirtioDisk.UsedLength

open BlkDevice ByteStore CapacityConfinement DescriptorChain RawImage ReadWrite RingWindow Virtqueue
open FlatDisk (Describes rawDevice readRequest read_request_well_formed)
open ReportedWrites (Kind firstSector)
open RequestCompletion (Answered Reported Succeeds Synchronous complete_target request_total
  serial_total serial_writable)
open RequestMemory (Execution OfChain Writable execute execution inner)

/-! What a transfer reports. -/

section Totals
variable {target : Option HostPtr → Option Nat} {call : HostCall} {stopped : Nat → Int}
variable {answers : List HostAnswer} {place next : Place} {file : File} {bytes : Nat → UInt8}
variable {touched : List Range} {sum : Int}

theorem iov_size_take {iov : List Iovec} {iovcnt count : Nat}
    (sized : getIovSize iov iovcnt = some count) : count = iovBytes (iov.take iovcnt) := by
  induction iovcnt generalizing iov count with
  | zero =>
      cases iov <;> cases sized <;> rfl
  | succ iovcnt ih =>
      cases iov with
      | nil => cases sized
      | cons entry rest =>
          obtain ⟨less, later, rfl⟩ := Option.map_eq_some_iff.mp sized
          rw [ih later, List.take_succ_cons, iovBytes]

/-- The total and the rest that can be reached do not grow together. -/
theorem shift_total {nr : Nat} (inside : nr ≤ reach target place.iov place.iovcnt)
    (shifted : shiftIovec nr place.iov place = some next) :
    next.total + reach target next.iov next.iovcnt ≤
      place.total + reach target place.iov place.iovcnt := by
  obtain ⟨_, ahead⟩ := shift_reach rfl inside shifted
  obtain ⟨passed, entry, rest, _, _, _, rfl⟩ := shift_iovec_spec rfl shifted
  simp only at ahead ⊢
  omega

/-- The count is that of the entries that are left. -/
theorem shift_count {nr : Nat}
    (counted : place.count = iovBytes (place.iov.take place.iovcnt.toNat))
    (inside : nr ≤ place.count) (shifted : shiftIovec nr place.iov place = some next) :
    next.count = iovBytes (next.iov.take next.iovcnt.toNat) ∧
      next.total + next.count = place.total + place.count := by
  obtain ⟨passed, entry, rest, split, covered, _, rfl⟩ := shift_iovec_spec rfl shifted
  have left : (place.iovcnt - passed.length).toNat = place.iovcnt.toNat - passed.length := by omega
  have whole := congrArg iovBytes (List.take_append_drop place.iovcnt.toNat passed)
  rw [iov_bytes_append] at whole
  rw [split, List.take_append, iov_bytes_append] at counted
  simp only [left]
  by_cases beyond : place.iovcnt.toNat ≤ passed.length
  · have none : place.iovcnt.toNat - passed.length = 0 := by omega
    simp only [none, List.take_zero, iovBytes] at counted ⊢
    omega
  · rw [List.take_of_length_le (by omega)] at counted
    omega

theorem in_full_total (covers : ∀ file bytes iov offset most,
      (call file bytes iov offset most).nr ≤ total (segments target iov))
    (stops : ∀ total, stopped total ≤ total) {limit : Nat}
    (ahead : place.total + reach target place.iov place.iovcnt ≤ limit)
    (returned : (inFull call stopped answers place file bytes touched).total = some sum) :
    sum ≤ limit := by
  have halted : stopped place.total ≤ limit := by
    have := stops place.total
    omega
  induction answers generalizing place file bytes touched with
  | nil =>
      unfold inFull at returned
      split at returned
      · cases returned
        omega
      · cases returned
  | cons answer rest ih =>
      unfold inFull at returned
      split at returned
      · cases returned
        omega
      · cases answer with
        | again => exact ih ahead returned halted
        | fails =>
            cases returned
            exact halted
        | moves most =>
            dsimp only at returned
            split at returned
            · cases returned
              exact halted
            · split at returned
              · cases returned
                exact halted
              · split at returned
                · cases returned
                · rename_i next shifted
                  have less := shift_total (covers _ _ _ _ _) shifted
                  have onward := stops next.total
                  exact ih (by omega) returned (by omega)

/-- A transfer that is not to be broken off reports all it was asked for. -/
theorem in_full_whole (covers : ∀ file bytes iov offset most,
      (call file bytes iov offset most).nr ≤ total (segments target iov))
    (stops : ∀ total, stopped total < 0)
    (counted : place.count = iovBytes (place.iov.take place.iovcnt.toNat))
    (returned : (inFull call stopped answers place file bytes touched).total = some sum)
    (done : 0 ≤ sum) : sum = (place.total + place.count : Nat) := by
  induction answers generalizing place file bytes touched with
  | nil =>
      unfold inFull at returned
      split at returned
      · next finished =>
          cases returned
          rw [finished, Nat.add_zero]
      · cases returned
  | cons answer rest ih =>
      have failed (same : stopped place.total = sum) : sum = (place.total + place.count : Nat) := by
        have := stops place.total
        omega
      unfold inFull at returned
      split at returned
      · next finished =>
          cases returned
          rw [finished, Nat.add_zero]
      · cases answer with
        | again => exact ih counted returned
        | fails => exact failed (Option.some.inj returned)
        | moves most =>
            dsimp only at returned
            split at returned
            · exact failed (Option.some.inj returned)
            · split at returned
              · exact failed (Option.some.inj returned)
              · split at returned
                · cases returned
                · rename_i next shifted
                  have inside := Nat.le_trans (covers file bytes
                    (place.iov.take place.iovcnt.toNat) place.offset.toNat most)
                    (segments_le target _)
                  obtain ⟨still, same⟩ := shift_count counted (counted ▸ inside) shifted
                  rw [ih still returned, same]

theorem start_counts {disk : OpenFile} {iov : List Iovec} {iovcnt offset : Int}
    (returned : (startInFull call stopped disk bytes iov iovcnt offset).total = some sum) :
    (inFull call stopped disk.answers ⟨iov, iovcnt, 0, iovBytes (iov.take iovcnt.toNat), offset⟩
      disk.file bytes disk.touched).total = some sum := by
  unfold startInFull at returned
  split at returned
  · cases returned
  · split at returned
    · cases returned
    · next count sized =>
        rw [← iov_size_take sized]
        exact returned

theorem preadv_covers (file : File) (bytes : Nat → UInt8) (iov : List Iovec) (offset most : Nat) :
    (preadv file bytes iov offset most).nr ≤ total (segments storeTarget iov) :=
  Nat.le_trans (Nat.min_le_right _ _) (Nat.min_le_left _ _)

theorem pwritev_covers (file : File) (bytes : Nat → UInt8) (iov : List Iovec)
    (offset most : Nat) :
    (pwritev file bytes iov offset most).nr ≤ total (segments loadTarget iov) :=
  Nat.le_trans (Nat.min_le_right _ _) (Nat.min_le_left _ _)

theorem sync_read_total {disk : OpenFile} {iov : List Iovec} {iovcnt : Int} {sector : UInt64}
    (returned : (rawImageReadSync disk bytes sector iov iovcnt).total = some sum) :
    sum ≤ total (segments storeTarget (iov.take iovcnt.toNat)) := by
  have stops (moved : Nat) : (if moved > 0 then (moved : Int) else -1) ≤ moved := by
    split <;> omega
  exact in_full_total preadv_covers stops (Nat.le_of_eq (Nat.zero_add _)) (start_counts returned)

theorem sync_write_total {disk : OpenFile} {iov : List Iovec} {iovcnt : Int} {sector : UInt64}
    (returned : (rawImageWriteSync disk bytes sector iov iovcnt).total = some sum)
    (done : 0 ≤ sum) : sum = iovBytes (iov.take iovcnt.toNat) := by
  have whole := in_full_whole pwritev_covers (fun _ => by decide) rfl (start_counts returned) done
  rwa [Nat.zero_add] at whole

theorem copies_total {memcpy : Memcpy} (copies : Copies memcpy target) {iovcount : Nat}
    {iov : List Iovec} {priv : Mapping} {offset : UInt64} {before : Int}
    (returned : (copyEach memcpy iovcount iov priv bytes offset before).total = some sum) :
    sum = before + iovBytes (iov.take iovcount) ∧
      iovBytes (iov.take iovcount) = total (segments target (iov.take iovcount)) := by
  induction iovcount generalizing iov priv bytes offset before with
  | zero =>
      cases returned
      exact ⟨by simp [iovBytes], rfl⟩
  | succ iovcount ih =>
      cases iov with
      | nil => cases returned
      | cons entry rest =>
          simp only [copyEach] at returned
          split at returned
          · cases returned
          · next moved now copied =>
              obtain ⟨same, reached⟩ := ih returned
              simp only [List.take_succ_cons, iovBytes, segments]
              refine ⟨by rw [same]; omega, ?_⟩
              cases base : target entry.iovBase with
              | some base => simp only [total, reached]
              | none =>
                  by_cases empty : entry.iovLen = 0
                  · simp only [empty, if_true, Nat.zero_add, reached]
                  · simp [empty, copies.refuses priv bytes offset.toNat entry base] at copied

theorem mmap_total {memcpy : Memcpy} (copies : Copies memcpy target) {iov : List Iovec}
    {priv : Mapping} {iovcount : Int} {sector : UInt64}
    (returned : (mmapTransfer memcpy priv bytes sector iov iovcount).total = some sum) :
    sum = iovBytes (iov.take iovcount.toNat) ∧ iovBytes (iov.take iovcount.toNat) =
      total (segments target (iov.take iovcount.toNat)) := by
  unfold mmapTransfer at returned
  split at returned
  · cases returned
  · simpa using copies_total copies returned

-- The result of an entry is its length, also where the host has refused to read.
theorem qcow_total {fuel iovcount : Nat} {iov : List Iovec} {q : QcowRead.Qcow} {sector : UInt64}
    {before : Int}
    (returned : (QcowRead.readEach fuel iovcount iov q bytes sector before).total = some sum) :
    sum = -1 ∨ sum = before + iovBytes (iov.take iovcount) := by
  induction iovcount generalizing iov q bytes sector before with
  | zero =>
      cases returned
      exact Or.inr (by simp [iovBytes])
  | succ iovcount ih =>
      cases iov with
      | nil => cases returned
      | cons entry rest =>
          simp only [QcowRead.readEach] at returned
          split at returned
          · next hangs =>
              rw [hangs] at returned
              cases returned
          · next nr _ =>
              split at returned
              · cases returned
                exact Or.inl rfl
              · next whole =>
                  refine (ih returned).imp_right fun same => ?_
                  rw [same, List.take_succ_cons, iovBytes, not_not.mp whole]
                  omega

end Totals

/-- Where a transfer that does not fail reports every byte of its data, whether the
device has written it or not. -/
def Kind.countsAll : Kind → Direction → Bool
  | .regular, .toDevice => true
  | .mapped, .toDevice => true
  | .qcow _, .fromDevice => true
  | _, _ => false

theorem missing_counts (kind : Kind) {direction : Direction}
    (missing : kind.backend.ops.operation direction = none) :
    Kind.countsAll kind direction = false := by
  cases kind <;> cases direction <;> first | rfl | cases missing

-- A count of -1 is never counted down, and the files are asked for their size first.
theorem operation_counted (kind : Kind) {direction : Direction} {op : Transfer kind.Disk}
    (operation : kind.backend.ops.operation direction = some op) {disk : kind.Disk}
    {bytes : Nat → UInt8} {sector : UInt64} {iov : List Iovec} {iovcount sum : Int}
    (returned : (op disk bytes sector iov iovcount).total = some sum) : 0 ≤ iovcount := by
  by_contra negative
  rw [Int.not_le] at negative
  have file (call : HostCall) (stopped : Nat → Int) (disk : OpenFile) (offset : Int) :
      (startInFull call stopped disk bytes iov iovcount offset).total = none := by
    simp [startInFull, negative]
  have mapping (memcpy : Memcpy) (priv : Mapping) :
      (mmapTransfer memcpy priv bytes sector iov iovcount).total = none := by
    simp [mmapTransfer, negative]
  have qcow (fuel : Nat) (q : QcowRead.Qcow) :
      (QcowRead.qcowReadSector fuel q bytes sector iov iovcount).total = none := by
    simp [QcowRead.qcowReadSector, negative]
  cases kind <;> cases direction <;> cases operation
  · cases (file _ _ _ _).symm.trans returned
  · cases (file _ _ _ _).symm.trans returned
  · cases (mapping _ _).symm.trans returned
  · cases (mapping _ _).symm.trans returned
  · cases (file _ _ _ _).symm.trans returned
  · cases (qcow _ _).symm.trans returned

theorem operation_total (kind : Kind) {direction : Direction} {op : Transfer kind.Disk}
    (operation : kind.backend.ops.operation direction = some op) {disk : kind.Disk}
    {bytes : Nat → UInt8} {sector : UInt64} {iov : List Iovec} {iovcount sum : Int}
    (returned : (op disk bytes sector iov iovcount).total = some sum) (done : 0 ≤ sum) :
    if Kind.countsAll kind direction then sum = iovBytes (iov.take iovcount.toNat)
    else sum ≤ total (segments storeTarget (iov.take iovcount.toNat)) := by
  cases kind with
  | regular =>
      cases direction with
      | fromDevice =>
          cases operation
          exact sync_read_total returned
      | toDevice =>
          cases operation
          exact sync_write_total returned done
  | mapped =>
      cases direction with
      | fromDevice =>
          cases operation
          obtain ⟨same, reached⟩ := mmap_total memcpy_out_copies returned
          simp only [Kind.countsAll, Bool.false_eq_true, if_false]
          omega
      | toDevice =>
          cases operation
          exact (mmap_total memcpy_in_copies returned).1
  | fallback =>
      cases direction with
      | fromDevice =>
          cases operation
          exact sync_read_total returned
      | toDevice => cases operation
  | qcow fuel =>
      cases direction with
      | fromDevice =>
          cases operation
          simp only [QcowRead.qcowReadSector] at returned
          split at returned
          · cases returned
          · rcases qcow_total returned with failed | whole
            · omega
            · simpa [Kind.countsAll] using whole
      | toDevice => cases operation

/-! The element. -/

section Element
variable {Disk : Type}

/-- The number that virtio_blk_complete is called with, if it is called. -/
def reportedLength (dev : BlkDev Disk) : Execution → Option Int
  | .transfer direction sector iov iovcount =>
      match dev.image.ops.operation direction with
      | none => some 0
      | some op => (op dev.disk dev.guest.bytes sector iov iovcount).total.filter (0 ≤ ·)
  | .flush => some (diskImageFlush dev.image dev.disk).1
  | .getId buffer =>
      (diskImageGetSerial dev.image dev.guest.bytes buffer virtioBlkIdBytes).map fun s => s.1
  | .refused => none

/-- The element between two states of the used ring, whose index moves behind it. -/
def storedElem (vq : VirtQueue) (before after : RingMemory) : Option VringUsedElem :=
  if after.used.idx = before.used.idx then none
  else some (after.used.ring (before.used.idx.toNat % vq.vring.num))

variable {dev next : BlkDev Disk} {req : BlkDevReq}

theorem complete_stores {len : Int} (done : virtioBlkComplete dev req len = some next) :
    storedElem dev.vq dev.ring next.ring = some ⟨req.head.toUInt32, UInt32.ofInt len⟩ := by
  unfold virtioBlkComplete at done
  split at done
  · cases done
  · cases done
    have moved : dev.ring.used.idx + 1 ≠ dev.ring.used.idx := by
      intro same
      have := congrArg UInt16.toNat same
      rw [UInt16.toNat_add, UInt16.toNat_one] at this
      omega
    simp [storedElem, virtQueueSetUsedElem, virtQueueUsedIdxAdvance, virtQueueSetUsedElemNoUpdate,
      put_same]

/-- The request is completed with the reported length, or its ring stays as it is. -/
theorem execute_reports (sync : Synchronous dev) {e : Execution}
    (done : execute dev req e = some next) :
    (∃ len, reportedLength dev e = some len ∧ ∃ asked : BlkDev Disk, asked.ring = dev.ring ∧
      asked.vq = dev.vq ∧ virtioBlkComplete asked req len = some next) ∨
    (reportedLength dev e = none ∧ next.ring = dev.ring) := by
  obtain ⟨async, callback⟩ := sync
  cases e with
  | refused =>
      cases done
      exact Or.inr ⟨rfl, rfl⟩
  | flush =>
      exact Or.inl ⟨_, rfl, { dev with disk := (diskImageFlush dev.image dev.disk).2 }, rfl, rfl,
        done⟩
  | getId buffer =>
      simp only [execute] at done
      simp only [reportedLength]
      split at done
      · cases done
      · next len bytes serial =>
          rw [serial]
          exact Or.inl ⟨_, rfl, { dev with guest := { dev.guest with bytes := bytes } }, rfl, rfl,
            done⟩
  | transfer direction sector iov iovcount =>
      simp only [execute, diskImageTransfer] at done
      simp only [reportedLength]
      cases operation : dev.image.ops.operation direction with
      | none =>
          simp only [operation, async, callback, and_self, if_true] at done
          exact Or.inl ⟨0, rfl, dev, rfl, rfl, done⟩
      | some op =>
          rw [operation] at done
          dsimp only at done ⊢
          split at done
          · cases done
          · next total result =>
              rw [result]
              by_cases failed : total < 0
              · simp only [failed, if_true, Option.some.injEq] at done
                subst done
                have refused : ¬ 0 ≤ total := by omega
                exact Or.inr ⟨by simp [Option.filter, refused], rfl⟩
              · simp only [failed, if_false, async, callback, BlkDev.transferred, and_self,
                  if_true] at done
                have kept : 0 ≤ total := by omega
                exact Or.inl ⟨total, by simp [Option.filter, kept], dev.transferred _, rfl, rfl,
                  done⟩

theorem execute_stores (sync : Synchronous dev) {e : Execution} {elem : VringUsedElem}
    (done : execute dev req e = some next)
    (stored : storedElem dev.vq dev.ring next.ring = some elem) :
    ∃ len, reportedLength dev e = some len ∧ elem.len = UInt32.ofInt len ∧
      ∃ status, storeTarget (req.iov (req.entries - 1)).iovBase = some status := by
  rcases execute_reports sync done with ⟨len, reported, asked, ring, vq, completed⟩ | ⟨_, kept⟩
  · have same := complete_stores completed
    rw [ring, vq, stored] at same
    cases same
    exact ⟨len, reported, rfl, complete_target completed⟩
  · rw [kept, storedElem, if_pos rfl] at stored
    cases stored

theorem transfer_entries {header : HostPtr} {direction : Direction} {sector : UInt64}
    {iov : List Iovec} {iovcount : Int}
    (same : execution dev req header = .transfer direction sector iov iovcount) :
    iov = req.behindHeader ∧ iovcount = (req.entries : Int) - 2 := by
  dsimp only [execution] at same
  split_ifs at same <;> cases same <;> exact ⟨rfl, rfl⟩

theorem reported_iff {header : HostPtr} :
    Reported dev req header ↔ ∃ len, reportedLength dev (execution dev req header) = some len := by
  have transfer (direction : Direction) (sector : UInt64) (iov : List Iovec) (iovcount : Int) :
      Succeeds (dev.image.ops.operation direction) dev sector iov iovcount ↔
        ∃ len, reportedLength dev (.transfer direction sector iov iovcount) = some len := by
    simp only [reportedLength]
    cases dev.image.ops.operation direction with
    | none => simp [Succeeds]
    | some op =>
        cases result : (op dev.disk dev.guest.bytes sector iov iovcount).total with
        | none => simp [Succeeds, result]
        | some total => simp [Succeeds, result, Option.filter]
  have getId (buffer : Option HostPtr) :
      dev.image.fstat.isNone = true ∨ storeTarget buffer ≠ none ↔
        ∃ len, reportedLength dev (.getId buffer) = some len := by
    simp only [reportedLength, Option.map_eq_some_iff]
    constructor
    · intro writable
      obtain ⟨serial, result⟩ := serial_total writable
      exact ⟨_, serial, result, rfl⟩
    · rintro ⟨_, serial, result, _⟩
      exact serial_writable result
  dsimp only [Reported, execution]
  split_ifs
  · exact transfer .fromDevice _ _ _
  · exact transfer .toDevice _ _ _
  · exact ⟨fun _ => ⟨_, rfl⟩, fun _ => trivial⟩
  · exact getId _
  · simp [reportedLength]

end Element

/-! Against the chain. -/

def bytesOf (descs : List VringDesc) : Nat := (descs.map fun desc => desc.len.toNat).sum

/-- What the device may write of a chain. -/
def writableBytes (descs : List VringDesc) : Nat := bytesOf (descs.filter fun d => Writable d)

def dataBytes (descs : List VringDesc) : Nat := bytesOf (inner descs)

/-- The turn finds a head whose chain is `descs` and makes `req` of it. -/
structure Takes {Disk : Type} (dev : BlkDev Disk) (turn : Turn) (descs : List VringDesc)
    (req : BlkDevReq) : Prop where
  more : virtQueueAvailableLoad (dev.seen turn).ring (dev.seen turn).vq = true ∧
    (dev.seen turn).ioDone = false
  chain : Describes ⟨(dev.seen turn).ring, turn.guest⟩
    (virtQueuePop (dev.seen turn).ring (dev.seen turn).vq).1 descs
  popped : popRequest (dev.seen turn).pop
    (virtQueuePop (dev.seen turn).ring (dev.seen turn).vq).1 = some req

def Truthful {Disk : Type} (dev : BlkDev Disk) (turn : Turn) (descs : List VringDesc) : Prop :=
  ∀ next elem, virtioBlkDoIo dev turn = some next →
    storedElem dev.vq (dev.seen turn).ring next.ring = some elem →
    elem.len.toNat ≤ writableBytes descs

/-- What snprintf reports, or the constant when fstat fails. -/
def idLength {Disk : Type} (image : DiskImage Disk) : Nat :=
  match image.fstat with
  | none => virtioBlkIdBytes
  | some stat => (serialText stat).length

/-- Where each of the producers stays within the chain. Lengths are cut to 32 bits, and
the length of a failed flush is the largest of these. -/
def Bounded {Disk : Type} (kind : Kind) (dev : BlkDev Disk) (descs : List VringDesc) :
    Execution → Prop
  | .transfer direction _ _ _ =>
      Kind.countsAll kind direction = true → dataBytes descs % 2 ^ 32 ≤ writableBytes descs
  | .flush => (dev.image.fsync dev.disk).1 = 0 ∨ 2 ^ 32 - 1 ≤ writableBytes descs
  | .getId _ => idLength dev.image % 2 ^ 32 ≤ writableBytes descs
  | .refused => True

section Chains
variable {guest : GuestMemory}

theorem iov_bytes_of (descs : List VringDesc) :
    iovBytes (descs.map (iovecOf guest)) = bytesOf descs := by
  induction descs with
  | nil => rfl
  | cons desc rest ih => simpa [iovBytes, bytesOf, iovecOf] using ih

-- The mapping of a descriptor can be written exactly if the descriptor can.
theorem stored_writable {desc : VringDesc} {base : Nat}
    (target : storeTarget (iovecOf guest desc).iovBase = some base) : Writable desc := by
  by_contra readable
  have flag : virtDescTestFlag desc vringDescFWrite = false := by simpa [Writable] using readable
  simp only [iovecOf, demuMapGuestRange, flag, Bool.false_eq_true, if_false] at target
  split at target <;> cases target

theorem segments_writable (guest : GuestMemory) (descs : List VringDesc) :
    total (segments storeTarget (descs.map (iovecOf guest))) ≤ writableBytes descs := by
  induction descs with
  | nil => exact Nat.le_refl 0
  | cons desc rest ih =>
      have more : writableBytes rest ≤ writableBytes (desc :: rest) := by
        by_cases writable : Writable desc <;> simp [writableBytes, bytesOf, writable]
      simp only [List.map_cons, segments]
      split
      · next base target =>
          have whole : writableBytes (desc :: rest) = desc.len.toNat + writableBytes rest := by
            simp [writableBytes, bytesOf, stored_writable target]
          simp only [total, whole]
          exact Nat.add_le_add_left ih _
      · split
        · exact Nat.le_trans ih more
        · exact Nat.zero_le _

theorem inner_writable (descs : List VringDesc) :
    writableBytes (inner descs) ≤ writableBytes descs := by
  have sub : (inner descs).Sublist descs :=
    (List.dropLast_sublist _).trans (List.drop_sublist 1 descs)
  exact ((sub.filter _).map _).sum_le_sum (by simp)

theorem narrowed (len : Nat) : (UInt32.ofInt len).toNat = len % 2 ^ 32 := by
  rw [UInt32.ofInt, UInt32.toNat_ofNat']
  omega

end Chains

section Turns
variable {kind : Kind} {dev : BlkDev kind.Disk} {req : BlkDevReq} {descs : List VringDesc}

theorem transfer_bounded_iff {direction : Direction} {sector : UInt64} {iov : List Iovec}
    {iovcount len : Int} (installed : dev.image.ops = kind.backend.ops)
    (data : 0 ≤ iovcount → iov.take iovcount.toNat = (inner descs).map (iovecOf dev.guest))
    (reported : reportedLength dev (.transfer direction sector iov iovcount) = some len) :
    (UInt32.ofInt len).toNat ≤ writableBytes descs ↔
      Bounded kind dev descs (.transfer direction sector iov iovcount) := by
  simp only [reportedLength, installed] at reported
  cases operation : kind.backend.ops.operation direction with
  | none =>
      rw [operation] at reported
      cases reported
      simp [Bounded, missing_counts kind operation, show UInt32.ofInt 0 = 0 from rfl]
  | some op =>
      rw [operation] at reported
      obtain ⟨result, positive⟩ := Option.filter_eq_some_iff.mp reported
      have done : 0 ≤ len := by simpa using positive
      have sum := operation_total kind operation result done
      rw [data (operation_counted kind operation result)] at sum
      by_cases whole : Kind.countsAll kind direction = true
      · rw [if_pos whole, iov_bytes_of] at sum
        rw [sum, narrowed]
        simp only [Bounded, whole, true_imp_iff]
        rfl
      · rw [if_neg whole] at sum
        obtain ⟨count, rfl⟩ := Int.eq_ofNat_of_zero_le done
        have covered := Nat.le_trans (segments_writable dev.guest (inner descs))
          (inner_writable descs)
        have cut := Nat.mod_le count (2 ^ 32)
        simp only [Bounded, whole, false_imp_iff, iff_true, Bool.false_eq_true]
        rw [narrowed]
        omega

theorem length_bounded_iff {e : Execution} {len : Int}
    (installed : dev.image.ops = kind.backend.ops)
    (fsyncs : ∀ disk, (dev.image.fsync disk).1 = 0 ∨ (dev.image.fsync disk).1 = -1)
    (data : ∀ direction sector iov iovcount, e = .transfer direction sector iov iovcount →
      0 ≤ iovcount → iov.take iovcount.toNat = (inner descs).map (iovecOf dev.guest))
    (reported : reportedLength dev e = some len) :
    (UInt32.ofInt len).toNat ≤ writableBytes descs ↔ Bounded kind dev descs e := by
  cases e with
  | transfer direction sector iov iovcount =>
      exact transfer_bounded_iff installed (data direction sector iov iovcount rfl) reported
  | flush =>
      have direct : diskImageFlush dev.image dev.disk = dev.image.fsync dev.disk := by
        rw [diskImageFlush, installed]
        cases kind <;> rfl
      simp only [reportedLength, direct, Option.some.injEq] at reported
      subst reported
      rcases fsyncs dev.disk with clean | failed
      · simp [Bounded, clean, show UInt32.ofInt 0 = 0 from rfl]
      · simp [Bounded, failed]
  | getId buffer =>
      have same : len = (idLength dev.image : Nat) := by
        obtain ⟨serial, result, rfl⟩ := Option.map_eq_some_iff.mp reported
        unfold diskImageGetSerial at result
        unfold idLength
        cases known : dev.image.fstat with
        | none =>
            rw [known] at result
            cases result
            rfl
        | some stat =>
            rw [known] at result
            dsimp only at result
            split at result
            · cases result
            · cases result
              rfl
      rw [same, narrowed]
      rfl
  | refused => cases reported

theorem request_truthful_iff (installed : dev.image.ops = kind.backend.ops)
    (sync : Synchronous dev)
    (fsyncs : ∀ disk, (dev.image.fsync disk).1 = 0 ∨ (dev.image.fsync disk).1 = -1)
    (whole : OfChain dev.guest descs req) (short : descs.length ≤ virtioBlkQueueSize) :
    (∀ next elem, virtioBlkDoIoRequest dev req = some next →
      storedElem dev.vq dev.ring next.ring = some elem →
      elem.len.toNat ≤ writableBytes descs) ↔
    ∀ header, (req.iov 0).iovBase = some header → Answered dev req →
      Bounded kind dev descs (execution dev req header) := by
  have data (header : HostPtr) : ∀ direction sector iov iovcount,
      execution dev req header = .transfer direction sector iov iovcount → 0 ≤ iovcount →
      iov.take iovcount.toNat = (inner descs).map (iovecOf dev.guest) := by
    intro direction sector iov iovcount same counted
    obtain ⟨rfl, rfl⟩ := transfer_entries same
    have count := whole.count
    exact (whole.data (by omega) short).2
  constructor
  · intro truthful header mapped answered
    obtain ⟨next, done⟩ := request_total sync answered
    obtain ⟨other, status, same, target, reported⟩ := answered
    rw [mapped] at same
    cases same
    obtain ⟨len, length⟩ := reported_iff.mp reported
    have executed := done
    rw [RequestMemory.do_io_request_executes mapped] at executed
    apply (length_bounded_iff installed fsyncs (data header) length).mp
    rcases execute_reports sync executed with
      ⟨other, again, asked, ring, vq, completed⟩ | ⟨silent, _⟩
    · rw [length] at again
      cases again
      have stored := complete_stores completed
      rw [ring, vq] at stored
      exact truthful next _ done stored
    · rw [length] at silent
      cases silent
  · intro bounded next elem done stored
    cases mapped : (req.iov 0).iovBase with
    | none => simp [virtioBlkDoIoRequest, mapped] at done
    | some header =>
        rw [RequestMemory.do_io_request_executes mapped] at done
        obtain ⟨len, length, same, status, target⟩ := execute_stores sync done stored
        rw [same]
        apply (length_bounded_iff installed fsyncs (data header) length).mpr
        have reported := reported_iff.mpr ⟨len, length⟩
        exact bounded header mapped ⟨header, status, mapped, target, reported⟩

variable (kind) in
/-- The length in the used element stays within what the device may write of the chain
if and only if the producer that the request goes through happens to stay there. -/
theorem used_length_truthful_iff {turn : Turn} (installed : dev.image.ops = kind.backend.ops)
    (sync : Synchronous dev) (size : dev.vq.vring.num = virtioBlkQueueSize)
    (fsyncs : ∀ disk, (dev.image.fsync disk).1 = 0 ∨ (dev.image.fsync disk).1 = -1)
    (takes : Takes dev turn descs req) :
    Truthful dev turn descs ↔ ∀ header, (req.iov 0).iovBase = some header →
      Answered (dev.seen turn).pop req →
        Bounded kind dev descs (execution (dev.seen turn).pop req header) := by
  obtain ⟨more, chain, popped⟩ := takes
  obtain ⟨inside, short⟩ := RequestMemory.popped_bounds (by exact size) (by exact chain) popped
  have found : ∃ req, popRequest (dev.seen turn).pop
      (virtQueuePop (dev.seen turn).ring (dev.seen turn).vq).1 = some req ∧
        OfChain (dev.seen turn).pop.guest descs req :=
    RequestMemory.pop_request_chain size chain inside short
  obtain ⟨found, again, whole⟩ := found
  rw [popped] at again
  cases again
  let asked : BlkDev kind.Disk := { (dev.seen turn).pop with
    reqs := put (dev.seen turn).pop.reqs
      (virtQueuePop (dev.seen turn).ring (dev.seen turn).vq).1.toNat req }
  have served : virtioBlkDoIo dev turn = virtioBlkDoIoRequest asked req := by
    simp only [virtioBlkDoIo, more, and_self, if_true, popped, asked]
  have answers : asked.image.ops = kind.backend.ops := installed
  rw [Truthful, served]
  exact request_truthful_iff answers sync fsyncs whole short

end Turns

/-! One read of a sector, and one write. -/

theorem one_read_truthful : Truthful rawDevice oneRead readRequest.descs := by
  have chain := read_request_well_formed.chain
  have takes : ∃ req, Takes rawDevice oneRead readRequest.descs req :=
    ⟨_, by decide, chain, rfl⟩
  obtain ⟨req, takes⟩ := takes
  apply (used_length_truthful_iff .regular rfl ⟨rfl, rfl⟩ rfl (fun _ => Or.inl rfl)
    takes).mpr
  intro header _ _ written
  cases written

def writingDevice : BlkDev OpenFile :=
  { rawDevice with disk := ⟨⟨fun _ => 0, 1024, false⟩, [.moves 512], []⟩ }

/-- The driver is told of 512 bytes in a chain that offers one, for the status. -/
theorem one_write_untruthful : ¬ Truthful writingDevice (firstSector .toDevice).turn
    (firstSector .toDevice).req.descs := by
  intro truthful
  have told := truthful _ _ rfl rfl
  exact absurd told (by decide)

end VirtioDisk.UsedLength
