import VirtioDisk.ByteStore
import VirtioDisk.Virtqueue
import Mathlib.Data.List.Nodup
import Mathlib.Data.UInt

/-!
`next_desc` and `virt_queue__get_head_iov` of virtio/core.c, on descriptor
tables with arbitrary content. A pointer into mapped guest memory is the guest
address it was mapped for; `none` is NULL. `visited` and `stored` are ghost state: the
descriptors that were dereferenced, each with the number of entries of its
table, and the indices of `iov` that were written. The loop runs on fuel; it has
not ended when the fuel is used up.
-/

namespace VirtioDisk.DescriptorChain

open ByteStore RingWindow Virtqueue

inductive Prot where
  | read
  | write
  | readWrite
  deriving DecidableEq

/-- Guest memory, and which ranges the hypervisor lets the server map. -/
structure GuestMemory where
  bytes : Nat → UInt8
  maps : UInt64 → UInt64 → Prot → Bool

structure HostPtr where
  address : Nat
  writable : Bool
  deriving DecidableEq

def demuMapGuestRange (guest : GuestMemory) (addr size : UInt64) (prot : Prot) : Option HostPtr :=
  if guest.maps addr size prot then some ⟨addr.toNat, prot != .read⟩ else none

-- Storing through a null pointer or into a read-only mapping ends the server.
def storeTarget : Option HostPtr → Option Nat
  | some ⟨address, true⟩ => some address
  | _ => none

structure Iovec where
  iovBase : Option HostPtr
  iovLen : Nat
  deriving DecidableEq

def sizeofVringDesc : Nat := 16

def vringDescTable (guest : GuestMemory) (table : Nat) (index : Nat) : VringDesc :=
  let base := table + sizeofVringDesc * index
  { addr := u64At guest.bytes base
    len := u32At guest.bytes (base + 8)
    flags := u16At guest.bytes (base + 12)
    next := u16At guest.bytes (base + 14) }

def virtDescTestFlag (desc : VringDesc) (flag : UInt16) : Bool :=
  desc.flags &&& flag != 0

def nextDesc (desc : Nat → VringDesc) (i max : UInt16) : UInt16 :=
  if virtDescTestFlag (desc i.toNat) vringDescFNext = false then max
  else min (desc i.toNat).next max

structure Deref where
  index : Nat
  bound : Nat
  deriving DecidableEq

structure HeadIov where
  iov : Nat → Iovec
  outCount : UInt16
  inCount : UInt16
  visited : List Deref
  stored : List Nat

def storeIovec (guest : GuestMemory) (bound index : Nat) (desc : VringDesc) (w : HeadIov) :
    HeadIov :=
  let isWrite := virtDescTestFlag desc vringDescFWrite
  let slot := w.outCount.toNat + w.inCount.toNat
  let entry : Iovec :=
    { iovBase := demuMapGuestRange guest desc.addr desc.len.toUInt64
        (if isWrite then .write else .read)
      iovLen := desc.len.toNat }
  { iov := put w.iov slot entry
    outCount := if isWrite then w.outCount else w.outCount + 1
    inCount := if isWrite then w.inCount + 1 else w.inCount
    visited := w.visited ++ [⟨index, bound⟩]
    stored := w.stored ++ [slot] }

/-- The do/while loop of `virt_queue__get_head_iov`. -/
def walkChain (guest : GuestMemory) (desc : Nat → VringDesc) (bound : Nat) (max : UInt16) :
    Nat → UInt16 → HeadIov → Option HeadIov
  | 0, _, _ => none
  | fuel + 1, idx, w =>
      let next := nextDesc desc idx max
      let w := storeIovec guest bound idx.toNat (desc idx.toNat) w
      if next = max then some w else walkChain guest desc bound max fuel next w

-- Reading through a table pointer that is NULL ends the server: no result.
def virtQueueGetHeadIov (guest : GuestMemory) (ring : RingMemory) (vq : VirtQueue)
    (iov : Nat → Iovec) (head : UInt16) (fuel : Nat) : Option HeadIov :=
  let first := ring.desc head.toNat
  let empty : HeadIov := ⟨iov, 0, 0, [⟨head.toNat, vq.vring.num⟩], []⟩
  if virtDescTestFlag first vringDescFIndirect then
    let entries := first.len.toNat / sizeofVringDesc
    match demuMapGuestRange guest first.addr first.len.toUInt64 .read with
    | none => none
    | some table =>
        walkChain guest (vringDescTable guest table.address) entries (UInt16.ofNat entries) fuel 0
          empty
  else walkChain guest ring.desc vq.vring.num (UInt16.ofNat vq.vring.num) fuel head empty

/-- A descriptor that names a further one inside its table. -/
def Linked (desc : Nat → VringDesc) (max idx : UInt16) : Prop :=
  virtDescTestFlag (desc idx.toNat) vringDescFNext = true ∧ (desc idx.toNat).next < max

/-- The descriptors of a chain in the order of their links. -/
inductive Chain (desc : Nat → VringDesc) (max : UInt16) : UInt16 → List UInt16 → Prop where
  | last {idx} : ¬ Linked desc max idx → Chain desc max idx [idx]
  | link {idx rest} : Linked desc max idx → Chain desc max (desc idx.toNat).next rest →
      Chain desc max idx (idx :: rest)

section Chains
variable {desc : Nat → VringDesc} {max : UInt16}

theorem next_desc_linked {idx : UInt16} (linked : Linked desc max idx) :
    nextDesc desc idx max = (desc idx.toNat).next := by
  rcases linked with ⟨flag, inside⟩
  simp only [nextDesc, flag, Bool.true_eq_false, if_false]
  exact if_pos (UInt16.le_of_lt inside)

theorem next_desc_end {idx : UInt16} (ends : ¬ Linked desc max idx) :
    nextDesc desc idx max = max := by
  by_cases flag : virtDescTestFlag (desc idx.toNat) vringDescFNext = true
  · have outside : max ≤ (desc idx.toNat).next :=
      UInt16.not_lt.mp fun inside => ends ⟨flag, inside⟩
    simp only [nextDesc, flag, Bool.true_eq_false, if_false]
    change (if _ ≤ max then _ else max) = max
    split
    · next inside => exact UInt16.le_antisymm inside outside
    · rfl
  · simp [nextDesc, flag]

theorem next_desc_eq_max {idx : UInt16} :
    nextDesc desc idx max = max ↔ ¬ Linked desc max idx := by
  constructor
  · intro same linked
    rw [next_desc_linked linked] at same
    exact absurd linked.2 (by simp [same])
  · exact next_desc_end

theorem Chain.head {idx : UInt16} {path : List UInt16} (chain : Chain desc max idx path) :
    ∃ rest, path = idx :: rest := by
  cases chain with
  | last _ => exact ⟨[], rfl⟩
  | link _ _ => exact ⟨_, rfl⟩

theorem Chain.unique {idx : UInt16} {first second : List UInt16}
    (left : Chain desc max idx first) (right : Chain desc max idx second) : first = second := by
  induction left generalizing second with
  | last ends =>
      cases right with
      | last _ => rfl
      | link linked _ => exact absurd linked ends
  | link linked _ ih =>
      cases right with
      | last ends => exact absurd linked ends
      | link _ tail => rw [ih tail]

-- Every suffix of a chain is the chain of its own first descriptor.
theorem Chain.suffix {idx : UInt16} {path : List UInt16} (chain : Chain desc max idx path)
    {later : UInt16} (member : later ∈ path) :
    ∃ rest, Chain desc max later rest ∧ rest.length ≤ path.length := by
  induction chain with
  | last ends =>
      have same := List.mem_singleton.mp member
      subst same
      exact ⟨_, Chain.last ends, Nat.le_refl _⟩
  | @link idx rest linked tail ih =>
      rcases List.mem_cons.mp member with same | inside
      · subst same
        exact ⟨_, Chain.link linked tail, Nat.le_refl _⟩
      · rcases ih inside with ⟨found, chain, short⟩
        exact ⟨found, chain, Nat.le_succ_of_le short⟩

theorem Chain.nodup {idx : UInt16} {path : List UInt16} (chain : Chain desc max idx path) :
    path.Nodup := by
  induction chain with
  | last _ => simp
  | @link idx rest linked tail ih =>
      refine List.nodup_cons.mpr ⟨fun again => ?_, ih⟩
      rcases tail.suffix again with ⟨found, chain, short⟩
      have same := chain.unique (Chain.link linked tail)
      rw [same, List.length_cons] at short
      omega

theorem Chain.not_self_linked {idx : UInt16} {path : List UInt16} (chain : Chain desc max idx path)
    (linked : Linked desc max idx) : (desc idx.toNat).next ≠ idx := by
  intro self
  cases chain with
  | last ends => exact ends linked
  | @link _ rest _ tail =>
      rw [self] at tail
      have same := tail.unique (Chain.link linked (by rw [self]; exact tail))
      have longer := congrArg List.length same
      simp at longer

theorem Chain.bounded {idx : UInt16} {path : List UInt16} (chain : Chain desc max idx path)
    {bound : Nat} (first : idx.toNat < bound) (table : max.toNat ≤ bound) :
    ∀ i ∈ path, i.toNat < bound := by
  induction chain with
  | last _ => simpa using first
  | @link idx rest linked tail ih =>
      intro i member
      rcases List.mem_cons.mp member with same | inside
      · subst same
        exact first
      · have next := UInt16.lt_iff_toNat_lt.mp linked.2
        exact ih (by omega) i inside

/-- A chain that ends never repeats a descriptor, so it is no longer than its table. -/
theorem Chain.length_le {idx : UInt16} {path : List UInt16} (chain : Chain desc max idx path)
    {bound : Nat} (inside : ∀ i ∈ path, i.toNat < bound) : path.length ≤ bound := by
  have distinct : (path.map UInt16.toNat).Nodup :=
    List.Nodup.map (fun _ _ same => UInt16.toNat_inj.mp same) chain.nodup
  have subset : path.map UInt16.toNat ⊆ List.range bound := by
    intro i member
    rcases List.mem_map.mp member with ⟨entry, present, same⟩
    subst same
    exact List.mem_range.mpr (inside entry present)
  have length := (List.subperm_of_subset distinct subset).length_le
  simpa using length

end Chains

section Walk
variable {guest : GuestMemory} {desc : Nat → VringDesc} {bound : Nat} {max : UInt16}

def storeAll (guest : GuestMemory) (desc : Nat → VringDesc) (bound : Nat) :
    List UInt16 → HeadIov → HeadIov
  | [], w => w
  | idx :: rest, w => storeAll guest desc bound rest
      (storeIovec guest bound idx.toNat (desc idx.toNat) w)

theorem walk_of_chain {idx : UInt16} {path : List UInt16} (chain : Chain desc max idx path)
    (w : HeadIov) (fuel : Nat) (enough : path.length ≤ fuel) :
    walkChain guest desc bound max fuel idx w = some (storeAll guest desc bound path w) := by
  induction chain generalizing w fuel with
  | last ends =>
      cases fuel with
      | zero => simp at enough
      | succ fuel => simp [walkChain, next_desc_end ends, storeAll]
  | @link idx rest linked tail ih =>
      cases fuel with
      | zero => simp at enough
      | succ fuel =>
          have more : nextDesc desc idx max ≠ max := fun same => next_desc_eq_max.mp same linked
          rw [next_desc_linked linked] at more
          simp only [walkChain, next_desc_linked linked, more, if_false, storeAll]
          exact ih _ fuel (by simpa using enough)

theorem chain_of_walk {fuel : Nat} {idx : UInt16} {w result : HeadIov}
    (walked : walkChain guest desc bound max fuel idx w = some result) :
    ∃ path, Chain desc max idx path ∧ result = storeAll guest desc bound path w := by
  induction fuel generalizing idx w with
  | zero => simp [walkChain] at walked
  | succ fuel ih =>
      by_cases linked : Linked desc max idx
      · have more : nextDesc desc idx max ≠ max := fun same => next_desc_eq_max.mp same linked
        rw [next_desc_linked linked] at more
        simp only [walkChain, next_desc_linked linked, more, if_false] at walked
        rcases ih walked with ⟨path, chain, same⟩
        exact ⟨idx :: path, Chain.link linked chain, same⟩
      · simp only [walkChain, next_desc_end linked, if_true, Option.some.injEq] at walked
        exact ⟨[idx], Chain.last linked, walked.symm⟩

/-- Enough turns of the loop for every chain that ends. -/
def chainFuel : Nat := 65536

-- A walk that has not ended after `chainFuel` turns never ends.
theorem walk_enough {fuel : Nat} {idx : UInt16} {w result : HeadIov}
    (walked : walkChain guest desc bound max fuel idx w = some result) :
    walkChain guest desc bound max chainFuel idx w = some result := by
  rcases chain_of_walk walked with ⟨path, chain, same⟩
  have short : path.length ≤ chainFuel := chain.length_le fun i _ => UInt16.toNat_lt i
  rw [walk_of_chain chain w chainFuel short, same]

theorem store_all_visited (path : List UInt16) (w : HeadIov) :
    (storeAll guest desc bound path w).visited =
      w.visited ++ path.map (fun idx => ⟨idx.toNat, bound⟩) := by
  induction path generalizing w with
  | nil => simp [storeAll]
  | cons idx rest ih => simp [storeAll, ih, storeIovec]

theorem store_all_stored_length (path : List UInt16) (w : HeadIov) :
    (storeAll guest desc bound path w).stored.length = w.stored.length + path.length := by
  induction path generalizing w with
  | nil => simp [storeAll]
  | cons idx rest ih =>
      simp only [storeAll, ih, storeIovec, List.length_append, List.length_cons, List.length_nil]
      omega

/-- The two counters together are the number of entries, as long as neither wraps. -/
def Counts (w : HeadIov) (count : Nat) : Prop :=
  w.outCount.toNat + w.inCount.toNat = count

theorem store_counts (guest : GuestMemory) (bound : Nat) {w : HeadIov} {count : Nat}
    (counts : Counts w count) (room : count < 65535) (index : Nat) (entry : VringDesc) :
    Counts (storeIovec guest bound index entry w) (count + 1) := by
  unfold Counts at *
  by_cases isWrite : virtDescTestFlag entry vringDescFWrite = true
  · simp only [storeIovec, isWrite, if_true, UInt16.toNat_add, UInt16.toNat_one]
    omega
  · simp only [storeIovec, isWrite, Bool.false_eq_true, if_false, UInt16.toNat_add,
      UInt16.toNat_one]
    omega

-- The entries are stored at consecutive indices, from the count at the start.
theorem store_all_stored (path : List UInt16) (w : HeadIov) (count : Nat)
    (counts : Counts w count) (room : count + path.length < 65536) :
    (storeAll guest desc bound path w).stored =
      w.stored ++ (List.range path.length).map (count + ·) := by
  induction path generalizing w count with
  | nil => simp [storeAll]
  | cons idx rest ih =>
      simp only [List.length_cons] at room
      have next := store_counts guest bound counts (by omega) idx.toNat (desc idx.toNat)
      have slot : w.outCount.toNat + w.inCount.toNat = count := counts
      rw [storeAll, ih _ (count + 1) next (by omega)]
      simp only [storeIovec, slot, List.length_cons, List.range_succ_eq_map, List.map_cons,
        List.map_map, Nat.add_zero, List.append_assoc, List.singleton_append]
      congr 2
      apply List.map_congr_left
      intro i _
      simp only [Function.comp_apply]
      omega

def iovecOf (guest : GuestMemory) (desc : VringDesc) : Iovec where
  iovBase := demuMapGuestRange guest desc.addr desc.len.toUInt64
    (if virtDescTestFlag desc vringDescFWrite then .write else .read)
  iovLen := desc.len.toNat

/-- The entries of `req->iov` are those of the chain, in its order. -/
theorem store_all_entries (guest : GuestMemory) (desc : Nat → VringDesc) (bound : Nat)
    (path : List UInt16) (w : HeadIov) (entries : List Iovec)
    (counts : Counts w entries.length) (room : entries.length + path.length < 65536)
    (before : Window id w.iov 0 entries) :
    Counts (storeAll guest desc bound path w) (entries.length + path.length) ∧
      Window id (storeAll guest desc bound path w).iov 0
        (entries ++ path.map fun idx => iovecOf guest (desc idx.toNat)) := by
  induction path generalizing w entries with
  | nil => exact ⟨counts, by simpa [storeAll] using before⟩
  | cons idx rest ih =>
      simp only [List.length_cons] at room
      have next := store_counts guest bound counts (by omega) idx.toNat (desc idx.toNat)
      have slot : w.outCount.toNat + w.inCount.toNat = entries.length := counts
      have pushed : Window id (storeIovec guest bound idx.toNat (desc idx.toNat) w).iov 0
          (entries ++ [iovecOf guest (desc idx.toNat)]) := by
        simp only [storeIovec, slot]
        have free : ∀ i < entries.length, id (0 + i) ≠ id (0 + entries.length) := by
          intro i inside
          simp only [id]
          omega
        simpa [iovecOf] using window_push before (iovecOf guest (desc idx.toNat)) free
      have whole := ih _ (entries ++ [iovecOf guest (desc idx.toNat)])
        (by simpa using next) (by simp only [List.length_append, List.length_singleton]; omega)
        pushed
      simp only [storeAll, List.map_cons]
      simpa [Nat.add_assoc, Nat.add_comm 1] using whole

end Walk

section HeadIov
variable {guest : GuestMemory} {ring : RingMemory} {vq : VirtQueue} {iov : Nat → Iovec}

theorem head_iov_indirect {head : UInt16}
    (indirect : virtDescTestFlag (ring.desc head.toNat) vringDescFIndirect = true)
    (mapped :
      guest.maps (ring.desc head.toNat).addr (ring.desc head.toNat).len.toUInt64 .read = true)
    (fuel : Nat) :
    virtQueueGetHeadIov guest ring vq iov head fuel =
      walkChain guest (vringDescTable guest (ring.desc head.toNat).addr.toNat)
        ((ring.desc head.toNat).len.toNat / sizeofVringDesc)
        (UInt16.ofNat ((ring.desc head.toNat).len.toNat / sizeofVringDesc)) fuel 0
        ⟨iov, 0, 0, [⟨head.toNat, vq.vring.num⟩], []⟩ := by
  simp only [virtQueueGetHeadIov, indirect, if_true, demuMapGuestRange, mapped]

theorem head_iov_direct {head : UInt16}
    (direct : virtDescTestFlag (ring.desc head.toNat) vringDescFIndirect = false) (fuel : Nat) :
    virtQueueGetHeadIov guest ring vq iov head fuel =
      walkChain guest ring.desc vq.vring.num (UInt16.ofNat vq.vring.num) fuel head
        ⟨iov, 0, 0, [⟨head.toNat, vq.vring.num⟩], []⟩ := by
  simp only [virtQueueGetHeadIov, direct, Bool.false_eq_true, if_false]

theorem head_iov_enough {head : UInt16} {fuel : Nat} {result : HeadIov}
    (walked : virtQueueGetHeadIov guest ring vq iov head fuel = some result) :
    virtQueueGetHeadIov guest ring vq iov head chainFuel = some result := by
  by_cases indirect : virtDescTestFlag (ring.desc head.toNat) vringDescFIndirect = true
  · by_cases mapped : guest.maps (ring.desc head.toNat).addr
        (ring.desc head.toNat).len.toUInt64 .read = true
    · rw [head_iov_indirect indirect mapped] at walked ⊢
      exact walk_enough walked
    · simp [virtQueueGetHeadIov, indirect, demuMapGuestRange, mapped] at walked
  · rw [Bool.not_eq_true] at indirect
    rw [head_iov_direct indirect] at walked ⊢
    exact walk_enough walked

end HeadIov

def virtioBlkQueueSize : Nat := 256

/-- What handling one popped head has to satisfy: the walk returns, the head is
an index of `bdev->reqs`, no descriptor outside its table is looked at and no
entry outside `req->iov` is stored. -/
def WalkSafe (guest : GuestMemory) (ring : RingMemory) (vq : VirtQueue) (iov : Nat → Iovec)
    (head : UInt16) : Prop :=
  ∃ fuel result, virtQueueGetHeadIov guest ring vq iov head fuel = some result ∧
    head.toNat < virtioBlkQueueSize ∧
    (∀ deref ∈ result.visited, deref.index < deref.bound) ∧
    (∀ slot ∈ result.stored, slot < virtioBlkQueueSize) ∧
    result.stored.length ≤ virtioBlkQueueSize

/-- The tables a driver that keeps to the rules publishes: the head is inside the
ring and its links end; an indirect table can be mapped, holds at least one
descriptor, and its links end after no more descriptors than `req->iov` has
entries. -/
def WellFormed (guest : GuestMemory) (ring : RingMemory) (head : UInt16) : Prop :=
  let first := ring.desc head.toNat
  let entries := first.len.toNat / sizeofVringDesc
  head.toNat < virtioBlkQueueSize ∧
    if virtDescTestFlag first vringDescFIndirect = true then
      guest.maps first.addr first.len.toUInt64 .read = true ∧ 0 < entries ∧
        ∃ path, path.length ≤ virtioBlkQueueSize ∧
          Chain (vringDescTable guest first.addr.toNat) (UInt16.ofNat entries) 0 path
    else ∃ path, Chain ring.desc (UInt16.ofNat virtioBlkQueueSize) head path

def noIov : Nat → Iovec := fun _ => ⟨none, 0⟩

section Safety
variable {guest : GuestMemory} {ring : RingMemory} {vq : VirtQueue} {iov : Nat → Iovec}

-- The walk of one table, from `first` on, after the head has been looked at.
theorem walk_table_iff {desc : Nat → VringDesc} {bound : Nat} {max first : UInt16} {w : HeadIov}
    (table : max.toNat ≤ bound) (counted : Counts w 0) (empty : w.stored = [])
    (looked : ∀ deref ∈ w.visited, deref.index < deref.bound) :
    (∃ fuel result, walkChain guest desc bound max fuel first w = some result ∧
      (∀ deref ∈ result.visited, deref.index < deref.bound) ∧
      (∀ slot ∈ result.stored, slot < virtioBlkQueueSize) ∧
      result.stored.length ≤ virtioBlkQueueSize) ↔
    first.toNat < bound ∧ ∃ path, path.length ≤ virtioBlkQueueSize ∧ Chain desc max first path := by
  constructor
  · rintro ⟨fuel, result, walked, inside, _, short⟩
    rcases chain_of_walk walked with ⟨path, chain, same⟩
    rcases chain.head with ⟨rest, split⟩
    have length : path.length ≤ virtioBlkQueueSize := by
      simpa [same, store_all_stored_length, empty] using short
    have member : (⟨first.toNat, bound⟩ : Deref) ∈ result.visited := by
      simp [same, store_all_visited, split]
    exact ⟨inside _ member, path, length, chain⟩
  · rintro ⟨start, path, length, chain⟩
    refine ⟨path.length, _, walk_of_chain chain w path.length (Nat.le_refl _), ?_, ?_, ?_⟩
    · intro deref member
      rw [store_all_visited] at member
      rcases List.mem_append.mp member with before | during
      · exact looked deref before
      · rcases List.mem_map.mp during with ⟨idx, present, same⟩
        subst same
        exact chain.bounded start table idx present
    · intro slot member
      have room : 0 + path.length < 65536 := by
        unfold virtioBlkQueueSize at length
        omega
      rw [store_all_stored path w 0 counted room, empty] at member
      simp only [List.nil_append, List.mem_map, List.mem_range] at member
      rcases member with ⟨i, before, same⟩
      omega
    · simpa [store_all_stored_length, empty] using length

theorem walk_safe_table {head : UInt16} {desc : Nat → VringDesc} {bound : Nat} {max first : UInt16}
    {num : Nat} (inside : head.toNat < num) (table : max.toNat ≤ bound)
    (walks : ∀ fuel, virtQueueGetHeadIov guest ring vq iov head fuel =
      walkChain guest desc bound max fuel first ⟨iov, 0, 0, [⟨head.toNat, num⟩], []⟩) :
    WalkSafe guest ring vq iov head ↔ head.toNat < virtioBlkQueueSize ∧ first.toNat < bound ∧
      ∃ path, path.length ≤ virtioBlkQueueSize ∧ Chain desc max first path := by
  have looked : ∀ deref ∈ [(⟨head.toNat, num⟩ : Deref)], deref.index < deref.bound := by
    intro deref member
    rw [List.mem_singleton.mp member]
    exact inside
  rw [← walk_table_iff (w := ⟨iov, 0, 0, [⟨head.toNat, num⟩], []⟩) table rfl rfl
    looked]
  simp only [WalkSafe, walks]
  constructor
  · rintro ⟨fuel, result, walked, small, rest⟩
    exact ⟨small, fuel, result, walked, rest⟩
  · rintro ⟨small, fuel, result, walked, rest⟩
    exact ⟨fuel, result, walked, small, rest⟩

/-- The walk is safe exactly on the tables of a driver that keeps to the rules:
nothing in the code refuses any other. -/
theorem walk_safe_iff_well_formed (guest : GuestMemory) (ring : RingMemory) (vq : VirtQueue)
    (iov : Nat → Iovec) (head : UInt16) (size : vq.vring.num = virtioBlkQueueSize) :
    WalkSafe guest ring vq iov head ↔ WellFormed guest ring head := by
  by_cases inside : head.toNat < virtioBlkQueueSize
  · by_cases indirect : virtDescTestFlag (ring.desc head.toNat) vringDescFIndirect = true
    · by_cases mapped : guest.maps (ring.desc head.toNat).addr
          (ring.desc head.toNat).len.toUInt64 .read = true
      · have truncated (entries : Nat) : (UInt16.ofNat entries).toNat ≤ entries := by
          rw [UInt16.toNat_ofNat']
          exact Nat.mod_le entries (2 ^ 16)
        rw [walk_safe_table (size ▸ inside) (truncated _) (head_iov_indirect indirect mapped)]
        simp only [WellFormed, indirect, mapped, if_true, true_and, UInt16.toNat_zero]
      · constructor
        · rintro ⟨fuel, result, walked, _⟩
          simp [virtQueueGetHeadIov, indirect, demuMapGuestRange, mapped] at walked
        · rintro ⟨_, formed⟩
          rw [if_pos indirect] at formed
          exact absurd formed.1 mapped
    · have whole : (UInt16.ofNat virtioBlkQueueSize).toNat = virtioBlkQueueSize := rfl
      rw [Bool.not_eq_true] at indirect
      rw [walk_safe_table (size ▸ inside) (size ▸ Nat.le_of_eq whole) (head_iov_direct indirect)]
      simp only [WellFormed, indirect, size, inside, Bool.false_eq_true, if_false, true_and]
      constructor
      · rintro ⟨path, _, chain⟩
        exact ⟨path, chain⟩
      · rintro ⟨path, chain⟩
        exact ⟨path, chain.length_le (chain.bounded inside (Nat.le_of_eq whole)), chain⟩
  · constructor
    · rintro ⟨_, _, _, small, _⟩
      exact absurd small inside
    · rintro ⟨small, _⟩
      exact absurd small inside

end Safety

end VirtioDisk.DescriptorChain
