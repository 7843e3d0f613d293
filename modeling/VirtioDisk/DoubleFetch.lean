import VirtioDisk.Virtqueue
import VirtioDisk.GuestMapping

/-!
virt_queue__get_head_iov of virtio/core.c when the guest changes the descriptors
under it. The source reads a field of guest memory anew wherever it names it, so
each of these reads has a value of its own here: `storedLen` and `mapLen` are the
same field of one descriptor, read twice. The fields a descriptor is read by, and
what the map calls got, are kept. The walk ends with its fetches if not before.
-/

namespace VirtioDisk.DoubleFetch

open GuestMapping Virtqueue

/-- The reads of the head of an indirect chain, in the order of the source. -/
structure TableFetch where
  flags : UInt16
  maxLen : UInt32
  mappedLen : UInt32
  addr : UInt64
  mapLen : UInt32
  answer : Option HostPages

/-- The reads of one turn of the loop. -/
structure DescFetch where
  writeFlags : UInt16
  storedLen : UInt32
  addr : UInt64
  mapLen : UInt32
  answer : Option HostPages
  nextFlags : UInt16
  next : UInt16

structure FieldRead where
  offset : Nat
  size : Nat
  deriving DecidableEq

/-- An entry of `iov`, and the map call it comes from. -/
structure Entry where
  iovBase : UInt64
  iovLen : UInt32
  mapLen : UInt32
  mappedPages : UInt32
  deriving DecidableEq

inductive Ending where
  | running | finished | bugOn | nullTable
  deriving DecidableEq

structure Walk where
  idx : UInt16
  outCount : UInt16
  inCount : UInt16
  demu : DemuState
  iov : List Entry
  reads : List FieldRead
  ending : Ending

structure Table where
  ptr : UInt64
  mapLen : UInt32
  mapped : UInt32
  mappedPages : UInt32

structure HeadIov where
  table : Option Table
  walk : Walk

def testFlag (flags flag : UInt16) : Bool := flags &&& flag != 0

def nextDesc (f : DescFetch) (max : UInt16) : UInt16 :=
  if testFlag f.nextFlags vringDescFNext = false then max else min f.next max

/-- `flags`, `len`, `addr` and `len` again, for the entry of `iov`. -/
def entryReads (idx : UInt16) : List FieldRead :=
  [⟨16 * idx.toNat + 12, 2⟩, ⟨16 * idx.toNat + 8, 4⟩, ⟨16 * idx.toNat, 8⟩, ⟨16 * idx.toNat + 8, 4⟩]

def nextReads (idx : UInt16) (f : DescFetch) : List FieldRead :=
  if testFlag f.nextFlags vringDescFNext = false then [⟨16 * idx.toNat + 12, 2⟩]
  else [⟨16 * idx.toNat + 12, 2⟩, ⟨16 * idx.toNat + 14, 2⟩]

-- A map call that failed has mapped nothing.
def pagesMapped (ptr addr : UInt64) (len : UInt32) : UInt32 :=
  if ptr = 0 then 0 else pageCount addr len.toUInt64

/-- One turn of the do/while loop. -/
def storeDescriptor (max : UInt16) (w : Walk) (f : DescFetch) : Walk :=
  match demuMapGuestRange w.demu f.addr f.mapLen.toUInt64 f.answer with
  | none => { w with reads := w.reads ++ entryReads w.idx, ending := .bugOn }
  | some (ptr, demu) =>
      let isWrite := testFlag f.writeFlags vringDescFWrite
      let next := nextDesc f max
      { idx := next
        outCount := if isWrite then w.outCount else w.outCount + 1
        inCount := if isWrite then w.inCount + 1 else w.inCount
        demu := demu
        iov := w.iov ++ [⟨ptr, f.storedLen, f.mapLen, pagesMapped ptr f.addr f.mapLen⟩]
        reads := w.reads ++ entryReads w.idx ++ nextReads w.idx f
        ending := if next = max then .finished else .running }

def walkChain (max : UInt16) (w : Walk) : List DescFetch → Walk
  | [] => w
  | f :: rest =>
      let next := storeDescriptor max w f
      if next.ending = .running then walkChain max next rest else next

def started (idx : UInt16) (demu : DemuState) : Walk := ⟨idx, 0, 0, demu, [], [], .running⟩

def virtQueueGetHeadIov (demu : DemuState) (num head : UInt16) (h : TableFetch)
    (fetches : List DescFetch) : HeadIov :=
  if testFlag h.flags vringDescFIndirect then
    let max := UInt16.ofNat (h.maxLen.toNat / 16)
    match demuMapGuestRange demu h.addr h.mapLen.toUInt64 h.answer with
    | none => ⟨none, { started head demu with ending := .bugOn }⟩
    | some (ptr, demu) =>
        let table : Table := ⟨ptr, h.mapLen, h.mappedLen, pagesMapped ptr h.addr h.mapLen⟩
        -- The first read of a table that was not mapped stops the server.
        if ptr = 0 then
          ⟨some table, { started 0 demu with reads := [⟨12, 2⟩], ending := .nullTable }⟩
        else ⟨some table, walkChain max (started 0 demu) fetches⟩
  else ⟨none, walkChain num (started head demu) fetches⟩

/-! The unmaps: of the table behind the loop, of the entries in virtio_blk_complete. -/

def Table.released (table : Table) : Option UInt32 :=
  if table.ptr ≠ 0 ∧ table.mapped ≠ 0 then some (pageCount table.ptr table.mapped.toUInt64)
  else none

def Entry.released (entry : Entry) : UInt32 := pageCount entry.iovBase entry.iovLen.toUInt64

def Table.length (table : Table) : Nat := if table.ptr = 0 then 0 else table.mapLen.toNat

def Inside (bound : Option Nat) (read : FieldRead) : Prop :=
  ∀ len, bound = some len → read.offset + read.size ≤ len

structure EntrySafe (entry : Entry) : Prop where
  length : entry.iovLen ≤ entry.mapLen
  pages : entry.released = entry.mappedPages

structure WalkSafe (bound : Option Nat) (w : Walk) : Prop where
  entries : ∀ entry ∈ w.iov, EntrySafe entry
  reads : ∀ read ∈ w.reads, Inside bound read

structure Safe (h : HeadIov) : Prop where
  walk : WalkSafe (h.table.map Table.length) h.walk
  table : ∀ table, h.table = some table → ∀ pages, table.released = some pages →
    pages = table.mappedPages

/-! The condition: what two reads of one field have to agree in. -/

/-- The length that is stored is not larger than the length that is mapped, it
covers the same pages, and a map call that fails was for nothing. -/
structure SameLength (f : DescFetch) : Prop where
  length : f.storedLen ≤ f.mapLen
  pages : f.answer ≠ none →
    pageCount f.addr f.storedLen.toUInt64 = pageCount f.addr f.mapLen.toUInt64
  failed : f.answer = none → f.storedLen = 0

/-- The fields of the descriptor that are read lie inside the table. -/
def FieldsInside (bound : Option Nat) (idx : UInt16) (linked : Bool) : Prop :=
  ∀ len, bound = some len → 16 * idx.toNat + (if linked then 16 else 14) ≤ len

structure Coherent (bound : Option Nat) (w : Walk) (f : DescFetch) : Prop where
  fields : FieldsInside bound w.idx false
  mapped : latch w.demu.useGnttab (grantAddress f.addr) ≠ none →
    SameLength f ∧ FieldsInside bound w.idx (testFlag f.nextFlags vringDescFNext)

def CoherentWalk (bound : Option Nat) (max : UInt16) (w : Walk) : List DescFetch → Prop
  | [] => True
  | f :: rest => Coherent bound w f ∧
      ((storeDescriptor max w f).ending = .running →
        CoherentWalk bound max (storeDescriptor max w f) rest)

def CoherentHead (demu : DemuState) (num head : UInt16) (h : TableFetch)
    (fetches : List DescFetch) : Prop :=
  if testFlag h.flags vringDescFIndirect then
    ∀ ptr after, demuMapGuestRange demu h.addr h.mapLen.toUInt64 h.answer = some (ptr, after) →
      h.answer ≠ none ∧
      (h.mappedLen ≠ 0 →
        pageCount h.addr h.mappedLen.toUInt64 = pageCount h.addr h.mapLen.toUInt64) ∧
      CoherentWalk (some h.mapLen.toNat) (UInt16.ofNat (h.maxLen.toNat / 16)) (started 0 after)
        fetches
  else CoherentWalk none num (started head demu) fetches

section Turn
variable {bound : Option Nat} {max : UInt16} {w : Walk}

theorem entry_reads_inside_iff (idx : UInt16) :
    (∀ read ∈ entryReads idx, Inside bound read) ↔ FieldsInside bound idx false := by
  cases bound with
  | none => simp [Inside, FieldsInside]
  | some len =>
      simp only [entryReads, Inside, FieldsInside, List.mem_cons, List.not_mem_nil, or_false,
        forall_eq_or_imp, forall_eq, Option.some.injEq, forall_eq', Bool.false_eq_true, if_false]
      omega

theorem next_reads_inside_iff (idx : UInt16) (f : DescFetch) :
    (∀ read ∈ nextReads idx f, Inside bound read) ↔
      FieldsInside bound idx (testFlag f.nextFlags vringDescFNext) := by
  unfold nextReads
  cases bound with
  | none => simp [Inside, FieldsInside]
  | some len =>
      cases testFlag f.nextFlags vringDescFNext with
      | false => simp [Inside, FieldsInside]
      | true =>
          simp only [Bool.true_eq_false, if_false, Inside, FieldsInside, List.mem_cons,
            List.not_mem_nil, or_false, forall_eq_or_imp, forall_eq, Option.some.injEq, forall_eq',
            if_true]
          omega

/-- What is unmapped of a mapping depends on the guest address alone. -/
theorem released_iff (pages : HostPages) (addr : UInt64) (len mapLen : UInt32) :
    pageCount (pointerAt addr (some pages)) len.toUInt64 =
        pagesMapped (pointerAt addr (some pages)) addr mapLen ↔
      pageCount addr len.toUInt64 = pageCount addr mapLen.toUInt64 := by
  have valid : pointerAt addr (some pages) ≠ 0 := pointer_valid pages addr
  rw [pagesMapped, if_neg valid, pointerAt, pointer_pages]

theorem entry_safe_iff {s after : DemuState} {ptr : UInt64} {f : DescFetch}
    (mapped : demuMapGuestRange s f.addr f.mapLen.toUInt64 f.answer = some (ptr, after)) :
    EntrySafe ⟨ptr, f.storedLen, f.mapLen, pagesMapped ptr f.addr f.mapLen⟩ ↔ SameLength f := by
  have pointer := map_range_pointer mapped
  cases answer : f.answer with
  | none =>
      rw [answer] at pointer
      subst pointer
      have released := page_count_zero_iff f.storedLen
      constructor
      · intro safe
        exact ⟨safe.length, fun given => absurd answer given, fun _ => released.mp safe.pages⟩
      · intro same
        exact ⟨same.length, released.mpr (same.failed answer)⟩
  | some pages =>
      rw [answer] at pointer
      subst pointer
      have given : f.answer ≠ none := by simp [answer]
      have released := released_iff pages f.addr f.storedLen f.mapLen
      constructor
      · intro safe
        exact ⟨safe.length, fun _ => released.mp safe.pages, fun missing => absurd missing given⟩
      · intro same
        exact ⟨same.length, released.mpr (same.pages given)⟩

/-- One turn keeps the walk safe exactly if its reads agree. -/
theorem store_descriptor_safe_iff (f : DescFetch) :
    WalkSafe bound (storeDescriptor max w f) ↔ WalkSafe bound w ∧ Coherent bound w f := by
  unfold storeDescriptor
  cases latched : latch w.demu.useGnttab (grantAddress f.addr) with
  | none =>
      rw [map_range_refused f.mapLen.toUInt64 f.answer latched]
      constructor
      · rintro ⟨entries, reads⟩
        have both := List.forall_mem_append.mp reads
        exact ⟨⟨entries, both.1⟩, (entry_reads_inside_iff w.idx).mp both.2,
          fun mapped => absurd latched mapped⟩
      · rintro ⟨⟨entries, reads⟩, fields, _⟩
        exact ⟨entries, List.forall_mem_append.mpr
          ⟨reads, (entry_reads_inside_iff w.idx).mpr fields⟩⟩
  | some model =>
      obtain ⟨ptr, after, mapped, _⟩ := map_range_latched f.mapLen.toUInt64 f.answer latched
      have known : latch w.demu.useGnttab (grantAddress f.addr) ≠ none := by simp [latched]
      rw [mapped]
      constructor
      · rintro ⟨entries, reads⟩
        obtain ⟨old, new⟩ := List.forall_mem_append.mp entries
        obtain ⟨before, next⟩ := List.forall_mem_append.mp reads
        obtain ⟨before, entry⟩ := List.forall_mem_append.mp before
        have same := (entry_safe_iff mapped).mp (new _ (List.mem_singleton_self _))
        exact ⟨⟨old, before⟩, (entry_reads_inside_iff w.idx).mp entry,
          fun _ => ⟨same, (next_reads_inside_iff w.idx f).mp next⟩⟩
      · rintro ⟨⟨old, before⟩, fields, coherent⟩
        obtain ⟨same, next⟩ := coherent known
        have entry := (entry_reads_inside_iff w.idx).mpr fields
        have last := (next_reads_inside_iff w.idx f).mpr next
        refine ⟨List.forall_mem_append.mpr ⟨old, ?_⟩,
          List.forall_mem_append.mpr ⟨List.forall_mem_append.mpr ⟨before, entry⟩, last⟩⟩
        intro stored member
        rw [List.mem_singleton.mp member]
        exact (entry_safe_iff mapped).mpr same

theorem walk_chain_safe_iff (fetches : List DescFetch) :
    WalkSafe bound (walkChain max w fetches) ↔
      WalkSafe bound w ∧ CoherentWalk bound max w fetches := by
  induction fetches generalizing w with
  | nil => simp [walkChain, CoherentWalk]
  | cons f rest ih =>
      have turn : WalkSafe bound (storeDescriptor max w f) ↔
          WalkSafe bound w ∧ Coherent bound w f :=
        store_descriptor_safe_iff f
      by_cases runs : (storeDescriptor max w f).ending = .running
      · simp only [walkChain, CoherentWalk, runs, if_true, forall_const]
        rw [ih, turn, and_assoc]
      · simp only [walkChain, CoherentWalk, runs, if_false, false_imp_iff, and_true]
        exact turn

end Turn

theorem started_safe (bound : Option Nat) (idx : UInt16) (demu : DemuState) :
    WalkSafe bound (started idx demu) where
  entries := by simp [started]
  reads := by simp [started]

theorem started_walk_safe_iff (bound : Option Nat) (max idx : UInt16) (demu : DemuState)
    (fetches : List DescFetch) :
    WalkSafe bound (walkChain max (started idx demu) fetches) ↔
      CoherentWalk bound max (started idx demu) fetches := by
  rw [walk_chain_safe_iff]
  exact and_iff_right (started_safe bound idx demu)

theorem table_released_iff (pages : HostPages) (addr : UInt64) (mapLen mapped : UInt32) :
    (∀ count, Table.released ⟨pointerAt addr (some pages), mapLen, mapped,
        pagesMapped (pointerAt addr (some pages)) addr mapLen⟩ = some count →
        count = pagesMapped (pointerAt addr (some pages)) addr mapLen) ↔
      (mapped ≠ 0 → pageCount addr mapped.toUInt64 = pageCount addr mapLen.toUInt64) := by
  have valid : pointerAt addr (some pages) ≠ 0 := pointer_valid pages addr
  by_cases zero : mapped = 0
  · simp [Table.released, zero]
  · simp [Table.released, valid, zero, released_iff]

/-- A turn in which the guest left the descriptor alone and the map call succeeded. -/
structure Stable (f : DescFetch) : Prop where
  length : f.storedLen = f.mapLen
  given : f.answer ≠ none

theorem Stable.same_length {f : DescFetch} (stable : Stable f) : SameLength f where
  length := UInt32.le_of_eq stable.length
  pages := fun _ => by rw [stable.length]
  failed := fun missing => absurd missing stable.given

theorem next_desc_le (f : DescFetch) (max : UInt16) : nextDesc f max ≤ max := by
  unfold nextDesc
  split
  · exact UInt16.le_refl max
  · show (if f.next ≤ max then f.next else max) ≤ max
    split
    · assumption
    · exact UInt16.le_refl max

theorem running_index {max : UInt16} {w : Walk} {f : DescFetch}
    (runs : (storeDescriptor max w f).ending = .running) :
    (storeDescriptor max w f).idx < max := by
  unfold storeDescriptor at runs ⊢
  cases mapped : demuMapGuestRange w.demu f.addr f.mapLen.toUInt64 f.answer with
  | none => simp [mapped] at runs
  | some result =>
      simp only [mapped, ite_eq_right_iff, reduceCtorEq, imp_false] at runs ⊢
      exact UInt16.lt_of_le_of_ne (next_desc_le f max) runs

/-- The bound on `next` keeps a walk over stable memory inside the table. -/
theorem stable_walk_coherent {max : UInt16} {len : Nat} (fits : 16 * max.toNat ≤ len)
    {w : Walk} (inside : 16 * w.idx.toNat + 16 ≤ len) {fetches : List DescFetch}
    (stable : ∀ f ∈ fetches, Stable f) : CoherentWalk (some len) max w fetches := by
  have field : ∀ linked, FieldsInside (some len) w.idx linked := by
    rintro linked _ ⟨rfl⟩
    split <;> omega
  induction fetches generalizing w with
  | nil => trivial
  | cons f rest ih =>
      obtain ⟨first, later⟩ := List.forall_mem_cons.mp stable
      refine ⟨⟨field false, fun _ => ⟨first.same_length, field _⟩⟩, ?_⟩
      intro runs
      have below := UInt16.lt_iff_toNat_lt.mp (running_index runs)
      have within : 16 * (storeDescriptor max w f).idx.toNat + 16 ≤ len := by omega
      apply ih within later
      rintro linked _ ⟨rfl⟩
      split <;> omega

/-- A guest that changes nothing under the walk, with a table of at least one
descriptor and map calls that succeed, meets the condition. -/
theorem stable_table_coherent (demu : DemuState) (num head : UInt16) {h : TableFetch}
    {fetches : List DescFetch} (indirect : testFlag h.flags vringDescFIndirect = true)
    (sameMax : h.maxLen = h.mapLen) (sameMapped : h.mappedLen = h.mapLen)
    (entry : 16 ≤ h.mapLen.toNat) (given : h.answer ≠ none)
    (stable : ∀ f ∈ fetches, Stable f) : CoherentHead demu num head h fetches := by
  unfold CoherentHead
  rw [if_pos indirect]
  intro ptr after _
  refine ⟨given, fun _ => by rw [sameMapped], ?_⟩
  apply stable_walk_coherent _ _ stable
  · rw [sameMax, UInt16.toNat_ofNat']
    omega
  · simpa [started] using entry

/-- The walk is safe for every sequence of fetched values in which two reads of one
field agree as far as they have to, and for no other. -/
theorem head_walk_safe_iff (demu : DemuState) (num head : UInt16) (h : TableFetch)
    (fetches : List DescFetch) :
    Safe (virtQueueGetHeadIov demu num head h fetches) ↔
      CoherentHead demu num head h fetches := by
  unfold virtQueueGetHeadIov CoherentHead
  split
  · cases mapped : demuMapGuestRange demu h.addr h.mapLen.toUInt64 h.answer with
    | none =>
        apply iff_of_true
        · exact ⟨⟨(started_safe none head demu).entries, (started_safe none head demu).reads⟩,
            fun _ none => nomatch none⟩
        · intro ptr after done
          cases done
    | some result =>
        obtain ⟨ptr, after⟩ := result
        have pointer := map_range_pointer mapped
        cases answer : h.answer with
        | none =>
            rw [answer] at pointer
            subst pointer
            apply iff_of_false
            · intro safe
              have inside := safe.walk.reads ⟨12, 2⟩ (List.mem_singleton_self _) 0 rfl
              exact absurd inside (by decide)
            · intro coherent
              exact (coherent _ after rfl).1 rfl
        | some pages =>
            rw [answer] at pointer
            subst pointer
            have valid : pointerAt h.addr (some pages) ≠ 0 := pointer_valid pages h.addr
            have walk := started_walk_safe_iff (some h.mapLen.toNat)
              (UInt16.ofNat (h.maxLen.toNat / 16)) 0 after fetches
            have table := table_released_iff pages h.addr h.mapLen h.mappedLen
            simp only [valid, if_false]
            constructor
            · intro safe ptr' after' same
              cases same
              refine ⟨by simp, table.mp (safe.table _ rfl), walk.mp ?_⟩
              simpa [Table.length, valid] using safe.walk
            · intro coherent
              obtain ⟨_, sameTable, sameWalk⟩ := coherent _ after rfl
              constructor
              · simpa [Table.length, valid] using walk.mpr sameWalk
              · intro given same
                cases same
                exact table.mpr sameTable
  · have walk := started_walk_safe_iff none num head demu fetches
    constructor
    · intro safe
      exact walk.mp safe.walk
    · intro coherent
      exact ⟨walk.mpr coherent, fun _ none => nomatch none⟩

/-- One descriptor whose length is 64 KiB when it is stored, and one page by the
time it is mapped. -/
def grownLength : DescFetch where
  writeFlags := vringDescFWrite
  storedLen := 0x10000
  addr := 0x1000
  mapLen := 0x1000
  answer := some ⟨0x70000, by decide, by decide, by decide⟩
  nextFlags := vringDescFWrite
  next := 0

def directHead : TableFetch := ⟨0, 0, 0, 0, 0, none⟩

theorem stored_length_unmapped :
    ¬ Safe (virtQueueGetHeadIov ⟨none, []⟩ 256 0 directHead [grownLength]) := by
  intro safe
  have stored := safe.walk.entries ⟨0x70000, 0x10000, 0x1000, 1⟩ (by decide)
  exact absurd stored.length (by decide)

end VirtioDisk.DoubleFetch
